/-! What stylesheets are read by: which brackets are open, and where a name ends. -/

namespace VideoPage.Proofs.CssSyntax

/-- The round and square brackets that are open behind a character, innermost first. A closing
bracket closes only an opening one of its own kind. -/
def bracketsAfter (opened : List Char) (c : Char) : List Char :=
  if c = '(' ∨ c = '[' then c :: opened
  else if c = ')' ∧ opened.head? = some '(' ∨ c = ']' ∧ opened.head? = some '[' then opened.tail
  else opened

/-- A text that a name goes on with although no ASCII letter, digit, hyphen or underscore comes
next. A backslash makes an escape with anything but a line break. -/
inductive Overlooked : List Char → Prop
  | beyond {c : Char} {rest : List Char} (outside : 0x80 ≤ c.toNat) : Overlooked (c :: rest)
  | escape {rest : List Char} (unbroken : ∀ c ∈ rest.head?, c ∉ ['\n', '\r', '\x0c']) : Overlooked ('\\' :: rest)

/-- The name just before this text goes on here. -/
def GoesOn (rest : List Char) : Prop :=
  (∃ c ∈ rest.head?, c.isAlphanum = true ∨ c = '-' ∨ c = '_') ∨ Overlooked rest

theorem not_goesOn_cons {c : Char} {rest : List Char} (ascii : c.toNat < 0x80)
    (other : c ≠ '\\') (noName : ¬ (c.isAlphanum = true ∨ c = '-' ∨ c = '_')) : ¬ GoesOn (c :: rest) := by
  rintro (⟨d, first, name⟩ | overlooked)
  · obtain rfl := Option.mem_some.mp first
    exact noName name
  · cases overlooked with
    | beyond outside => omega
    | escape => exact other rfl

end VideoPage.Proofs.CssSyntax
