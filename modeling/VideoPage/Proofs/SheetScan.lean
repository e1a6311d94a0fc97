import VideoPage.Proofs.TextBlanks
import VideoPage.Stylesheet.Scan

/-! Reading text piece by piece. Most characters mean nothing to a scan: they only make it
forget a slash, a star or a backslash just before them. Edits made of such characters
leave the structure of a sheet alone. -/

namespace VideoPage.Proofs.SheetScan
open Stylesheet Scan

theorem after_append (s : Scan) (first second : List Char) :
    s.after (first ++ second) = (s.after first).after second :=
  List.foldl_append

theorem after_cons (s : Scan) (c : Char) (text : List Char) : s.after (c :: text) = (s.step c).after text := rfl

theorem braces_cons (s : Scan) (c : Char) (text : List Char) :
    s.braces (c :: text) = (s.brace? c).toList ++ (s.step c).braces text := by
  rw [braces]
  cases s.brace? c <;> rfl

theorem braces_append (s : Scan) (first second : List Char) :
    s.braces (first ++ second) = s.braces first ++ (s.after first).braces second := by
  induction first generalizing s with
  | nil => rfl
  | cons c first ih =>
    rw [List.cons_append, braces_cons, braces_cons, ih, List.append_assoc]
    rfl

theorem inComment_atLineStart (inComment : Bool) : (atLineStart inComment).inComment = inComment := by
  cases inComment <;> rfl

section Steps
variable {c : Char}

theorem step_code (c : Char) : code.step c = inCode c := by
  by_cases newline : c = '\n'
  · subst newline
    rfl
  · rw [step, if_neg newline]

theorem step_slash (noStar : c ≠ '*') : slash.step c = code.step c := by
  simp [step, noStar, newline, inComment]

theorem step_comment (c : Char) : comment.step c = inCommentText c := by
  by_cases newline : c = '\n'
  · subst newline
    rfl
  · rw [step, if_neg newline]

theorem step_star (noSlash : c ≠ '/') : star.step c = comment.step c := by
  simp [step, noSlash, newline, inComment]

end Steps

/-- Text in which no comment ends. -/
def Uncut (text : List Char) : Prop := ¬ ['*', '/'] <:+: text

theorem uncut_concat {text : List Char} {c : Char} :
    Uncut (text ++ [c]) ↔ Uncut text ∧ ¬ (text.getLast? = some '*' ∧ c = '/') := by
  have last : ['*', '/'] <:+ text ++ [c] ↔ text.getLast? = some '*' ∧ c = '/' := by
    have cut := @List.suffix_append_inj_of_length_eq Char ['*'] text ['/'] [c] rfl
    rw [List.singleton_suffix_iff_getLast?_eq_some, List.singleton_inj, eq_comm (a := '/')] at cut
    exact cut
  rw [Uncut, Uncut, List.infix_concat_iff, last]
  tauto

/-- Of a comment's text a scan remembers no more than a star just before, and no brace is structure. -/
theorem scan_uncut {text : List Char} (uncut : Uncut text) :
    comment.braces text = [] ∧ comment.after text = if text.getLast? = some '*' then .star else .comment := by
  induction text using List.reverseRecOn with
  | nil => exact ⟨rfl, rfl⟩
  | append_singleton text c ih =>
    obtain ⟨before, noEnd⟩ := uncut_concat.mp uncut
    obtain ⟨quiet, after⟩ := ih before
    have same : (comment.after text).brace? c = none ∧ (comment.after text).step c = inCommentText c := by
      rw [after, ← step_comment]
      split
      next star => exact ⟨rfl, step_star fun slash => noEnd ⟨star, slash⟩⟩
      next => exact ⟨rfl, rfl⟩
    rw [braces_append, quiet, braces_cons, same.1, after_append, after_cons, same.2]
    exact ⟨rfl, by simp [Scan.after, inCommentText]⟩

/-- Only the two quotes open a string. -/
def Sound : Scan → Prop
  | quoted quote | escaped quote => quote = '"' ∨ quote = '\''
  | _ => True

theorem sound_inCode (c : Char) : Sound (inCode c) := by
  unfold inCode
  split
  · trivial
  · split
    next quote => simpa [Sound] using quote
    next => trivial

theorem sound_inCommentText (c : Char) : Sound (inCommentText c) := by
  unfold inCommentText
  split <;> trivial

theorem Sound.step {s : Scan} (sound : Sound s) (c : Char) : Sound (s.step c) := by
  cases s with
  | code =>
    rw [step_code]
    exact sound_inCode c
  | slash =>
    by_cases star : c = '*'
    · subst star
      trivial
    · rw [step_slash star, step_code]
      exact sound_inCode c
  | comment =>
    rw [step_comment]
    exact sound_inCommentText c
  | star =>
    by_cases slash : c = '/'
    · subst slash
      trivial
    · rw [step_star slash, step_comment]
      exact sound_inCommentText c
  | quoted quote =>
    unfold Scan.step
    split
    · trivial
    · dsimp only
      split
      · exact sound
      · split
        · trivial
        · exact sound
  | escaped quote =>
    unfold Scan.step
    split
    · trivial
    · exact sound

theorem Sound.after {s : Scan} (sound : Sound s) (text : List Char) : Sound (s.after text) := by
  induction text generalizing s with
  | nil => exact sound
  | cons c text ih => exact ih (sound.step c)

/-- What is open once the last character no longer matters. -/
def calm : Scan → Scan
  | .slash => .code
  | .star => .comment
  | .escaped quote => .quoted quote
  | s => s

@[simp] theorem calm_calm (s : Scan) : calm (calm s) = calm s := by cases s <;> rfl

theorem calm_inComment (s : Scan) : (calm s).inComment = s.inComment := by cases s <;> rfl

/-- A character that opens and closes nothing. -/
def Plain (c : Char) : Prop := c ∉ ['\n', '/', '*', '"', '\'', '\\', '{', '}']

instance (c : Char) : Decidable (Plain c) :=
  inferInstanceAs (Decidable (c ∉ ['\n', '/', '*', '"', '\'', '\\', '{', '}']))

theorem plain_comma : Plain ',' := by decide

theorem plain_space : Plain ' ' := by decide

theorem Plain.ne {c special : Char} (plain : Plain c) (member : special ∈ ['\n', '/', '*', '"', '\'', '\\', '{', '}']) :
    c ≠ special := by
  rintro rfl
  exact plain member

theorem Plain.noBreak {c : Char} (plain : Plain c) : c ≠ '\n' := plain.ne (by simp)

theorem Plain.noSlash {c : Char} (plain : Plain c) : c ≠ '/' := plain.ne (by simp)

theorem Plain.noStar {c : Char} (plain : Plain c) : c ≠ '*' := plain.ne (by simp)

theorem step_plain {s : Scan} {c : Char} (sound : Sound s) (plain : Plain c) : s.step c = calm s := by
  simp only [Plain, List.mem_cons, List.not_mem_nil, or_false, not_or] at plain
  obtain ⟨noBreak, noSlash, noStar, noQuote, noTick, noEscape, _, _⟩ := plain
  cases s with
  | quoted quote =>
    have other : c ≠ quote := by rcases sound with rfl | rfl <;> assumption
    simp [step, calm, noBreak, noEscape, other]
  | _ => simp [step, calm, inCode, inCommentText, noBreak, noSlash, noStar, noQuote, noTick]

theorem brace?_plain {s : Scan} {c : Char} (plain : Plain c) : s.brace? c = none := by
  simp only [Plain, List.mem_cons, List.not_mem_nil, or_false, not_or] at plain
  cases s <;> simp [brace?, plain]

theorem braces_plain {s : Scan} {text : List Char} (plain : ∀ c ∈ text, Plain c) : s.braces text = [] := by
  induction text generalizing s with
  | nil => rfl
  | cons c text ih =>
    rw [braces_cons, brace?_plain (plain c List.mem_cons_self)]
    apply ih
    intro other member
    exact plain other (List.mem_cons_of_mem c member)

theorem after_plain {s : Scan} {text : List Char} (sound : Sound s) (rested : calm s = s)
    (plain : ∀ c ∈ text, Plain c) : s.after text = s := by
  induction text with
  | nil => rfl
  | cons c text ih =>
    rw [after_cons, step_plain sound (plain c List.mem_cons_self), rested]
    apply ih
    intro other member
    exact plain other (List.mem_cons_of_mem c member)

theorem after_plain_calm {s : Scan} {text : List Char} (sound : Sound s) (plain : ∀ c ∈ text, Plain c) :
    calm (s.after text) = calm s := by
  cases text with
  | nil => rfl
  | cons c text =>
    have first := step_plain sound (plain c List.mem_cons_self)
    have sound' : Sound (calm s) := first ▸ sound.step c
    rw [after_cons, first, after_plain sound' (calm_calm s), calm_calm]
    exact fun other member => plain other (List.mem_cons_of_mem c member)

/-- Blanks inside a line, which only a line break could make matter. -/
theorem plain_of_isBlank {c : Char} (blank : Text.isBlank c = true) (noBreak : c ≠ '\n') : Plain c := by
  intro special
  rcases List.mem_cons.mp special with same | special
  · exact noBreak same
  · exact TextBlanks.not_mem_of_blank (by simp [Text.isBlank, Text.blankRanges]) blank special

theorem plain_of_blank {text : List Char} (noBreak : '\n' ∉ text) (blank : TextBlanks.Blank text) :
    ∀ c ∈ text, Plain c :=
  fun c member => plain_of_isBlank (blank c member) (fun same => noBreak (same ▸ member))

theorem indentation_plain {text : List Char} (noBreak : '\n' ∉ text) : ∀ c ∈ Text.indentation text, Plain c :=
  plain_of_blank (fun member => noBreak (TextBlanks.mem_indentation member)) (TextBlanks.indentation_blank text)

theorem ending_plain {text : List Char} (noBreak : '\n' ∉ text) : ∀ c ∈ Text.ending text, Plain c :=
  plain_of_blank (fun member => noBreak (TextBlanks.mem_ending member)) (TextBlanks.ending_blank text)

/-- Plain characters around a text add no structure to it and leave nothing else open. -/
theorem scan_around {s : Scan} {lead tail : List Char} (core : List Char) (sound : Sound s) (rested : calm s = s)
    (before : ∀ c ∈ lead, Plain c) (after : ∀ c ∈ tail, Plain c) :
    s.braces (lead ++ core ++ tail) = s.braces core ∧ calm (s.after (lead ++ core ++ tail)) = calm (s.after core) := by
  rw [braces_append, braces_append, after_append s (lead ++ core), after_append s lead, braces_plain before,
    braces_plain after, after_plain sound rested before, List.nil_append, List.append_nil]
  exact ⟨rfl, after_plain_calm (sound.after core) after⟩

theorem splitAtBrace?_eq_none_iff {s : Scan} {text : List Char} :
    s.splitAtBrace? text = none ↔ s.braces text = [] := by
  induction text generalizing s with
  | nil => simp [splitAtBrace?, braces]
  | cons c text ih =>
    cases found : s.brace? c with
    | some brace => simp [splitAtBrace?, braces, found]
    | none =>
      rw [splitAtBrace?, found, braces_cons, found]
      simp only [Option.toList_none, List.nil_append, ← ih (s := s.step c)]
      cases (s.step c).splitAtBrace? text <;> simp

theorem splitAtBrace?_append {s : Scan} {head : List Char} {c : Char} {brace : Brace} (rest : List Char)
    (none : s.braces head = []) (found : (s.after head).brace? c = some brace) :
    s.splitAtBrace? (head ++ c :: rest) = some (head, brace, c :: rest) := by
  induction head generalizing s with
  | nil =>
    have found : s.brace? c = some brace := found
    simp [splitAtBrace?, found]
  | cons d head ih =>
    rw [braces_cons, List.append_eq_nil_iff, Option.toList_eq_nil_iff] at none
    have rest := ih none.2 found
    simp [splitAtBrace?, none.1, rest]

/-- The head of a split line holds no structure, and the brace stands at the start of the rest. -/
theorem splitAtBrace?_parts {s : Scan} {text head tail : List Char} {brace : Brace}
    (split : s.splitAtBrace? text = some (head, brace, tail)) :
    text = head ++ tail ∧ s.braces head = [] ∧
      ∃ c rest, tail = c :: rest ∧ (s.after head).brace? c = some brace := by
  induction text generalizing s head with
  | nil => simp [splitAtBrace?] at split
  | cons c text ih =>
    cases found : s.brace? c with
    | some first =>
      simp only [splitAtBrace?, found, Option.some.injEq, Prod.mk.injEq] at split
      obtain ⟨rfl, rfl, rfl⟩ := split
      exact ⟨rfl, rfl, c, text, rfl, found⟩
    | none =>
      cases rest : (s.step c).splitAtBrace? text with
      | none => simp [splitAtBrace?, found, rest] at split
      | some parts =>
        obtain ⟨head', brace', tail'⟩ := parts
        simp only [splitAtBrace?, found, rest, Option.some.injEq, Prod.mk.injEq] at split
        obtain ⟨rfl, rfl, rfl⟩ := split
        obtain ⟨whole, none, tailed⟩ := ih rest
        exact ⟨by rw [whole, List.cons_append], by rw [braces_cons, found, none]; rfl, tailed⟩

end VideoPage.Proofs.SheetScan
