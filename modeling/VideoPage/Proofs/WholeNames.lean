import VideoPage.Proofs.CssSyntax
import VideoPage.Proofs.SelectorLists

/-! Whole names at the start of a selector. A name of a stylesheet also goes on with characters
beyond ASCII and with escapes, which are not looked at. Selectors that start with the scope, or with
a name of the root, and go on like that are taken for selectors of the scope. All others are put
where they belong. -/

namespace VideoPage.Proofs.WholeNames
open Stylesheet Selector SelectorLists CssSyntax

/-- Where a selector belongs under a scope. -/
inductive Placed (scope : List Char) : List Char → List Char → Prop
  | kept {rest : List Char} (whole : ¬ GoesOn rest) : Placed scope (scope ++ rest) (scope ++ rest)
  | root {word rest : List Char} (known : word ∈ rootNames) (whole : ¬ GoesOn rest) : Placed scope (word ++ rest) (scope ++ rest)
  | below {selector : List Char}
      (foreign : ∀ word ∈ scope :: rootNames, ∀ rest, selector = word ++ rest → GoesOn rest) :
      Placed scope selector (scope ++ ' ' :: selector)

section Names

variable {name selector word other rest more : List Char}

theorem endsName_iff : EndsName rest ↔ ¬ ∃ c ∈ rest.head?, c.isAlphanum = true ∨ c = '-' ∨ c = '_' := by
  simp [EndsName, continuesName, and_assoc]

theorem endsName_of_overlooked (overlooked : Overlooked rest) : EndsName rest := by
  intro c first
  cases overlooked with
  | beyond outside =>
    obtain rfl := Option.mem_some.mp first
    rw [← Bool.not_eq_true]
    intro letter
    have codes := codes_of_continuesName letter
    omega
  | escape =>
    obtain rfl := Option.mem_some.mp first
    decide

/-- A class, the root and the body start with different characters. -/
theorem start_unique (starts : word ∈ ('.' :: name) :: rootNames) (also : other ∈ ('.' :: name) :: rootNames)
    (same : word ++ rest = other ++ more) : word = other ∧ rest = more := by
  have words : word = other := by
    simp only [rootNames, List.mem_cons, List.not_mem_nil, or_false] at starts also
    rcases starts with rfl | rfl | rfl <;> rcases also with rfl | rfl | rfl <;> first | rfl | cases same
  subst words
  exact ⟨rfl, List.append_cancel_left same⟩

theorem dropWord?_none (none : dropWord? word selector = none) (starts : selector = word ++ rest) : ¬ EndsName rest := by
  intro complete
  rw [starts, dropWord?_append complete] at none
  cases none

/-- A selector that starts with the scope or the root has the scope in place of this start. -/
theorem under_start (starts : word ∈ ('.' :: name) :: rootNames) (complete : EndsName rest) :
    under ('.' :: name) (word ++ rest) = '.' :: name ++ rest := by
  rcases List.mem_cons.mp starts with rfl | known
  · exact under_append complete
  · -- The scope is tried first, but what starts like the root does not start with a class.
    have foreign : dropWord? ('.' :: name) (word ++ rest) = none := by
      rw [Option.eq_none_iff_forall_not_mem]
      intro tail found
      obtain ⟨same, -⟩ := dropWord?_eq_some found
      obtain ⟨rfl, -⟩ := start_unique starts List.mem_cons_self same
      simp [rootNames] at known
    rw [under, foreign, Option.isSome_none, if_neg Bool.false_ne_true]
    cases root : rootNames.findSome? (dropWord? · (word ++ rest)) with
    | none => exact absurd complete (dropWord?_none (List.findSome?_eq_none_iff.mp root word known) rfl)
    | some tail =>
      obtain ⟨other, also, found⟩ := List.exists_of_findSome?_eq_some root
      obtain ⟨same, -⟩ := dropWord?_eq_some found
      obtain ⟨-, rfl⟩ := start_unique starts (List.mem_cons_of_mem _ also) same
      rfl

theorem under_foreign (foreign : ∀ word ∈ ('.' :: name) :: rootNames, ∀ rest, selector = word ++ rest → ¬ EndsName rest) :
    under ('.' :: name) selector = '.' :: name ++ ' ' :: selector := by
  have none : ∀ word ∈ ('.' :: name) :: rootNames, dropWord? word selector = none := by
    intro word starts
    rw [Option.eq_none_iff_forall_not_mem]
    intro rest found
    obtain ⟨same, complete⟩ := dropWord?_eq_some found
    exact foreign word starts rest same complete
  obtain ⟨scope, roots⟩ := List.forall_mem_cons.mp none
  rw [under, scope, Option.isSome_none, if_neg Bool.false_ne_true, List.findSome?_eq_none_iff.mpr roots]

/-- A selector whose name goes on unseen belongs below the scope. -/
theorem placed_overlooked (starts : word ∈ ('.' :: name) :: rootNames) (overlooked : Overlooked rest) {result : List Char} :
    Placed ('.' :: name) (word ++ rest) result ↔ result = '.' :: name ++ ' ' :: (word ++ rest) := by
  constructor
  · generalize same : word ++ rest = selector
    intro placed
    cases placed with
    | kept whole =>
      obtain ⟨-, rfl⟩ := start_unique starts List.mem_cons_self same
      exact absurd (.inr overlooked) whole
    | root known whole =>
      obtain ⟨-, rfl⟩ := start_unique starts (List.mem_cons_of_mem _ known) same
      exact absurd (.inr overlooked) whole
    | below => rfl
  · rintro rfl
    apply Placed.below
    intro other also tail same
    obtain ⟨-, rfl⟩ := start_unique starts also same
    exact .inr overlooked

end Names

/-- Under a class, a selector is put where it belongs exactly if no name that it starts with goes on
unseen behind the scope, the root or the body. Otherwise that name is cut, and the scope stands for
its start. -/
theorem under_placed (name selector : List Char) :
    (Placed ('.' :: name) selector (under ('.' :: name) selector) ↔
      ∀ word ∈ ('.' :: name) :: rootNames, ∀ rest, selector = word ++ rest → ¬ Overlooked rest) ∧
    ∀ word ∈ ('.' :: name) :: rootNames, ∀ rest, selector = word ++ rest → Overlooked rest →
      under ('.' :: name) selector = '.' :: name ++ rest ∧ Placed ('.' :: name) selector ('.' :: name ++ ' ' :: selector) := by
  refine ⟨⟨?_, ?_⟩, ?_⟩
  · rintro placed word starts rest rfl overlooked
    rw [placed_overlooked starts overlooked, under_start starts (endsName_of_overlooked overlooked)] at placed
    have lengths := congrArg List.length (List.append_cancel_left placed)
    simp only [List.length_cons, List.length_append] at lengths
    omega
  · intro clear
    by_cases start : ∃ word ∈ ('.' :: name) :: rootNames, ∃ rest, selector = word ++ rest ∧ EndsName rest
    · obtain ⟨word, starts, rest, rfl, complete⟩ := start
      have whole : ¬ GoesOn rest := not_or.mpr ⟨endsName_iff.mp complete, clear word starts rest rfl⟩
      rw [under_start starts complete]
      rcases List.mem_cons.mp starts with rfl | known
      · exact .kept whole
      · exact .root known whole
    · have foreign : ∀ word ∈ ('.' :: name) :: rootNames, ∀ rest, selector = word ++ rest → ¬ EndsName rest :=
        fun word starts rest same complete => start ⟨word, starts, rest, same, complete⟩
      rw [under_foreign foreign]
      apply Placed.below
      intro word starts rest same
      exact .inl (not_not.mp (endsName_iff.not.mp (foreign word starts rest same)))
  · rintro word starts rest rfl overlooked
    exact ⟨under_start starts (endsName_of_overlooked overlooked), (placed_overlooked starts overlooked).mpr rfl⟩

/-- A class that only starts like the scope is left outside it. -/
theorem under_placed_accent :
    under ['.', 'x'] ['.', 'x', 'é'] = ['.', 'x', 'é'] ∧ ¬ Placed ['.', 'x'] ['.', 'x', 'é'] ['.', 'x', 'é'] ∧
      Placed ['.', 'x'] ['.', 'x', 'é'] ['.', 'x', ' ', '.', 'x', 'é'] := by
  have accent : Overlooked ['é'] := .beyond (by decide)
  obtain ⟨whole, cut⟩ := under_placed ['x'] ['.', 'x', 'é']
  obtain ⟨kept, below⟩ := cut ['.', 'x'] List.mem_cons_self ['é'] rfl accent
  refine ⟨kept, fun placed => ?_, below⟩
  exact whole.mp (by rwa [kept]) ['.', 'x'] List.mem_cons_self ['é'] rfl accent

end VideoPage.Proofs.WholeNames
