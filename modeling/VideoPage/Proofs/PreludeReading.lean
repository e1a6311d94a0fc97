import Mathlib
import VideoPage.Proofs.SheetRules

/-! Two readings of a prelude that differ in what stands before some of its selectors. They
agree on what has been decided so far, and they are alike when no text behind them can
bring them apart. -/

namespace VideoPage.Proofs.PreludeReading
open Stylesheet SheetRules

/-- A selector that the scope is put in front of, or that is taken for one of the scope. -/
def Settled (word : List Char) (selector : List Sign) : Prop :=
  selector.head? = some .mark ∨ TakenFor word selector

def AllSettled (word : List Char) (selectors : List (List Sign)) : Prop :=
  ∀ selector ∈ selectors, selector ≠ [] → Settled word selector

/-- With more behind it a selector starts as it did. -/
structure Keeps (word : List Char) (selector more : List Sign) : Prop where
  settled : Settled word (selector ++ more) ↔ Settled word selector
  name : atName? (selector ++ more) = atName? selector

structure Firm (word : List Char) (selector : List Sign) : Prop where
  visible : selector ≠ []
  keeps : ∀ more, Keeps word selector more

theorem Firm.append {word : List Char} {selector : List Sign} (firm : Firm word selector) (more : List Sign) :
    Firm word (selector ++ more) := by
  refine ⟨by simp [firm.visible], fun rest => ⟨?_, ?_⟩⟩
  · rw [List.append_assoc, (firm.keeps _).settled, (firm.keeps _).settled]
  · rw [List.append_assoc, (firm.keeps _).name, (firm.keeps _).name]

theorem firm_mark (word : List Char) : Firm word [.mark] :=
  ⟨List.cons_ne_nil _ _, fun more => ⟨by simp [Settled], rfl⟩⟩

section Breaks
variable {word : List Char} {selector : List Sign} {sign : Sign}

theorem plainClass_mem {c : Char} (plain : PlainClass word) (member : c ∈ word) :
    c = '.' ∨ Selector.continuesName c = true := by
  obtain ⟨name, rfl, -, all⟩ := plain
  exact (List.mem_cons.mp member).imp_right (all c)

/-- Neither a class nor a name goes on with this sign. -/
structure Breaks (sign : Sign) : Prop where
  noName : sign.continuesName = false
  noDot : sign ≠ .code '.'

theorem takenFor_append (plain : PlainClass word) (breaks : Breaks sign) (more : List Sign) :
    TakenFor word (selector ++ sign :: more) ↔ TakenFor word selector := by
  constructor
  · rintro ⟨rest, whole, complete⟩
    -- The word would have to go on with the sign, or it is over before.
    rcases List.append_eq_append_iff.mp whole with ⟨left, start, tail⟩ | ⟨left, start, tail⟩
    · cases left with
      | nil => exact ⟨[], by simpa using start.symm, by simp⟩
      | cons first left =>
        obtain ⟨rfl, -⟩ := List.cons.inj tail
        have member : sign ∈ word.map Sign.code := start ▸ List.mem_append_right selector List.mem_cons_self
        obtain ⟨c, inside, rfl⟩ := List.mem_map.mp member
        rcases plainClass_mem plain inside with rfl | name
        · exact absurd rfl breaks.noDot
        · exact absurd breaks.noName (by simp [Sign.continuesName, name])
    · refine ⟨left, start, ?_⟩
      cases left with
      | nil => simp
      | cons first left => simpa [tail] using complete
  · rintro ⟨rest, rfl, complete⟩
    refine ⟨rest ++ sign :: more, List.append_assoc _ _ _, ?_⟩
    cases rest with
    | nil => simpa using breaks.noName
    | cons first rest => simpa using complete

theorem atName?_append (visible : selector ≠ []) (noName : sign.continuesName = false) (more : List Sign) :
    atName? (selector ++ sign :: more) = atName? selector := by
  have stop : ∀ text : List Sign,
      (text ++ sign :: more).takeWhile Sign.continuesName = text.takeWhile Sign.continuesName := by
    intro text
    induction text with
    | nil => simp [noName]
    | cons first text ih => simp only [List.cons_append, List.takeWhile_cons, ih]
  cases selector with
  | nil => exact absurd rfl visible
  | cons first selector =>
    by_cases at_rule : first = .code '@'
    · simp only [at_rule, List.cons_append, atName?, stop]
    · simp [atName?, at_rule]

theorem settled_append (plain : PlainClass word) (visible : selector ≠ []) (breaks : Breaks sign) (more : List Sign) :
    Settled word (selector ++ sign :: more) ↔ Settled word selector := by
  rw [Settled, Settled, takenFor_append plain breaks more]
  cases selector with
  | nil => exact absurd rfl visible
  | cons first selector => rfl

theorem keeps_of_breaks (plain : PlainClass word) (visible : selector ≠ []) (breaks : Breaks sign) (more : List Sign) :
    Keeps word selector (sign :: more) :=
  ⟨settled_append plain visible breaks more, atName?_append visible breaks.noName more⟩

theorem firm_of_breaks (plain : PlainClass word) (visible : selector ≠ []) (breaks : Breaks sign) :
    Firm word (selector ++ [sign]) := by
  refine ⟨by simp, fun more => ?_⟩
  have now := keeps_of_breaks plain visible breaks []
  have later := keeps_of_breaks plain visible breaks more
  constructor
  · rw [List.append_assoc, List.singleton_append, later.settled, now.settled]
  · rw [List.append_assoc, List.singleton_append, later.name, now.name]

end Breaks

section Poised
variable {word : List Char}

/-- Firm as soon as a sign follows that no name goes on with. -/
structure Poised (word : List Char) (selector : List Sign) : Prop where
  visible : selector ≠ []
  firm : ∀ sign, sign.continuesName = false → Firm word (selector ++ [sign])
  keeps : ∀ sign, sign.continuesName = false → Keeps word selector [sign]

theorem Firm.poised {selector : List Sign} (firm : Firm word selector) : Poised word selector :=
  ⟨firm.visible, fun sign _ => firm.append [sign], fun sign _ => firm.keeps [sign]⟩

theorem settled_word (word : List Char) : Settled word (word.map .code) :=
  Or.inr ⟨[], by simp, by simp⟩

theorem poised_word (plain : PlainClass word) : Poised word (word.map .code) := by
  have settled : ∀ (sign : Sign) (more : List Sign), sign.continuesName = false →
      Settled word (word.map .code ++ sign :: more) := by
    intro sign more noName
    exact Or.inr ⟨sign :: more, rfl, by simpa using noName⟩
  obtain ⟨name, rfl, -, -⟩ := plain
  refine ⟨by simp, fun sign noName => ⟨by simp, fun more => ⟨?_, rfl⟩⟩, fun sign noName => ⟨?_, rfl⟩⟩
  · rw [List.append_assoc, List.singleton_append]
    exact iff_of_true (settled sign more noName) (settled sign [] noName)
  · exact iff_of_true (settled sign [] noName) (settled_word _)

end Poised

section Agreement
variable {word : List Char} {first second third : Reading}

/-- The same blocks are open, and up to here the same rules are settled. -/
structure Agrees (word : List Char) (first second : Reading) : Prop where
  blocks : first.blocks = second.blocks
  level : brackets first.current = brackets second.current
  rules : (∀ rule ∈ first.rules, AllSettled word rule) ↔ ∀ rule ∈ second.rules, AllSettled word rule
  prelude : AllSettled word first.selectors ↔ AllSettled word second.selectors
  name : atName? first.start = atName? second.start

theorem Agrees.refl (reading : Reading) : Agrees word reading reading := ⟨rfl, rfl, Iff.rfl, Iff.rfl, rfl⟩

theorem Agrees.symm (agrees : Agrees word first second) : Agrees word second first :=
  ⟨agrees.blocks.symm, agrees.level.symm, agrees.rules.symm, agrees.prelude.symm, agrees.name.symm⟩

theorem Agrees.trans (left : Agrees word first second) (right : Agrees word second third) : Agrees word first third :=
  ⟨left.blocks.trans right.blocks, left.level.trans right.level, left.rules.trans right.rules,
    left.prelude.trans right.prelude, left.name.trans right.name⟩

/-- Both have read the same since the last comma. -/
structure Same (word : List Char) (first second : Reading) : Prop where
  current : first.current = second.current
  earlier : AllSettled word first.earlier ↔ AllSettled word second.earlier
  empty : first.earlier = [] ↔ second.earlier = []

/-- No text that both go on to read brings them apart. -/
structure Alike (word : List Char) (first second : Reading) : Prop where
  agrees : Agrees word first second
  onward : Same word first second ∨ Firm word first.current ∧ Firm word second.current

theorem Alike.symm (alike : Alike word first second) : Alike word second first := by
  refine ⟨alike.agrees.symm, ?_⟩
  rcases alike.onward with same | ⟨left, right⟩
  · exact Or.inl ⟨same.current.symm, same.earlier.symm, same.empty.symm⟩
  · exact Or.inr ⟨right, left⟩

theorem allSettled_append {left right : List (List Sign)} :
    AllSettled word (left ++ right) ↔ AllSettled word left ∧ AllSettled word right := List.forall_mem_append

theorem allSettled_selectors (reading : Reading) :
    AllSettled word reading.selectors ↔
      AllSettled word reading.earlier ∧ (reading.current ≠ [] → Settled word reading.current) := by
  rw [Reading.selectors, allSettled_append]
  simp [AllSettled]

theorem start_of_earlier {reading : Reading} (nonempty : reading.earlier ≠ []) (current : List Sign) :
    ({ reading with current := current } : Reading).start = reading.start := by
  cases earlier : reading.earlier with
  | nil => exact absurd earlier nonempty
  | cons selector more => simp [Reading.start, Reading.selectors, earlier]

theorem start_of_none {reading : Reading} (none : reading.earlier = []) : reading.start = reading.current := by
  simp [Reading.start, Reading.selectors, none]

def nextSelector (reading : Reading) : Reading := { reading with earlier := reading.selectors, current := [] }

theorem nextSelector_prelude (reading : Reading) :
    AllSettled word (nextSelector reading).selectors ↔ AllSettled word reading.selectors := by
  rw [allSettled_selectors]
  simp [nextSelector]

theorem nextSelector_name (reading : Reading) : atName? (nextSelector reading).start = atName? reading.start := by
  cases earlier : reading.earlier <;> simp [nextSelector, Reading.start, Reading.selectors, earlier]

/-- A brace, the end of a statement and a comma between selectors leave nothing to tell
readings apart that agree. -/
theorem Agrees.next_break {sign : Sign} (agrees : Agrees word first second)
    (structural : role (brackets first.current) sign ≠ .text) : Alike word (first.next sign) (second.next sign) := by
  have roles : role (brackets second.current) sign = role (brackets first.current) sign := by rw [agrees.level]
  unfold Reading.next
  rw [roles]
  cases kind : role (brackets first.current) sign with
  | text => exact absurd kind structural
  | opening =>
    have group : opensGroup first.start = opensGroup second.start := by rw [opensGroup, opensGroup, agrees.name]
    refine ⟨⟨by rw [group, agrees.blocks], rfl, ?_, Iff.rfl, rfl⟩, Or.inl ⟨rfl, Iff.rfl, Iff.rfl⟩⟩
    dsimp only
    rw [agrees.blocks, agrees.name]
    split
    · simp only [List.forall_mem_append, List.forall_mem_singleton, agrees.rules, agrees.prelude]
    · exact agrees.rules
  | closing => exact ⟨⟨by rw [agrees.blocks], rfl, agrees.rules, Iff.rfl, rfl⟩, Or.inl ⟨rfl, Iff.rfl, Iff.rfl⟩⟩
  | ending => exact ⟨⟨agrees.blocks, rfl, agrees.rules, Iff.rfl, rfl⟩, Or.inl ⟨rfl, Iff.rfl, Iff.rfl⟩⟩
  | comma =>
    refine ⟨⟨agrees.blocks, rfl, agrees.rules, ?_, ?_⟩, Or.inl ⟨rfl, agrees.prelude, by simp [Reading.selectors]⟩⟩
    · exact (nextSelector_prelude first).trans (agrees.prelude.trans (nextSelector_prelude second).symm)
    · exact (nextSelector_name first).trans (agrees.name.trans (nextSelector_name second).symm)

theorem next_comma {reading : Reading} {sign : Sign} (comma : role (brackets reading.current) sign = .comma) :
    reading.next sign = nextSelector reading := by
  rw [Reading.next, comma]
  rfl

theorem agrees_comma {reading : Reading} (outside : brackets reading.current = []) :
    Agrees word reading (nextSelector reading) :=
  ⟨rfl, outside, Iff.rfl, (nextSelector_prelude reading).symm, (nextSelector_name reading).symm⟩

theorem next_text {reading : Reading} {sign : Sign} (text : role (brackets reading.current) sign = .text)
    (shown : reading.current ≠ [] ∨ sign.blank = false) :
    reading.next sign = { reading with current := reading.current ++ [sign] } := by
  rw [Reading.next, text]
  dsimp only
  rw [if_neg]
  rintro ⟨empty, blank⟩
  rcases shown with visible | visible
  · exact visible empty
  · exact Bool.false_ne_true (visible.symm.trans blank)

theorem next_blank {reading : Reading} {sign : Sign} (text : role (brackets reading.current) sign = .text)
    (empty : reading.current = []) (blank : sign.blank = true) : reading.next sign = reading := by
  rw [Reading.next, text]
  dsimp only
  rw [if_pos ⟨empty, blank⟩, ← empty]

theorem brackets_append (selector more : List Sign) :
    brackets (selector ++ more) = more.foldl bracketsBehind (brackets selector) := List.foldl_append

theorem append_prelude {reading : Reading} {more : List Sign} (visible : reading.current ≠ [])
    (keeps : Keeps word reading.current more) :
    AllSettled word ({ reading with current := reading.current ++ more } : Reading).selectors ↔
      AllSettled word reading.selectors := by
  rw [allSettled_selectors, allSettled_selectors]
  simp [visible, keeps.settled]

theorem append_name {reading : Reading} {more : List Sign} (keeps : Keeps word reading.current more) :
    atName? ({ reading with current := reading.current ++ more } : Reading).start = atName? reading.start := by
  by_cases none : reading.earlier = []
  · have changed : ({ reading with current := reading.current ++ more } : Reading).start = reading.current ++ more :=
      start_of_none none
    rw [changed, start_of_none none]
    exact keeps.name
  · exact congrArg atName? (start_of_earlier none _)

theorem agrees_append {reading : Reading} {more : List Sign} (visible : reading.current ≠ [])
    (keeps : Keeps word reading.current more) (level : brackets (reading.current ++ more) = brackets reading.current) :
    Agrees word reading { reading with current := reading.current ++ more } :=
  ⟨rfl, level.symm, Iff.rfl, (append_prelude visible keeps).symm, (append_name keeps).symm⟩

theorem agrees_start {reading : Reading} {selector : List Sign} (empty : reading.current = [])
    (settled : Settled word selector) (name : atName? selector = none) (level : brackets selector = []) :
    Agrees word reading { reading with current := reading.current ++ selector } := by
  refine ⟨rfl, ?_, Iff.rfl, ?_, ?_⟩
  · rw [empty, List.nil_append, level]
    rfl
  · rw [allSettled_selectors, allSettled_selectors]
    simp [empty, settled]
  · by_cases first : reading.earlier = []
    · have changed : ({ reading with current := reading.current ++ selector } : Reading).start =
          reading.current ++ selector := start_of_none first
      rw [changed, start_of_none first, empty, List.nil_append, name]
      rfl
    · exact congrArg atName? (start_of_earlier first _).symm

theorem Agrees.append {more : List Sign} (agrees : Agrees word first second)
    (visible : first.current ≠ []) (visible' : second.current ≠ [])
    (left : Keeps word first.current more) (right : Keeps word second.current more) :
    Agrees word { first with current := first.current ++ more } { second with current := second.current ++ more } := by
  refine ⟨agrees.blocks, ?_, agrees.rules, ?_, ?_⟩
  · rw [brackets_append, brackets_append, agrees.level]
  · exact (append_prelude visible left).trans (agrees.prelude.trans (append_prelude visible' right).symm)
  · exact (append_name left).trans (agrees.name.trans (append_name right).symm)

theorem Alike.append_same (alike : Alike word first second) (same : Same word first second) (more : List Sign) :
    Alike word { first with current := first.current ++ more } { second with current := second.current ++ more } := by
  refine ⟨⟨alike.agrees.blocks, by rw [same.current], alike.agrees.rules, ?_, ?_⟩,
    Or.inl ⟨by rw [same.current], same.earlier, same.empty⟩⟩
  · rw [allSettled_selectors, allSettled_selectors, same.earlier, same.current]
  · by_cases none : first.earlier = []
    · have left : ({ first with current := first.current ++ more } : Reading).start = first.current ++ more :=
        start_of_none none
      have right : ({ second with current := second.current ++ more } : Reading).start = second.current ++ more :=
        start_of_none (same.empty.mp none)
      rw [left, right, same.current]
    · have left := start_of_earlier none (first.current ++ more)
      have right := start_of_earlier (fun empty => none (same.empty.mpr empty)) (second.current ++ more)
      exact (congrArg atName? left).trans (alike.agrees.name.trans (congrArg atName? right).symm)

theorem Alike.next_text (alike : Alike word first second) {sign : Sign}
    (text : role (brackets first.current) sign = .text) : Alike word (first.next sign) (second.next sign) := by
  have text' : role (brackets second.current) sign = .text := by rw [← alike.agrees.level, text]
  rcases alike.onward with same | ⟨left, right⟩
  · by_cases dropped : first.current = [] ∧ sign.blank = true
    · have dropped' : second.current = [] := same.current ▸ dropped.1
      rw [next_blank text dropped.1 dropped.2, next_blank text' dropped' dropped.2]
      exact alike
    · have shown : first.current ≠ [] ∨ sign.blank = false := by
        rw [← Bool.not_eq_true]
        exact Classical.not_and_iff_not_or_not.mp dropped
      have shown' : second.current ≠ [] ∨ sign.blank = false := same.current ▸ shown
      rw [PreludeReading.next_text text shown, PreludeReading.next_text text' shown']
      exact alike.append_same same [sign]
  · rw [PreludeReading.next_text text (Or.inl left.visible), PreludeReading.next_text text' (Or.inl right.visible)]
    exact ⟨alike.agrees.append left.visible right.visible (left.keeps _) (right.keeps _),
      Or.inr ⟨left.append _, right.append _⟩⟩

/-- Signs go to both readings alike, or to selectors that they cannot change. -/
theorem Alike.next (alike : Alike word first second) (sign : Sign) : Alike word (first.next sign) (second.next sign) := by
  by_cases text : role (brackets first.current) sign = .text
  · exact alike.next_text text
  · exact alike.agrees.next_break text

theorem Alike.signs (alike : Alike word first second) (more : List Sign) :
    Alike word (more.foldl Reading.next first) (more.foldl Reading.next second) := by
  induction more generalizing first second with
  | nil => exact alike
  | cons sign more ih => exact ih (alike.next sign)

theorem Agrees.next_poised {sign : Sign} (agrees : Agrees word first second) (left : Poised word first.current)
    (right : Poised word second.current) (noName : sign.continuesName = false) :
    Alike word (first.next sign) (second.next sign) := by
  by_cases text : role (brackets first.current) sign = .text
  · have text' : role (brackets second.current) sign = .text := by rw [← agrees.level, text]
    rw [next_text text (Or.inl left.visible), next_text text' (Or.inl right.visible)]
    exact ⟨agrees.append left.visible right.visible (left.keeps sign noName) (right.keeps sign noName),
      Or.inr ⟨left.firm sign noName, right.firm sign noName⟩⟩
  · exact agrees.next_break text

end Agreement

end VideoPage.Proofs.PreludeReading
