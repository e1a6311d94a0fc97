import VideoPage.Command.ScopeFile
import VideoPage.Proofs.ScopingIdempotence
import VideoPage.Proofs.SheetPositions
import VideoPage.Proofs.WrittenFiles

/-! Stylesheet files under a scope, whatever reads the arguments of the command. A run leaves every
file as it was unless the whole sheet can be scoped, and then it changes the one file that it is told
to write. Runs in place with one scope change nothing after the first of them, as long as no other
scope comes between. -/

namespace VideoPage.Proofs.ScopedFiles
open Stylesheet Selector TextBlanks SelectorLists LineRuns SheetPositions ScopingIdempotence WrittenFiles

/-- A scope of letters, digits, dots, hyphens and underscores. -/
def SimpleScope (scope : String) : Prop := scope ≠ "" ∧ ∀ c ∈ scope.toList, c.isAlphanum = true ∨ c ∈ ['.', '-', '_']

def scopeOf (arguments : ScopeArguments) : String := arguments.scope.getD Stylesheet.defaultScope

/-- The file that a run writes. -/
def outputOf (arguments : ScopeArguments) : String := arguments.output.getD arguments.input

section Commands
variable (parse : ScopeReader)

/-- How a run of the command ends, and the disk that it leaves. -/
def ended (disk : Disk) (arguments : List String) : CommandOutcome × Disk :=
  ScopeFile.runWith parse Disk.access arguments disk

/-- The disk after one run after the other. -/
def ranAll (disk : Disk) (runs : List (List String)) : Disk :=
  runs.foldl (fun disk arguments => (ended parse disk arguments).2) disk

/-- What a run does to a disk. -/
inductive Ended (disk : Disk) (arguments : List String) (outcome : CommandOutcome) (after : Disk) : Prop
  | failed (fails : outcome.code ≠ 0) (same : after = disk)
  | shown {text : String} (succeeds : outcome.code = 0) (asked : parse arguments = .error (.shown text)) (same : after = disk)
  | rewritten {read : ScopeArguments} {css result : String} (succeeds : outcome.code = 0)
      (asked : parse arguments = .ok read) (input : disk.read read.input = .ok css)
      (done : Stylesheet.scope (scopeOf read) css = .ok result) (written : disk.write (outputOf read) result = .ok after)

/-- A run that puts the file at a place under a scope, in place. -/
def InPlace (disk : Disk) (arguments : List String) (scope : String) (place : FilePlace) : Prop :=
  ∃ read, parse arguments = .ok read ∧ scopeOf read = scope ∧ Names disk read.input place ∧
    Names disk (outputOf read) place

/-- Runs of which none writes the file at a place under another scope. Runs that fail write nothing. -/
def Spare (scope : String) (place : FilePlace) : Disk → List (List String) → Prop
  | _, [] => True
  | disk, arguments :: rest =>
    ((ended parse disk arguments).1.code = 0 → ∀ read, parse arguments = .ok read →
      Names disk (outputOf read) place → scopeOf read = scope) ∧ Spare scope place (ended parse disk arguments).2 rest

end Commands

/-- A file that the scope leaves as it is. -/
structure Settled (disk : Disk) (scope : String) (place : FilePlace) : Prop where
  file : disk.isDirectory place = false
  text : ∃ css, disk.files.lookup place = some (.text css) ∧ Stylesheet.scope scope css = .ok css

section Scopes

variable {scope css result : String}

theorem SimpleScope.letter (simple : SimpleScope scope) {c : Char} (member : c ∈ scope.toList) :
    c = '.' ∨ continuesName c = true := by
  have letter := simple.2 c member
  simp only [List.mem_cons, List.not_mem_nil, or_false] at letter
  simp only [continuesName, Bool.or_eq_true, decide_eq_true_eq]
  tauto

theorem SimpleScope.solid (simple : SimpleScope scope) : Solid scope.toList := by
  have nonempty : scope.toList ≠ [] := fun empty => simple.1 (String.toList_eq_nil_iff.mp empty)
  have visible : ∀ c ∈ scope.toList, Text.isBlank c = false := by
    intro c member
    rw [← Bool.not_eq_true]
    intro blank
    rcases simple.letter member with rfl | name
    · cases blank
    · rw [continuesName_of_isBlank blank] at name
      cases name
  constructor
  · obtain ⟨first, rest, shape⟩ := List.exists_cons_of_ne_nil nonempty
    exact ⟨first, rest, shape, visible first (shape ▸ List.mem_cons_self)⟩
  · obtain ⟨init, last, shape⟩ := (List.eq_nil_or_concat scope.toList).resolve_left nonempty
    rw [List.concat_eq_append] at shape
    exact ⟨init, last, shape, visible last (shape ▸ List.mem_append_right _ List.mem_cons_self)⟩

theorem SimpleScope.name (simple : SimpleScope scope) : SelectorScope scope.toList where
  nonempty empty := simple.1 (String.toList_eq_nil_iff.mp empty)
  trimmed := simple.solid.trim_eq
  harmless := by
    intro c member special
    have other : ∀ c ∈ [',', '{', '}', '"', '\'', '/', '*', '\\', '\n'], ¬ (c = '.' ∨ continuesName c = true) := by
      simp [continuesName]
    exact other c special (simple.letter member)
  notAtRule starts := absurd (simple.letter (List.mem_of_mem_head? starts)) (by decide)

/-- A scoped sheet is the same line by line when it is scoped again. -/
theorem scope_result (name : SelectorScope scope.toList) (done : Stylesheet.scope scope css = .ok result) :
    Stylesheet.scope scope result = .ok result := by
  have lines := linesOf_of_ok name.noBreak done
  obtain ⟨again, -⟩ := scopeLines_scopeLines name 1 {} (fun line member => (splitOn_parts member).1) lines
  exact scope_ok_iff.mpr ⟨linesOf result, again, (List.intercalate_splitOn '\n').symm⟩

end Scopes

section Runs

variable {parse : ScopeReader} {disk after : Disk} {arguments : List String} {read : ScopeArguments}
  {scope css result : String} {place : FilePlace}

/-- The file is read, then the sheet is scoped, and only then the result is written. -/
theorem scopeFile_eq : ScopeFile.scopeFile Disk.access read disk =
    match disk.read read.input with
    | .error error => (.failed ("failed to read " ++ read.input) error.message "", disk)
    | .ok css =>
      match Stylesheet.scope (scopeOf read) css with
      | .error error => (.failed ("failed to scope " ++ read.input) error.message "", disk)
      | .ok result =>
        match disk.write (outputOf read) result with
        | .error error => (.failed ("failed to write " ++ outputOf read) error.message "", disk)
        | .ok after => ({ errors := "scoped " ++ outputOf read ++ " under " ++ scopeOf read ++ "\n" }, after) := by
  simp only [ScopeFile.scopeFile, Disk.access, scopeOf, outputOf, bind, StateT.bind]
  cases disk.read read.input with
  | error error => rfl
  | ok css =>
    cases sheet : Stylesheet.scope (read.scope.getD Stylesheet.defaultScope) css with
    | error error => simp only [sheet]; rfl
    | ok result =>
      simp only [sheet]
      cases written : disk.write (read.output.getD read.input) result <;> simp only [StateT.bind, written] <;> rfl

theorem run_ended (parse : ScopeReader) (disk : Disk) (arguments : List String) :
    Ended parse disk arguments (ended parse disk arguments).1 (ended parse disk arguments).2 := by
  rw [ended, ScopeFile.runWith]
  cases asked : parse arguments with
  | error stop =>
    cases stop with
    | refused => exact .failed (Nat.succ_ne_zero 1) rfl
    | shown text => exact .shown rfl asked rfl
  | ok read =>
    simp only [scopeFile_eq]
    split
    · exact .failed Nat.one_ne_zero rfl
    · next css input =>
      split
      · exact .failed Nat.one_ne_zero rfl
      · next result done =>
        split
        · exact .failed Nat.one_ne_zero rfl
        · next after written => exact .rewritten rfl asked input done written

theorem ended_alike (parse : ScopeReader) (disk : Disk) (arguments : List String) : Alike disk (ended parse disk arguments).2 := by
  cases run_ended parse disk arguments with
  | failed _ same | shown _ _ same =>
    rw [same]
    exact Alike.refl disk
  | rewritten _ _ _ _ written =>
    obtain ⟨place, names, -, same⟩ := write_ok_iff.mp written
    rw [same]
    exact alike_put (reachable_resolve names.leads)

/-- A file that is settled is read, scoped and written as it is. -/
theorem ended_settled (inPlace : InPlace parse disk arguments scope place) (settled : Settled disk scope place) :
    (ended parse disk arguments).1.code = 0 ∧ (ended parse disk arguments).2 = disk := by
  obtain ⟨read, asked, rfl, input, output⟩ := inPlace
  obtain ⟨file, css, there, same⟩ := settled
  have reads : disk.read read.input = .ok css := read_ok_iff.mpr ⟨place, input, file, there⟩
  have written : disk.write (outputOf read) css = .ok disk :=
    write_ok_iff.mpr ⟨place, output, file, by rw [put_same there]⟩
  simp only [ended, ScopeFile.runWith, asked, scopeFile_eq, reads, same, written, and_self]

/-- A file that a run writes under a scope is settled, from wherever its text comes. -/
theorem settled_written (name : SelectorScope (scopeOf read).toList) (done : Stylesheet.scope (scopeOf read) css = .ok result)
    (written : disk.write (outputOf read) result = .ok after) (output : Names disk (outputOf read) place) :
    Settled after (scopeOf read) place := by
  obtain ⟨there, names, file, same⟩ := write_ok_iff.mp written
  obtain rfl := names.unique output
  subst same
  refine ⟨((alike_put (reachable_resolve names.leads)).directories there).trans file, result, ?_, scope_result name done⟩
  exact lookup_put.trans (if_pos rfl)

theorem settled_first (name : SelectorScope scope.toList) (inPlace : InPlace parse disk arguments scope place)
    (succeeds : (ended parse disk arguments).1.code = 0) : Settled (ended parse disk arguments).2 scope place := by
  obtain ⟨read, asked, rfl, -, output⟩ := inPlace
  cases run_ended parse disk arguments with
  | failed fails => exact absurd succeeds fails
  | shown _ other => cases asked.symm.trans other
  | rewritten _ asked' _ done written =>
    cases asked.symm.trans asked'
    exact settled_written name done written output

theorem settled_ended (name : SelectorScope scope.toList) (settled : Settled disk scope place)
    (spares : (ended parse disk arguments).1.code = 0 → ∀ read, parse arguments = .ok read →
      Names disk (outputOf read) place → scopeOf read = scope) :
    Settled (ended parse disk arguments).2 scope place := by
  cases run_ended parse disk arguments with
  | failed _ same | shown _ _ same => rwa [same]
  | rewritten succeeds asked _ done written =>
    obtain ⟨there, names, -, after⟩ := write_ok_iff.mp written
    -- Paths may differ and name the same file, so the cases are those of the place.
    by_cases here : there = place
    · subst here
      obtain rfl := spares succeeds _ asked names
      exact settled_written name done written names
    · obtain ⟨file, css, text, same⟩ := settled
      refine ⟨((ended_alike parse disk arguments).directories place).trans file, css, ?_, same⟩
      rw [after]
      exact (lookup_put.trans (if_neg fun also => here also.symm)).trans text

theorem settled_ranAll {runs : List (List String)} (name : SelectorScope scope.toList) (settled : Settled disk scope place)
    (spare : Spare parse scope place disk runs) : Settled (ranAll parse disk runs) scope place := by
  induction runs generalizing disk with
  | nil => exact settled
  | cons arguments runs ih => exact ih (settled_ended name settled spare.1) spare.2

end Runs

/-- A run that fails leaves the disk as it was. A run that succeeds changes one file at most, the output,
into the scoped sheet of the input as it was before. Once a file has been scoped in place, it stays as
it is when it is scoped in place again, unless it has been written under another scope meanwhile. -/
theorem runs_safe (parse : ScopeReader) (disk : Disk) (earlier : List (List String)) :
    let before := ranAll parse disk earlier
    (∀ arguments, (ended parse before arguments).1.code ≠ 0 → (ended parse before arguments).2 = before) ∧
    (∀ arguments, (ended parse before arguments).1.code = 0 → let after := (ended parse before arguments).2
      (∃ text, parse arguments = .error (.shown text)) ∧ after = before ∨
        ∃ read css result place, parse arguments = .ok read ∧ before.read read.input = .ok css ∧
          Stylesheet.scope (scopeOf read) css = .ok result ∧ Names before (outputOf read) place ∧
          after.read (outputOf read) = .ok result ∧ after.files.lookup place = some (.text result) ∧
          ∀ other, other ≠ place → after.files.lookup other = before.files.lookup other) ∧
    ∀ scope place first between last, SimpleScope scope →
      InPlace parse before first scope place → (ended parse before first).1.code = 0 →
      Spare parse scope place (ended parse before first).2 between → let after := ranAll parse before (first :: between)
      InPlace parse after last scope place → (ended parse after last).1.code = 0 ∧ (ended parse after last).2 = after := by
  intro before
  refine ⟨?_, ?_, ?_⟩
  · intro arguments fails
    cases run_ended parse before arguments with
    | failed _ same | shown _ _ same => exact same
    | rewritten succeeds => exact absurd succeeds fails
  · intro arguments succeeds after
    cases run_ended parse before arguments with
    | failed fails => exact absurd succeeds fails
    | @shown text _ asked same => exact .inl ⟨⟨text, asked⟩, same⟩
    | @rewritten read css result _ asked input done written =>
      obtain ⟨place, names, file, same⟩ : ∃ place, _ ∧ _ ∧ after = _ := write_ok_iff.mp written
      have alike := ended_alike parse before arguments
      have there : after.files.lookup place = some (.text result) := by
        rw [same]
        exact lookup_put.trans (if_pos rfl)
      refine .inr ⟨read, css, result, place, asked, input, done, names, ?_, there, ?_⟩
      · exact read_ok_iff.mpr ⟨place, alike.names.mpr names, (alike.directories place).trans file, there⟩
      · intro other apart
        rw [same]
        exact lookup_put.trans (if_neg apart)
  · intro scope place first between last simple begins succeeds spare after again
    have settled := settled_first simple.name begins succeeds
    have still := settled_ranAll simple.name settled spare
    exact ended_settled again still

/-- A sheet, and a brace too many. -/
def twoSheets : Disk := .holding [(["a.css"], .text ".a \x7b\n\x7d"), (["b.css"], .text "\x7d")]

def sheetPlace : FilePlace := ["tmp", "work", "a.css"]

/-- The brace is not scoped. The sheet is scoped once, also by another path, and a copy of it goes under another scope. -/
theorem runs_safe_two_sheets :
    let copied := ranAll ScopeArguments.read twoSheets [["a.css", "--scope", ".x"], ["--scope=.y", "a.css", "-o", "c.css"]]
    (ended ScopeArguments.read twoSheets ["b.css"]).1.code ≠ 0 ∧ (ended ScopeArguments.read twoSheets ["b.css"]).2 = twoSheets ∧
      (ended ScopeArguments.read twoSheets ["a.css", "--scope", ".x"]).1.code = 0 ∧
      (ended ScopeArguments.read copied ["./a.css", "--scope=.x"]).1.code = 0 ∧
      (ended ScopeArguments.read copied ["./a.css", "--scope=.x"]).2 = copied := by
  obtain ⟨failed, -, again⟩ := runs_safe ScopeArguments.read twoSheets []
  have refused : (ended ScopeArguments.read twoSheets ["b.css"]).1.code ≠ 0 := by decide +kernel
  have done : (ended ScopeArguments.read twoSheets ["a.css", "--scope", ".x"]).1.code = 0 := by decide +kernel
  have simple : SimpleScope ".x" := ⟨by decide, by simp⟩
  have begins : InPlace ScopeArguments.read twoSheets ["a.css", "--scope", ".x"] ".x" sheetPlace := by
    refine ⟨⟨"a.css", none, some ".x"⟩, ?_, rfl, ⟨?_, ?_⟩, ⟨?_, ?_⟩⟩ <;> decide +kernel
  have spare : Spare ScopeArguments.read ".x" sheetPlace (ended ScopeArguments.read twoSheets ["a.css", "--scope", ".x"]).2
      [["--scope=.y", "a.css", "-o", "c.css"]] := by
    refine ⟨fun _ read asked output => ?_, trivial⟩
    have own : ScopeArguments.read ["--scope=.y", "a.css", "-o", "c.css"] = .ok ⟨"a.css", some "c.css", some ".y"⟩ := by
      decide +kernel
    cases own.symm.trans asked
    have other : Names (ended ScopeArguments.read twoSheets ["a.css", "--scope", ".x"]).2 "c.css" ["tmp", "work", "c.css"] := by
      constructor <;> decide +kernel
    exact absurd (output.unique other) (by decide)
  have also : InPlace ScopeArguments.read
      (ranAll ScopeArguments.read twoSheets [["a.css", "--scope", ".x"], ["--scope=.y", "a.css", "-o", "c.css"]])
      ["./a.css", "--scope=.x"] ".x" sheetPlace := by
    refine ⟨⟨"./a.css", none, some ".x"⟩, ?_, rfl, ⟨?_, ?_⟩, ⟨?_, ?_⟩⟩ <;> decide +kernel
  obtain ⟨succeeds, same⟩ := again ".x" sheetPlace _ _ _ simple begins done spare also
  exact ⟨refused, failed _ refused, done, succeeds, same⟩

/-- A sheet that has gone under one scope and then under another goes under the first once more. -/
theorem runs_between_change :
    let under (scope : String) := ["--scope", scope, "a.css"]
    let after := ranAll ScopeArguments.read twoSheets [under ".x", under ".y"]
    SimpleScope ".x" ∧ InPlace ScopeArguments.read twoSheets (under ".x") ".x" sheetPlace ∧
      (ended ScopeArguments.read twoSheets (under ".x")).1.code = 0 ∧
      InPlace ScopeArguments.read after (under ".x") ".x" sheetPlace ∧
      after.read "a.css" = .ok ".y .x .a \x7b\n\x7d" ∧
      (ended ScopeArguments.read after (under ".x")).2.read "a.css" = .ok ".x .y .x .a \x7b\n\x7d" := by
  refine ⟨⟨by decide, by simp⟩, ⟨⟨"a.css", none, some ".x"⟩, ?_, rfl, ⟨?_, ?_⟩, ⟨?_, ?_⟩⟩, ?_,
    ⟨⟨"a.css", none, some ".x"⟩, ?_, rfl, ⟨?_, ?_⟩, ⟨?_, ?_⟩⟩, ?_, ?_⟩ <;> decide +kernel

end VideoPage.Proofs.ScopedFiles
