import Mathlib.Data.List.Basic
import VideoPage.Command.Disk

/-! Files on a disk. Writing a file changes what stands at its place and nothing else. The other
files stay, no directory comes or goes, and every path leads where it led before. -/

namespace VideoPage.Proofs.WrittenFiles

section Contents

variable {files : Files} {place other : FilePlace} {contents : FileContents}

theorem lookup_cons : List.lookup other ((place, contents) :: files) = if other = place then some contents else files.lookup other := by
  rw [List.lookup_cons]
  by_cases same : other = place
  · rw [if_pos same, beq_iff_eq.mpr same]
  · rw [if_neg same, beq_false_of_ne same]

theorem lookup_put : (files.put place contents).lookup other = if other = place then some contents else files.lookup other := by
  induction files with
  | nil => exact lookup_cons
  | cons file rest ih =>
    obtain ⟨first, old⟩ := file
    rw [Files.put, lookup_cons]
    by_cases here : first = place
    · subst here
      rw [if_pos rfl, lookup_cons]
      split <;> rfl
    · rw [if_neg here, lookup_cons, ih]
      by_cases same : other = first
      · have apart : other ≠ place := fun also => here (same.symm.trans also)
        rw [if_pos same, if_neg apart, if_pos same]
      · rw [if_neg same, if_neg same]

theorem put_same (there : files.lookup place = some contents) : files.put place contents = files := by
  induction files with
  | nil => cases there
  | cons file rest ih =>
    obtain ⟨first, old⟩ := file
    rw [lookup_cons] at there
    rw [Files.put]
    by_cases here : first = place
    · rw [if_pos here.symm] at there
      rw [if_pos here, ← Option.some.inj there, here]
    · rw [if_neg fun same => here same.symm] at there
      rw [if_neg here, ih there]

theorem mem_put : other ∈ (files.put place contents).map Prod.fst ↔ other = place ∨ other ∈ files.map Prod.fst := by
  induction files with
  | nil => simp [Files.put]
  | cons file rest ih =>
    obtain ⟨first, old⟩ := file
    rw [Files.put]
    by_cases here : first = place
    · subst here
      simp
    · rw [if_neg here, List.map_cons, List.mem_cons, ih, List.map_cons, List.mem_cons]
      exact or_left_comm

end Contents

section Directories

variable {disk : Disk} {place other above next : FilePlace} {name : String}

theorem isDirectory_iff : disk.isDirectory place = true ↔
    place <+: disk.here ∨ ∃ other ∈ disk.files.map Prod.fst, place <+: other ∧ place ≠ other := by
  simp [Disk.isDirectory]

/-- What is on the way to a directory is one. -/
theorem isDirectory_above (directory : disk.isDirectory place = true) (start : above <+: place) :
    disk.isDirectory above = true := by
  rw [isDirectory_iff] at directory ⊢
  rcases directory with way | ⟨other, member, way, apart⟩
  · exact .inl (start.trans way)
  · refine .inr ⟨other, member, start.trans way, ?_⟩
    rintro rfl
    exact apart (way.eq_of_length_le start.length_le)

theorem enter_ok_iff : disk.enter place name = .ok next ↔ disk.isDirectory place = true ∧
    next = if name = "." then place else if name = ".." then place.dropLast else place ++ [name] := by
  rw [Disk.enter]
  cases disk.isDirectory place with
  | false => simp
  | true =>
    simp only [Bool.not_true, Bool.false_eq_true, if_false, true_and]
    split
    · exact ⟨fun same => (Except.ok.inj same).symm, fun same => congrArg _ same.symm⟩
    · split
      · exact ⟨fun same => (Except.ok.inj same).symm, fun same => congrArg _ same.symm⟩
      · exact ⟨fun same => (Except.ok.inj same).symm, fun same => congrArg _ same.symm⟩

/-- A place that can be gone to. -/
def Reachable (disk : Disk) (place : FilePlace) : Prop :=
  disk.isDirectory place = true ∨ ∃ above name, place = above ++ [name] ∧ disk.isDirectory above = true

theorem reachable_enter (entered : disk.enter place name = .ok next) : Reachable disk next := by
  obtain ⟨directory, rfl⟩ := enter_ok_iff.mp entered
  split
  · exact .inl directory
  · split
    · exact .inl (isDirectory_above directory (List.dropLast_prefix place))
    · exact .inr ⟨place, name, rfl, directory⟩

theorem names_cons {names : List String} : (name :: names).foldlM disk.enter above = .ok place ↔
    ∃ next, disk.enter above name = .ok next ∧ names.foldlM disk.enter next = .ok place := by
  rw [List.foldlM_cons]
  cases disk.enter above name <;> simp [bind, Except.bind]

theorem reachable_names {names : List String} (begins : Reachable disk above)
    (leads : names.foldlM disk.enter above = .ok place) : Reachable disk place := by
  induction names generalizing above with
  | nil =>
    cases leads
    exact begins
  | cons name names ih =>
    obtain ⟨next, entered, later⟩ := names_cons.mp leads
    exact ih (reachable_enter entered) later

theorem reachable_resolve {path : String} (leads : disk.resolve path = .ok place) : Reachable disk place := by
  rw [Disk.resolve] at leads
  split at leads
  · cases leads
  · apply reachable_names _ leads
    left
    rw [isDirectory_iff, Disk.start]
    left
    split
    · exact List.nil_prefix
    · exact List.prefix_rfl

end Directories

/-- Disks on which the same places are directories. -/
structure Alike (disk other : Disk) : Prop where
  here : other.here = disk.here
  directories : ∀ place, other.isDirectory place = disk.isDirectory place

/-- A path that names the file at a place. -/
structure Names (disk : Disk) (path : String) (place : FilePlace) : Prop where
  leads : disk.resolve path = .ok place
  file : Disk.asksForDirectory path = false

section Paths

variable {disk other after : Disk} {place above : FilePlace} {path text : String} {contents : FileContents}

theorem Alike.refl (disk : Disk) : Alike disk disk := ⟨rfl, fun _ => rfl⟩

theorem Alike.names_iff (alike : Alike disk other) {names : List String} :
    names.foldlM other.enter above = .ok place ↔ names.foldlM disk.enter above = .ok place := by
  have enter_iff (above next : FilePlace) (name : String) : other.enter above name = .ok next ↔ disk.enter above name = .ok next := by
    rw [enter_ok_iff, enter_ok_iff, alike.directories]
  induction names generalizing above with
  | nil => rfl
  | cons name names ih => simp only [names_cons, enter_iff, ih]

theorem Alike.resolve_iff (alike : Alike disk other) : other.resolve path = .ok place ↔ disk.resolve path = .ok place := by
  rw [Disk.resolve, Disk.resolve, Disk.start, Disk.start, alike.here]
  split
  · exact Iff.rfl
  · exact alike.names_iff

theorem Alike.names (alike : Alike disk other) : Names other path place ↔ Names disk path place :=
  ⟨fun names => ⟨alike.resolve_iff.mp names.leads, names.file⟩, fun names => ⟨alike.resolve_iff.mpr names.leads, names.file⟩⟩

theorem Names.unique {also : FilePlace} (names : Names disk path place) (other : Names disk path also) : place = also :=
  Except.ok.inj (names.leads.symm.trans other.leads)

/-- A new file makes no directory where none was. -/
theorem alike_put (reachable : Reachable disk place) : Alike disk { disk with files := disk.files.put place contents } where
  here := rfl
  directories other := by
    rw [Bool.eq_iff_iff, isDirectory_iff, isDirectory_iff]
    constructor
    · rintro (way | ⟨file, member, way, apart⟩)
      · exact .inl way
      · rcases mem_put.mp member with rfl | member
        · -- What is on the way to the new file was a directory before.
          rw [← isDirectory_iff]
          rcases reachable with directory | ⟨above, name, rfl, directory⟩
          · exact isDirectory_above directory way
          · exact isDirectory_above directory ((List.prefix_concat_iff.mp way).resolve_left apart)
        · exact .inr ⟨file, member, way, apart⟩
    · rintro (way | ⟨file, member, way, apart⟩)
      · exact .inl way
      · exact .inr ⟨file, mem_put.mpr (.inr member), way, apart⟩

theorem read_ok_iff : disk.read path = .ok text ↔ ∃ place, Names disk path place ∧ disk.isDirectory place = false ∧
    disk.files.lookup place = some (.text text) := by
  constructor
  · intro read
    rw [Disk.read] at read
    split at read
    · cases read
    · next place leads =>
      split at read
      · cases read
      · next directory =>
        split at read
        · cases read
        · next contents there =>
          split at read
          · cases read
          · next file =>
            split at read
            · cases read
              exact ⟨place, ⟨leads, by simpa using file⟩, by simpa using directory, there⟩
            · cases read
  · rintro ⟨place, names, directory, there⟩
    simp [Disk.read, names.leads, directory, there, names.file]

theorem write_ok_iff : disk.write path text = .ok after ↔ ∃ place, Names disk path place ∧ disk.isDirectory place = false ∧
    after = { disk with files := disk.files.put place (.text text) } := by
  constructor
  · intro written
    rw [Disk.write] at written
    split at written
    · cases written
    · next place leads =>
      split at written
      · cases written
      · next free =>
        obtain ⟨file, directory⟩ : Disk.asksForDirectory path = false ∧ disk.isDirectory place = false := by simpa using free
        exact ⟨place, ⟨leads, file⟩, directory, (Except.ok.inj written).symm⟩
  · rintro ⟨place, names, directory, rfl⟩
    simp [Disk.write, names.leads, directory, names.file]

end Paths

end VideoPage.Proofs.WrittenFiles
