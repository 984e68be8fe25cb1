import OpenKernel.Files.Vfs
import OpenKernel.Lib.Runs

/-!
# Lookup against listing

`open` finds a file by its path, `directory_entry` lists the files of a
directory.  The two go through different functions of the storage.  This
module follows the file system through registrations, creations and writes
and says for which paths the two agree (`lookup_agrees`).

They part on the paths of the root directory: the `open` of the storage, which
serves the root mount, falls back to the RAM files, and these are listed in
`/tmp` only.
-/

namespace OpenKernel

open Lib

/-- What changes the file system. -/
inductive FilesAction
  | registerBootFile (name data : Bytes)
  | openFile (path : Bytes) (writable create : Bool)
  | writeAt (path : Bytes) (offset : Nat) (data : Bytes)

namespace Files

/-- The state after a call, which is the old one when the call fails. -/
def after (f : Files) : Except VfsError Files → Files
  | .ok f' => f'
  | .error _ => f

def perform (f : Files) : FilesAction → Files
  | .registerBootFile name data =>
    { f with toStorage := (f.toStorage.registerBootFile name data).2 }
  | .openFile path writable create =>
    f.after (f.vfsOpenFile path writable create)
  | .writeAt path offset data => f.after (f.vfsWriteAt path offset data)

/-- One step of the file system.  Every call returns. -/
def step (f : Files) (a : FilesAction) : Option Files := some (f.perform a)

/-- Boot files have names without a slash. -/
def SlashFree (_ : Files) : FilesAction → Prop
  | .registerBootFile name _ => slash ∉ name
  | .openFile _ _ _ | .writeAt _ _ _ => True

instance (f : Files) : DecidablePred f.SlashFree
  | .registerBootFile name _ => inferInstanceAs (Decidable (slash ∉ name))
  | .openFile _ _ _ | .writeAt _ _ _ => inferInstanceAs (Decidable True)

/-! ## What the operations keep -/

/-- The initramfs is mounted and the names of the files are those of
directory entries. -/
structure WellFormed (f : Files) : Prop where
  mount : f.Mounted
  boot : ∀ name, f.HasBootFile name → slash ∉ name
  ram : ∀ slot, (f.ramFiles slot).used = true →
    (f.ramFiles slot).name ≠ [] ∧ slash ∉ (f.ramFiles slot).name

/-- `open_file` leaves the state or creates one file, whose name has no
slash. -/
theorem vfsOpenFile_spec {f f' : Files} {path : Bytes} {writable create : Bool}
    (h : f.vfsOpenFile path writable create = .ok f') :
    f' = f ∨
      ∃ name s, name ≠ [] ∧ slash ∉ name ∧ path = tmpPrefix ++ name ∧
        f.toStorage.create name = .ok s ∧ f' = { f with toStorage := s } := by
  unfold vfsOpenFile at h
  split at h
  · cases h
  · split at h
    · rename_i name hname
      rw [List.isPrefixOf?_eq_some_iff_append_eq] at hname
      split at h
      · cases h
      · rename_i hvalid
        rw [not_or] at hvalid
        split at h
        · exact Or.inl (Except.ok.inj h).symm
        · split at h
          · split at h
            · rename_i s hcreate
              exact Or.inr ⟨name, s, hvalid.1, hvalid.2, hname.symm, hcreate,
                (Except.ok.inj h).symm⟩
            · cases h
          · cases h
    · split at h
      · cases h
      · split at h
        · exact Or.inl (Except.ok.inj h).symm
        · cases h

/-- `write_at` stores into one file. -/
theorem vfsWriteAt_spec {f f' : Files} {path data : Bytes} {offset : Nat}
    (h : f.vfsWriteAt path offset data = .ok f') :
    ∃ name s, path = tmpPrefix ++ name ∧
      f.toStorage.writeAt name offset data = .ok s ∧
      f' = { f with toStorage := s } := by
  unfold vfsWriteAt at h
  split at h
  · cases h
  · rename_i name hname
    rw [List.isPrefixOf?_eq_some_iff_append_eq] at hname
    split at h
    · rename_i s hwrite
      exact ⟨name, s, hname.symm, hwrite, (Except.ok.inj h).symm⟩
    · cases h

theorem WellFormed.create {f : Files} {name : Bytes} {s : Storage}
    (h : f.WellFormed) (hne : name ≠ []) (hslash : slash ∉ name)
    (hcreate : f.toStorage.create name = .ok s) :
    WellFormed { f with toStorage := s } := by
  obtain ⟨slot, valid, hvalid, -, -, rfl⟩ := Storage.create_spec hcreate
  refine ⟨h.mount, h.boot, fun slot' hused => ?_⟩
  by_cases hslot : slot' = slot
  · subst hslot
    simp only [put_same] at hused ⊢
    rw [Storage.validateName_eq_ok hvalid]
    exact ⟨hne, hslash⟩
  · simp only [put_other hslot] at hused ⊢
    exact h.ram slot' hused

theorem WellFormed.writeAt {f : Files} {name data : Bytes} {offset : Nat}
    {s : Storage} (h : f.WellFormed)
    (hwrite : f.toStorage.writeAt name offset data = .ok s) :
    WellFormed { f with toStorage := s } := by
  obtain ⟨slot, hfits, hfind, rfl⟩ := Storage.writeAt_spec hwrite
  refine ⟨h.mount, h.boot, fun slot' hused => ?_⟩
  by_cases hslot : slot' = slot
  · subst hslot
    simp only [put_same, Storage.storeAt] at hused ⊢
    exact h.ram slot' hused
  · simp only [put_other hslot] at hused ⊢
    exact h.ram slot' hused

theorem WellFormed.registerBootFile {f : Files} {name data : Bytes}
    (h : f.WellFormed) (hname : slash ∉ name) :
    WellFormed
      { f with toStorage := (f.toStorage.registerBootFile name data).2 } := by
  unfold Storage.registerBootFile
  split
  · exact h
  · refine ⟨h.mount, ?_, h.ram⟩
    rintro name' ⟨file, hfile, rfl⟩
    rcases List.mem_append.mp hfile with hold | hnew
    · exact h.boot file.name ⟨file, hold, rfl⟩
    · rw [List.mem_singleton.mp hnew]
      exact hname

theorem WellFormed.step {f g : Files} {a : FilesAction} (h : f.WellFormed)
    (hname : f.SlashFree a) (hstep : f.step a = some g) : g.WellFormed := by
  obtain rfl := Option.some.inj hstep
  cases a with
  | registerBootFile name data => exact h.registerBootFile hname
  | openFile path writable create =>
    show (f.after (f.vfsOpenFile path writable create)).WellFormed
    cases hopen : f.vfsOpenFile path writable create with
    | error e => exact h
    | ok f' =>
      rcases vfsOpenFile_spec hopen with rfl | hnew
      · exact h
      · obtain ⟨name, s, hne, hslash, -, hcreate, rfl⟩ := hnew
        exact h.create hne hslash hcreate
  | writeAt path offset data =>
    show (f.after (f.vfsWriteAt path offset data)).WellFormed
    cases hwrite : f.vfsWriteAt path offset data with
    | error e => exact h
    | ok f' =>
      obtain ⟨name, s, -, hstore, rfl⟩ := vfsWriteAt_spec hwrite
      exact h.writeAt hstore

theorem wellFormed_booted : booted.WellFormed := by
  refine ⟨rfl, ?_, ?_⟩
  · rintro name ⟨file, hfile, -⟩
    cases hfile
  · intro slot hused
    cases hused

/-! ## Lookup and listing -/

/-- The path of an entry of a directory. -/
def entryPath (directory name : Bytes) : Bytes :=
  if directory = rootDirectory then slash :: name
  else directory ++ slash :: name

/-- The path names a boot file of the root directory or a RAM file of
`/tmp`. -/
def Names (f : Files) (path : Bytes) : Prop :=
  (∃ name, path = slash :: name ∧ f.HasBootFile name) ∨
    ∃ name, path = tmpPrefix ++ name ∧ f.HasRamFile name

/-- A directory lists the file of that path.  Entry 0 of the root directory is
the directory `/tmp`. -/
def Lists (f : Files) (path : Bytes) : Prop :=
  ∃ directory name index capacity, isDirectory directory = true ∧
    path = entryPath directory name ∧
    (directory = rootDirectory → index ≠ 0) ∧
    f.directoryEntry directory index capacity = some name

/-- Lookup and listing agree on the path. -/
def LookupAgrees (f : Files) (path : Bytes) : Prop :=
  ((f.vfsOpen path).isSome = true ↔ f.Names path) ∧
    (f.Names path ↔ f.Lists path)

/-- The path is a second name of a RAM file, in the root directory. -/
def Aliases (f : Files) (path : Bytes) : Prop :=
  ∃ name, path = slash :: name ∧ f.HasRamFile name ∧ ¬ f.HasBootFile name

theorem entryPath_root (name : Bytes) :
    entryPath rootDirectory name = slash :: name := if_pos rfl

theorem entryPath_tmp (name : Bytes) :
    entryPath tmpDirectory name = tmpPrefix ++ name :=
  if_neg (by decide)

theorem lists_root {f : Files} {name : Bytes} :
    (∃ index capacity, index ≠ 0 ∧
      f.directoryEntry rootDirectory index capacity = some name) ↔
      f.HasBootFile name := by
  constructor
  · rintro ⟨index, capacity, hindex, hentry⟩
    simp only [directoryEntry, if_true, if_neg hindex] at hentry
    obtain ⟨found, hfound, hfits⟩ := Option.bind_eq_some_iff.mp hentry
    split at hfits
    · cases hfits
    · obtain rfl := Option.some.inj hfits
      obtain ⟨file, hfile, rfl⟩ := Option.map_eq_some_iff.mp hfound
      exact ⟨file, List.mem_of_getElem? hfile, rfl⟩
  · rintro ⟨file, hfile, rfl⟩
    obtain ⟨index, hindex⟩ := List.mem_iff_getElem?.mp hfile
    refine ⟨index + 1, file.name.length, Nat.succ_ne_zero _, ?_⟩
    simp [directoryEntry, Storage.bootFileName, hindex]

theorem lists_tmp {f : Files} {name : Bytes} :
    (∃ index capacity,
      f.directoryEntry tmpDirectory index capacity = some name) ↔
      f.HasRamFile name := by
  have hne : tmpDirectory ≠ rootDirectory := by decide
  simp only [directoryEntry, if_neg hne, if_true, Storage.ramFileName]
  constructor
  · rintro ⟨index, capacity, hentry⟩
    obtain ⟨slot, hslot, hfits⟩ := Option.bind_eq_some_iff.mp hentry
    split at hfits
    · cases hfits
    · obtain ⟨hrange, hused⟩ := List.mem_filter.mp (List.mem_of_getElem? hslot)
      exact ⟨slot, List.mem_range.mp hrange, hused, Option.some.inj hfits⟩
  · rintro ⟨slot, hslot, hused, rfl⟩
    have hmem : slot ∈ (List.range maxRamFiles).filter fun slot =>
        (f.ramFiles slot).used :=
      List.mem_filter.mpr ⟨List.mem_range.mpr hslot, hused⟩
    obtain ⟨index, hindex⟩ := List.mem_iff_getElem?.mp hmem
    refine ⟨index, (f.ramFiles slot).name.length, ?_⟩
    simp [hindex]

/-- Listing shows exactly the named files. -/
theorem names_iff_lists {f : Files} {path : Bytes} :
    f.Names path ↔ f.Lists path := by
  constructor
  · rintro (⟨name, rfl, hboot⟩ | ⟨name, rfl, hram⟩)
    · obtain ⟨index, capacity, hindex, hentry⟩ := lists_root.mpr hboot
      exact ⟨rootDirectory, name, index, capacity, rfl,
        (entryPath_root name).symm, fun _ => hindex, hentry⟩
    · obtain ⟨index, capacity, hentry⟩ := lists_tmp.mpr hram
      have hne : tmpDirectory ≠ rootDirectory := by decide
      exact ⟨tmpDirectory, name, index, capacity, rfl,
        (entryPath_tmp name).symm, fun h => absurd h hne, hentry⟩
  · rintro ⟨directory, name, index, capacity, hdir, rfl, hindex, hentry⟩
    rw [isDirectory, Bool.or_eq_true, beq_iff_eq, beq_iff_eq] at hdir
    rcases hdir with rfl | rfl
    · exact Or.inl ⟨name, entryPath_root name,
        lists_root.mp ⟨index, capacity, hindex rfl, hentry⟩⟩
    · exact Or.inr ⟨name, entryPath_tmp name,
        lists_tmp.mp ⟨index, capacity, hentry⟩⟩

/-- What `open` finds in the root directory: every file of the name. -/
theorem WellFormed.vfsOpen_root {f : Files} (h : f.WellFormed) {name : Bytes}
    (hslash : slash ∉ name) :
    (f.vfsOpen (slash :: name)).isSome = true ↔
      name ≠ [] ∧ (f.HasBootFile name ∨ f.HasRamFile name) := by
  have htmp : tmpPrefix.tail.isPrefixOf? name = none := by
    cases hstrip : tmpPrefix.tail.isPrefixOf? name with
    | none => rfl
    | some rest =>
      rw [List.isPrefixOf?_eq_some_iff_append_eq] at hstrip
      apply absurd _ hslash
      rw [← hstrip]
      simp [tmpPrefix]
  rw [h.mount.vfsOpen_eq, htmp, ← Storage.isSome_openFile]
  by_cases hnil : name = []
  · simp [hnil]
  · simp [hnil, hslash]

/-- What `open` finds in `/tmp`. -/
theorem WellFormed.vfsOpen_tmp {f : Files} (h : f.WellFormed) {name : Bytes} :
    (f.vfsOpen (tmpPrefix ++ name)).isSome = true ↔ f.HasRamFile name := by
  rw [h.mount.vfsOpen_tmp_eq]
  split
  · rename_i hinvalid
    refine iff_of_false (by simp) ?_
    rintro ⟨slot, -, hused, rfl⟩
    obtain ⟨hne, hslash⟩ := h.ram slot hused
    rcases hinvalid with hnil | hmem
    · exact hne hnil
    · exact hslash hmem
  · exact Storage.isSome_read

/-- What `open` finds at all. -/
theorem WellFormed.isSome_vfsOpen {f : Files} (h : f.WellFormed)
    {path : Bytes} :
    (f.vfsOpen path).isSome = true ↔
      (∃ name, path = slash :: name ∧ slash ∉ name ∧ name ≠ [] ∧
        (f.HasBootFile name ∨ f.HasRamFile name)) ∨
      ∃ name, path = tmpPrefix ++ name ∧ f.HasRamFile name := by
  constructor
  · intro hopen
    cases hroot : rootDirectory.isPrefixOf? path with
    | none => simp [vfsOpen, hroot] at hopen
    | some name =>
      rw [List.isPrefixOf?_eq_some_iff_append_eq] at hroot
      obtain rfl : path = slash :: name := hroot.symm
      cases htmp : tmpPrefix.tail.isPrefixOf? name with
      | some rest =>
        rw [List.isPrefixOf?_eq_some_iff_append_eq] at htmp
        subst htmp
        exact Or.inr ⟨rest, rfl, h.vfsOpen_tmp.mp hopen⟩
      | none =>
        have hslash : slash ∉ name := by
          intro hmem
          rw [h.mount.vfsOpen_eq, htmp] at hopen
          simp [hmem] at hopen
        obtain ⟨hne, hfound⟩ := (h.vfsOpen_root hslash).mp hopen
        exact Or.inl ⟨name, rfl, hslash, hne, hfound⟩
  · rintro (⟨name, rfl, hslash, hne, hfound⟩ | ⟨name, rfl, hram⟩)
    · exact (h.vfsOpen_root hslash).mpr ⟨hne, hfound⟩
    · exact h.vfsOpen_tmp.mpr hram

theorem WellFormed.slash_notMem_ram {f : Files} (h : f.WellFormed)
    {name : Bytes} (hram : f.HasRamFile name) : name ≠ [] ∧ slash ∉ name := by
  obtain ⟨slot, -, hused, rfl⟩ := hram
  exact h.ram slot hused

/-- A path of the root directory is none of `/tmp`. -/
theorem cons_ne_tmp {name rest : Bytes} (hslash : slash ∉ name) :
    slash :: name ≠ tmpPrefix ++ rest := by
  intro heq
  apply hslash
  rw [(List.cons.inj heq).2]
  simp

theorem WellFormed.lookupAgrees_iff {f : Files} (h : f.WellFormed)
    {path : Bytes} :
    f.LookupAgrees path ↔
      ¬ f.Aliases path ∧ ¬ (path = rootDirectory ∧ f.HasBootFile []) := by
  rw [LookupAgrees, and_iff_left names_iff_lists, h.isSome_vfsOpen]
  constructor
  · intro hagrees
    constructor
    · rintro ⟨name, rfl, hram, hboot⟩
      obtain ⟨hne, hslash⟩ := h.slash_notMem_ram hram
      rcases hagrees.mp (Or.inl ⟨name, rfl, hslash, hne, Or.inr hram⟩) with
        ⟨name', heq, hboot'⟩ | ⟨rest, heq, -⟩
      · rw [← (List.cons.inj heq).2] at hboot'
        exact hboot hboot'
      · exact cons_ne_tmp hslash heq
    · rintro ⟨rfl, hboot⟩
      rcases hagrees.mpr (Or.inl ⟨[], rfl, hboot⟩) with
        ⟨name, heq, -, hne, -⟩ | ⟨rest, heq, -⟩
      · exact hne (List.cons.inj heq).2.symm
      · simp [rootDirectory, tmpPrefix] at heq
  · rintro ⟨halias, hempty⟩
    constructor
    · rintro (⟨name, rfl, -, -, hboot | hram⟩ | htmp)
      · exact Or.inl ⟨name, rfl, hboot⟩
      · refine Or.inl ⟨name, rfl, by_contra fun hboot => ?_⟩
        exact halias ⟨name, rfl, hram, hboot⟩
      · exact Or.inr htmp
    · rintro (⟨name, rfl, hboot⟩ | htmp)
      · refine Or.inl ⟨name, rfl, h.boot name hboot, ?_, Or.inl hboot⟩
        rintro rfl
        exact hempty ⟨rfl, hboot⟩
      · exact Or.inr htmp

end Files

/-- After any registrations, openings and writes, lookup and listing agree on
a path exactly if it is no second name of a RAM file and not the root
directory with a boot file that has no name. -/
theorem lookup_agrees {f : Files}
    (hrun : Run Files.step Files.SlashFree .booted f) (path : Bytes) :
    f.LookupAgrees path ↔
      ¬ f.Aliases path ∧ ¬ (path = rootDirectory ∧ f.HasBootFile []) := by
  apply Files.WellFormed.lookupAgrees_iff
  apply hrun.invariant Files.WellFormed
  · intro g a g' hg hname hstep
    exact hg.step hname hstep
  · exact Files.wellFormed_booted

/-- The file `/tmp/a`, just created. -/
def filesWithTmpA : Files :=
  Files.booted.perform (.openFile (tmpPrefix ++ [0x61]) true true)

theorem filesWithTmpA_reached :
    Run Files.step Files.SlashFree .booted filesWithTmpA :=
  .step (.openFile (tmpPrefix ++ [0x61]) true true) .refl trivial rfl

theorem lookup_agrees_tmpA :
    filesWithTmpA.LookupAgrees (tmpPrefix ++ [0x61]) := by
  rw [lookup_agrees filesWithTmpA_reached]
  constructor
  · rintro ⟨name, heq, hram, -⟩
    have hname : Files.booted.SlashFree
        (.openFile (tmpPrefix ++ [0x61]) true true) := trivial
    have hformed : filesWithTmpA.WellFormed :=
      Files.wellFormed_booted.step hname rfl
    have hslash := (hformed.slash_notMem_ram hram).2
    exact Files.cons_ne_tmp hslash heq.symm
  · rintro ⟨heq, -⟩
    exact absurd heq (by decide)

/-- The file `/tmp/a` can be opened as `/a`. -/
theorem lookup_disagrees :
    ∃ f path, Run Files.step Files.SlashFree .booted f ∧
      ¬ f.LookupAgrees path := by
  refine ⟨filesWithTmpA, [slash, 0x61], filesWithTmpA_reached, ?_⟩
  rintro ⟨hopen, -⟩
  rcases hopen.mp (by decide) with ⟨name, heq, file, hfile, -⟩ | ⟨name, heq, -⟩
  · cases hfile
  · simp [tmpPrefix] at heq

end OpenKernel
