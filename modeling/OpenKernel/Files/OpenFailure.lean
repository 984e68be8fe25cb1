import OpenKernel.Files.FileRefinement

/-!
# Failed opens

`open` creates a missing file in the condition that checks the path, and
looks for a free descriptor after that.  An `open` that fails for lack of a
descriptor has then created the file; every other failing `open` changes
nothing.
-/

namespace OpenKernel

open Lib

namespace FileKernel

/-- The RAM files and the descriptors of the caller are the same. -/
structure Unchanged (k k' : FileKernel) (caller : Option ProcessId) : Prop where
  read : ∀ name, k'.files.read name = k.files.read name
  descriptors : (k'.state caller).descriptors = (k.state caller).descriptors

/-- An `open` of this path with these flags creates a file: it is to create
one, the path names a file of `/tmp` that does not exist, and there is room. -/
def CreatesFile (k : FileKernel) (caller : Option ProcessId) (path : Bytes)
    (flags : Nat) : Prop :=
  openDirectory flags = false ∧ openCreate flags = true ∧
    ∃ name, resolvePath (k.state caller).cwd path = some (tmpPrefix ++ name) ∧
      name ≠ [] ∧ slash ∉ name ∧ k.files.read name = none ∧ k.files.freeSlot.isSome

section Open

variable {k k' : FileKernel} {caller : Option ProcessId} {path : Bytes} {flags : Nat}

theorem Unchanged.refl (k : FileKernel) (caller : Option ProcessId) :
    Unchanged k k caller := ⟨fun _ => rfl, rfl⟩

theorem resolvePath_lt {cwd path resolved : Bytes}
    (h : resolvePath cwd path = some resolved) : resolved.length < fdPathLength := by
  have hfinish : ∀ base, resolvePath.finish path base = some resolved →
      resolved.length < fdPathLength := by
    intro base hbase
    unfold resolvePath.finish at hbase
    split at hbase
    · rename_i hlt
      rw [← Option.some.inj hbase, List.length_append]
      exact hlt.1
    · cases hbase
  unfold resolvePath at h
  split at h
  · exact hfinish _ h
  · split at h
    · cases h
    · exact hfinish _ h

/-- A search for a descriptor that fails finds none free. -/
theorem takeDescriptor_none (hlt : path.length < fdPathLength)
    (h : k.takeDescriptor caller path flags = (none, k')) :
    k.freeDescriptor caller = none ∧ k' = k := by
  unfold takeDescriptor at h
  cases hfree : k.freeDescriptor caller with
  | none =>
    rw [hfree] at h
    exact ⟨rfl, (Prod.mk.inj h).2.symm⟩
  | some index =>
    rw [hfree] at h
    dsimp only at h
    rw [dif_pos hlt] at h
    cases (Prod.mk.inj h).1

/-- What `open_file` does to the files. -/
theorem vfsOpenFile_ok {f f' : Files} {writable create : Bool}
    (h : f.vfsOpenFile path writable create = .ok f') :
    f' = f ∨ create = true ∧ ∃ name s, path = tmpPrefix ++ name ∧ name ≠ [] ∧
      slash ∉ name ∧ f.read name = none ∧ f.toStorage.create name = .ok s ∧
      f' = { f with toStorage := s } := by
  unfold Files.vfsOpenFile at h
  split at h
  · cases h
  · split at h
    · rename_i name hprefix
      have hpath := List.isPrefixOf?_eq_some_iff_append_eq.mp hprefix
      split at h
      · cases h
      · rename_i hname
        rw [not_or] at hname
        split at h
        · exact .inl (Except.ok.inj h).symm
        · rename_i hmissing
          rw [Option.not_isSome_iff_eq_none] at hmissing
          split at h
          · rename_i hcreate
            cases hs : f.toStorage.create name with
            | ok s =>
              rw [hs] at h
              exact .inr ⟨hcreate, name, s, hpath.symm, hname.1, hname.2, hmissing, hs,
                (Except.ok.inj h).symm⟩
            | error e =>
              rw [hs] at h
              cases h
          · cases h
    · split at h
      · cases h
      · split at h
        · exact .inl (Except.ok.inj h).symm
        · cases h

/-- A call that creates a file gets past `open_file`, and the file is there. -/
theorem CreatesFile.opens (h : k.CreatesFile caller path flags) :
    ∃ resolved files, resolvePath (k.state caller).cwd path = some resolved ∧
      k.files.vfsOpenFile resolved (openWrite flags) (openCreate flags) = .ok files ∧
      ∃ name, k.files.read name = none ∧ (files.read name).isSome = true := by
  obtain ⟨-, hcreate, name, hresolve, hne, hslash, hmissing, hroom⟩ := h
  have hlt : name.length < maxFileName := by
    have hpath := resolvePath_lt hresolve
    rw [List.length_append] at hpath
    exact Nat.lt_of_le_of_lt (Nat.le_add_left _ _) hpath
  have hnew : ¬ k.files.HasRamFile name := by
    rw [← Storage.isSome_read, hmissing]
    exact Bool.false_ne_true
  cases hs : k.files.toStorage.create name with
  | error e =>
    have hfull := Storage.freeSlot_of_create_error hne hlt hnew hs
    rw [hfull] at hroom
    cases hroom
  | ok s =>
    have hopen : k.files.vfsOpenFile (tmpPrefix ++ name) (openWrite flags)
        (openCreate flags) = .ok { k.files with toStorage := s } := by
      have hprefix : tmpPrefix.isPrefixOf? (tmpPrefix ++ name) = some name :=
        List.isPrefixOf?_eq_some_iff_append_eq.mpr rfl
      have hother : ¬ (tmpPrefix ++ name = rootDirectory ∨
          tmpPrefix ++ name = tmpDirectory) := by
        simp [tmpPrefix, rootDirectory, tmpDirectory]
      unfold Files.vfsOpenFile
      rw [if_neg hother, hprefix]
      dsimp only
      rw [if_neg (not_or.mpr ⟨hne, hslash⟩), hmissing, hcreate, hs]
      rfl
    refine ⟨_, _, hresolve, hopen, name, hmissing, ?_⟩
    obtain ⟨slot, valid, hvalid, -, hfree, rfl⟩ := Storage.create_spec hs
    rw [Storage.isSome_read]
    refine ⟨slot, (Storage.freeSlot_spec hfree).1, ?_, ?_⟩
    · show (put k.files.ramFiles slot _ slot).used = true
      rw [put_same]
    · show (put k.files.ramFiles slot _ slot).name = name
      rw [put_same]
      exact Storage.validateName_eq_ok hvalid

/-- A failing `open` changes nothing exactly if it does not create a file that
it then has no descriptor for. -/
theorem failed_open_unchanged (h : k.openFd caller path flags = (none, k')) :
    Unchanged k k' caller ↔
      ¬ (k.CreatesFile caller path flags ∧ k.freeDescriptor caller = none) := by
  constructor
  · rintro hsame ⟨hcreates, -⟩
    obtain ⟨resolved, files, hresolve, hopen, name, hmissing, hthere⟩ := hcreates.opens
    have hlt := resolvePath_lt hresolve
    unfold openFd at h
    rw [hresolve] at h
    dsimp only at h
    rw [hcreates.1, if_neg Bool.false_ne_true, hopen] at h
    obtain ⟨-, rfl⟩ := takeDescriptor_none hlt h
    have hread : files.read name = none := (hsame.read name).trans hmissing
    rw [hread] at hthere
    cases hthere
  · intro hexcept
    unfold openFd at h
    cases hresolve : resolvePath (k.state caller).cwd path with
    | none =>
      rw [hresolve] at h
      obtain rfl := (Prod.mk.inj h).2
      exact .refl k caller
    | some resolved =>
      have hlt := resolvePath_lt hresolve
      rw [hresolve] at h
      dsimp only at h
      split at h
      · split at h
        · obtain ⟨-, rfl⟩ := takeDescriptor_none hlt h
          exact .refl k' caller
        · obtain rfl := (Prod.mk.inj h).2
          exact .refl k caller
      · rename_i hdirectory
        split at h
        · obtain rfl := (Prod.mk.inj h).2
          exact .refl k caller
        · rename_i files hopen
          obtain ⟨hfull, rfl⟩ := takeDescriptor_none hlt h
          rcases vfsOpenFile_ok hopen with rfl | ⟨hcreate, name, s, rfl, hne, hslash,
            hmissing, hs, rfl⟩
          · exact .refl k caller
          · obtain ⟨slot, -, -, -, hfree, -⟩ := Storage.create_spec hs
            refine absurd ⟨⟨Bool.eq_false_iff.mpr hdirectory, hcreate, name, hresolve, hne,
              hslash, hmissing, ?_⟩, hfull⟩ hexcept
            rw [hfree]
            rfl

end Open

/-- PID 1 has created `/tmp/a` and has it open. -/
def oneFile : FileKernel :=
  ((FileKernel.booted [] (Nat.zero_le _)).openFd (some 1) (tmpPrefix ++ [0x61]) 2).2

/-- An `open` of `/tmp/b` that may not create it fails and changes nothing. -/
theorem failed_open_unchanged_missing : ∃ k',
    oneFile.openFd (some 1) (tmpPrefix ++ [0x62]) 0 = (none, k') ∧
      oneFile.files.read [0x61] = some [] ∧ Unchanged oneFile k' (some 1) := by
  have hopen : (oneFile.openFd (some 1) (tmpPrefix ++ [0x62]) 0).1 = none := by decide +kernel
  have hfailed : oneFile.openFd (some 1) (tmpPrefix ++ [0x62]) 0 = (none, _) :=
    Prod.ext hopen rfl
  refine ⟨_, hfailed, by decide +kernel, (failed_open_unchanged hfailed).mpr fun h => ?_⟩
  exact absurd h.1.2.1 (by decide)

/-- The root directory is open in all descriptors. -/
def fullTable : FileKernel :=
  ((FileKernel.booted [] (Nat.zero_le _)).run
    (List.replicate maxFds (1, .openFd 0x4000_0000_0000 rootDirectory 4))).2

set_option maxRecDepth 10000 in
/-- With all descriptors in use, an `open` of `/tmp/a` that is to create the
file fails and creates it. -/
theorem failed_open_creates : ∃ k',
    fullTable.openFd (some 1) (tmpPrefix ++ [0x61]) 2 = (none, k') ∧
      ¬ Unchanged fullTable k' (some 1) := by
  have hopen : (fullTable.openFd (some 1) (tmpPrefix ++ [0x61]) 2).1 = none := by
    decide +kernel
  have hbefore : fullTable.files.read [0x61] = none := by decide +kernel
  have hafter : (fullTable.openFd (some 1) (tmpPrefix ++ [0x61]) 2).2.files.read
      [0x61] = some [] := by
    decide +kernel
  refine ⟨(fullTable.openFd (some 1) (tmpPrefix ++ [0x61]) 2).2, Prod.ext hopen rfl,
    fun h => ?_⟩
  have hsame := h.read [0x61]
  rw [hbefore, hafter] at hsame
  cases hsame

end FileKernel

end OpenKernel
