import OpenKernel.Files.OpenFailure

/-!
# Relative and absolute paths

A relative path should resolve like the absolute path that the working
directory and a separator make of it.  `resolve_path` reserves room for a
separator before it knows whether there is one: at the root directory, whose
path ends in the separator already, it refuses the longest relative paths
(`relative_path_resolves`).
-/

namespace OpenKernel

open Lib

def currentDirectoryMax : Nat := 5

namespace FileKernel

/-- The working directories that a process can get to with `chdir`. -/
inductive WorkingDirectory : Bytes → Prop
  | root : WorkingDirectory rootDirectory
  | changed {k k' : FileKernel} {caller : Option ProcessId} {path : Bytes}
      (hfrom : WorkingDirectory (k.state caller).cwd) (hchdir : k.chdir caller path = (true, k')) :
      WorkingDirectory (k'.state caller).cwd

/-- A directory and a name with one separator between them. -/
def joinPath (directory name : Bytes) : Bytes :=
  if directory.getLast? = some slash then directory ++ name else directory ++ slash :: name

/-- The relative path resolves like the absolute one, and what is resolved is
short enough for those who store it. -/
structure ResolvesAlike (k : FileKernel) (caller : Option ProcessId) (name : Bytes) : Prop where
  alike : resolvePath (k.state caller).cwd name =
    resolvePath (k.state caller).cwd (joinPath (k.state caller).cwd name)
  short : ∀ path resolved, resolvePath (k.state caller).cwd path = some resolved →
    resolved.length ≤ 63
  opens : ∀ path resolved, resolvePath (k.state caller).cwd path = some resolved →
    ∀ flags index, k.freeDescriptor caller = some index →
      (k.takeDescriptor caller resolved flags).1 = some (index + 3)
  directory : ∀ path k', k.chdir caller path = (true, k') →
    (k'.state caller).cwd.length ≤ currentDirectoryMax

section Resolve

variable {k k' : FileKernel} {caller : Option ProcessId} {cwd name path : Bytes}

/-- `chdir` succeeds on directories. -/
theorem chdir_directory (h : k.chdir caller path = (true, k')) :
    (k'.state caller).cwd = rootDirectory ∨ (k'.state caller).cwd = tmpDirectory := by
  unfold chdir at h
  split at h
  · cases h
  · rename_i resolved hresolved
    split at h
    · rename_i hdirectory
      obtain ⟨-, rfl⟩ := Prod.mk.inj h
      have hcwd : (FileKernel.state { k with
          states := put k.states (stateSlot caller) { k.state caller with cwd := resolved } }
          caller).cwd = resolved := by
        unfold state
        dsimp only
        rw [put_same]
      rw [hcwd]
      simpa [Files.isDirectory] using hdirectory
    · cases h

theorem WorkingDirectory.cases_eq (h : WorkingDirectory cwd) :
    cwd = rootDirectory ∨ cwd = tmpDirectory := by
  cases h with
  | root => exact .inl rfl
  | changed _ hchdir => exact chdir_directory hchdir

theorem resolvePath_absolute (h : path.head? = some slash) :
    resolvePath cwd path =
      if path.length < fdPathLength ∧ validUtf8 path then some path else none := by
  unfold resolvePath resolvePath.finish
  rw [if_pos h, List.nil_append, List.length_nil, Nat.zero_add]

theorem resolvePath_relative (h : name.head? ≠ some slash) :
    resolvePath cwd name =
      if fdPathLength ≤ cwd.length + 1 + name.length then none
      else resolvePath.finish name (if cwd.length = 1 then cwd else cwd ++ [slash]) := by
  unfold resolvePath
  rw [if_neg h]

theorem validUtf8_slash (name : Bytes) : validUtf8 (slash :: name) = validUtf8 name := by
  rw [validUtf8.eq_def]
  exact if_pos (by decide)

/-- At the root directory the two guards part at 62 bytes. -/
theorem resolvePath_root (h : name.head? ≠ some slash) :
    resolvePath rootDirectory name = resolvePath rootDirectory (joinPath rootDirectory name) ↔
      ¬ (name.length = 62 ∧ validUtf8 name = true) := by
  have hjoin : joinPath rootDirectory name = slash :: name := rfl
  rw [resolvePath_relative h, hjoin, resolvePath_absolute rfl, validUtf8_slash]
  unfold resolvePath.finish
  have hbase : (if rootDirectory.length = 1 then rootDirectory else rootDirectory ++ [slash]) =
      [slash] := rfl
  have hroot : rootDirectory.length = 1 := rfl
  have happend : [slash] ++ name = slash :: name := rfl
  rw [hbase, hroot, happend, validUtf8_slash, List.length_cons, List.length_cons, List.length_nil]
  have hlimit : fdPathLength = 64 := rfl
  by_cases hvalid : validUtf8 name = true
  · simp only [hvalid, and_true]
    by_cases hlong : fdPathLength ≤ 1 + 1 + name.length
    · rw [if_pos hlong]
      by_cases hlast : name.length = 62
      · rw [if_pos (by omega)]
        simp [hlast]
      · rw [if_neg (by omega)]
        simp [hlast]
    · rw [if_neg hlong, if_pos (by omega), if_pos (by omega)]
      simp only [true_iff]
      omega
  · simp [hvalid]

/-- In `/tmp` both guards count the separator. -/
theorem resolvePath_tmpDirectory (h : name.head? ≠ some slash) :
    resolvePath tmpDirectory name = resolvePath tmpDirectory (joinPath tmpDirectory name) := by
  have hjoin : joinPath tmpDirectory name = tmpPrefix ++ name := by
    unfold joinPath
    rw [if_neg (by decide)]
    rfl
  rw [resolvePath_relative h, hjoin, resolvePath_absolute (by rfl)]
  unfold resolvePath.finish
  have hbase : (if tmpDirectory.length = 1 then tmpDirectory else tmpDirectory ++ [slash]) =
      tmpPrefix := rfl
  have hlength : tmpDirectory.length = 4 := rfl
  have hprefix : tmpPrefix.length = 5 := rfl
  rw [hbase, hlength, List.length_append, hprefix]
  by_cases hlong : fdPathLength ≤ 4 + 1 + name.length
  · rw [if_pos hlong, if_neg (fun hlt => absurd hlt.1 (by omega))]
  · rw [if_neg hlong]

theorem takeDescriptor_short {flags index : Nat} (hlt : path.length < fdPathLength)
    (hfree : k.freeDescriptor caller = some index) :
    (k.takeDescriptor caller path flags).1 = some (index + 3) := by
  unfold takeDescriptor
  rw [hfree]
  dsimp only
  rw [dif_pos hlt]

/-- A relative path resolves like the absolute one unless it is the longest
one below the root. -/
theorem relative_path_resolves (hcwd : WorkingDirectory (k.state caller).cwd)
    (hrelative : name.head? ≠ some slash) :
    k.ResolvesAlike caller name ↔
      ¬ ((k.state caller).cwd = rootDirectory ∧ name.length = 62 ∧ validUtf8 name = true) := by
  have halike : resolvePath (k.state caller).cwd name =
      resolvePath (k.state caller).cwd (joinPath (k.state caller).cwd name) ↔
        ¬ ((k.state caller).cwd = rootDirectory ∧ name.length = 62 ∧ validUtf8 name = true) := by
    rcases hcwd.cases_eq with hroot | htmp
    · rw [hroot, resolvePath_root hrelative]
      simp
    · rw [htmp]
      have hother : tmpDirectory ≠ rootDirectory := by decide
      simp [resolvePath_tmpDirectory hrelative, hother]
  refine ⟨fun h => halike.mp h.alike, fun h => ⟨halike.mpr h, ?_, ?_, ?_⟩⟩
  · intro path resolved hresolved
    exact Nat.le_of_lt_succ (resolvePath_lt hresolved)
  · intro path resolved hresolved flags index hfree
    exact takeDescriptor_short (resolvePath_lt hresolved) hfree
  · intro path k' hchdir
    rcases chdir_directory hchdir with hroot | htmp
    · rw [hroot]
      decide
    · rw [htmp]
      decide

end Resolve

/-- A process that has just started, whose working directory is the root. -/
def atRoot : FileKernel := { files := .booted, states := fun _ => .spawned }

/-- `chdir` to `/tmp`, and a name there. -/
theorem relative_path_resolves_tmp : ∃ k : FileKernel, (k.state (some 2)).cwd = tmpDirectory ∧
    k.ResolvesAlike (some 2) [0x61] := by
  have hroot : WorkingDirectory (atRoot.state (some 2)).cwd := .root
  have hchdir : atRoot.chdir (some 2) tmpDirectory =
      (true, (atRoot.chdir (some 2) tmpDirectory).2) := rfl
  refine ⟨(atRoot.chdir (some 2) tmpDirectory).2, rfl, ?_⟩
  exact (relative_path_resolves (.changed hroot hchdir) (by decide)).mpr
    fun h => absurd h.1 (by decide)

/-- A name of 62 bytes is refused at the root, and the path with the separator
before it is not. -/
theorem longest_name_refused : ∃ (k : FileKernel) (name : Bytes),
    WorkingDirectory (k.state (some 2)).cwd ∧ name ≠ [] ∧ name.head? ≠ some slash ∧
      ¬ k.ResolvesAlike (some 2) name := by
  refine ⟨atRoot, List.replicate 62 0x61, .root, by decide, by decide, fun h => ?_⟩
  exact absurd h.alike (by decide)

end FileKernel

end OpenKernel
