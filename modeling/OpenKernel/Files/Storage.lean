import Mathlib.Data.List.Basic
import OpenKernel.Lib.Put

/-!
# Boot files and RAM files

The model of `storage.rs`.  Names and contents are byte strings.  A RAM file
keeps its whole buffer next to its length: what lies past the length shows
again when a write leaves a gap.
-/

namespace OpenKernel

open Lib

abbrev Bytes := List UInt8

def maxFiles : Nat := 32
def maxRamFiles : Nat := 32
def maxFileName : Nat := 64
def maxRamFileSize : Nat := 4096

/-- `File`. -/
structure File where
  name : Bytes
  data : Bytes
  deriving DecidableEq

inductive RamFsError
  | alreadyExists
  | notFound
  | nameTooLong
  | fileTooLarge
  | noSpace
  deriving DecidableEq

/-- `RamFile`. -/
structure RamFile where
  used : Bool
  name : Bytes
  data : Nat → UInt8
  length : Nat
  name_lt : name.length < maxFileName
  length_le : length ≤ maxRamFileSize

namespace RamFile

/-- `RamFile::EMPTY`. -/
def empty : RamFile :=
  { used := false
    name := []
    data := fun _ => 0
    length := 0
    name_lt := by decide
    length_le := by decide }

/-- The slice of the buffer that the file consists of. -/
def contents (file : RamFile) : Bytes :=
  (List.range file.length).map file.data

end RamFile

/-- `names_equal`. -/
def namesEqual (left right : Bytes) : Bool :=
  left.length == right.length &&
    (List.range left.length).all fun index => left[index]? == right[index]?

theorem namesEqual_iff {left right : Bytes} :
    namesEqual left right = true ↔ left = right := by
  constructor
  · intro h
    simp only [namesEqual, Bool.and_eq_true, beq_iff_eq, List.all_eq_true,
      List.mem_range] at h
    obtain ⟨hlength, hbytes⟩ := h
    apply List.ext_getElem? fun index => ?_
    by_cases hindex : index < left.length
    · exact hbytes index hindex
    · rw [List.getElem?_eq_none (by omega), List.getElem?_eq_none (by omega)]
  · rintro rfl
    simp [namesEqual]

/-- `FILES` up to `FILE_COUNT`, and `RAM_FILES`. -/
structure Storage where
  files : List File
  ramFiles : Nat → RamFile
  files_le : files.length ≤ maxFiles

/-- A name that `validate_name` lets through. -/
structure ValidName where
  bytes : Bytes
  ne_nil : bytes ≠ []
  lt : bytes.length < maxFileName

/-- `validate_name`. -/
def validateName (name : Bytes) : Except RamFsError ValidName :=
  if h : name ≠ [] ∧ name.length < maxFileName then
    .ok ⟨name, h.1, h.2⟩
  else .error .nameTooLong

namespace Storage

def empty : Storage :=
  { files := []
    ramFiles := fun _ => .empty
    files_le := Nat.zero_le _ }

/-- `register_boot_file`. -/
def registerBootFile (s : Storage) (name data : Bytes) : Bool × Storage :=
  if h : s.files.length = maxFiles then (false, s)
  else
    (true,
      { s with
        files := s.files ++ [⟨name, data⟩]
        files_le := by
          have := s.files_le
          rw [List.length_append, List.length_singleton]
          omega })

/-- `find_ram_file`. -/
def findRamFile (s : Storage) (name : Bytes) : Option Nat :=
  (List.range maxRamFiles).find? fun slot =>
    (s.ramFiles slot).used && namesEqual (s.ramFiles slot).name name

/-- `read`. -/
def read (s : Storage) (name : Bytes) : Option Bytes :=
  (s.findRamFile name).map fun slot => (s.ramFiles slot).contents

/-- `open`: a boot file, or else a RAM file. -/
def openFile (s : Storage) (name : Bytes) : Option Bytes :=
  match s.files.find? fun file => namesEqual file.name name with
  | some file => some file.data
  | none => s.read name

/-- `boot_file_name`. -/
def bootFileName (s : Storage) (index : Nat) : Option Bytes :=
  s.files[index]?.map (·.name)

/-- The slot that `create` takes. -/
def freeSlot (s : Storage) : Option Nat :=
  (List.range maxRamFiles).find? fun slot => !(s.ramFiles slot).used

/-- `create`. -/
def create (s : Storage) (name : Bytes) : Except RamFsError Storage :=
  match validateName name with
  | .error e => .error e
  | .ok valid =>
    if (s.findRamFile valid.bytes).isSome then .error .alreadyExists
    else
      match s.freeSlot with
      | none => .error .noSpace
      | some slot =>
        .ok { s with
          ramFiles := put s.ramFiles slot
            { s.ramFiles slot with
              used := true
              name := valid.bytes
              length := 0
              name_lt := valid.lt
              length_le := Nat.zero_le _ } }

/-- The store of `write_at`: the bytes at the offset, and a length that
reaches their end. -/
def storeAt (file : RamFile) (offset : Nat) (data : Bytes)
    (h : offset + data.length ≤ maxRamFileSize) : RamFile :=
  { file with
    data := fun index =>
      if offset ≤ index then (data[index - offset]?).getD (file.data index)
      else file.data index
    length := max file.length (offset + data.length)
    length_le := Nat.max_le.mpr ⟨file.length_le, h⟩ }

/-- `write_at`.  The sum of the offset and the length is checked for overflow
before it is compared; both failures have the same error. -/
def writeAt (s : Storage) (name : Bytes) (offset : Nat) (data : Bytes) :
    Except RamFsError Storage :=
  match validateName name with
  | .error e => .error e
  | .ok valid =>
    if h : offset + data.length ≤ maxRamFileSize then
      match s.findRamFile valid.bytes with
      | none => .error .notFound
      | some slot =>
        .ok { s with
          ramFiles :=
            put s.ramFiles slot (storeAt (s.ramFiles slot) offset data h) }
    else .error .fileTooLarge

/-- `write`. -/
def write (s : Storage) (name data : Bytes) : Except RamFsError Storage :=
  s.writeAt name 0 data

/-- `delete`. -/
def delete (s : Storage) (name : Bytes) : Except RamFsError Storage :=
  match validateName name with
  | .error e => .error e
  | .ok valid =>
    match s.findRamFile valid.bytes with
    | none => .error .notFound
    | some slot => .ok { s with ramFiles := put s.ramFiles slot .empty }

/-- `ram_file_count`. -/
def ramFileCount (s : Storage) : Nat :=
  ((List.range maxRamFiles).filter fun slot => (s.ramFiles slot).used).length

/-- `ram_file_name`, with an output of `capacity` bytes. -/
def ramFileName (s : Storage) (index capacity : Nat) : Option Bytes := do
  let slot ←
    ((List.range maxRamFiles).filter fun slot => (s.ramFiles slot).used)[index]?
  if capacity < (s.ramFiles slot).name.length then none
  else some (s.ramFiles slot).name

/-! ## What the functions find -/

/-- A boot file of that name is registered. -/
def HasBootFile (s : Storage) (name : Bytes) : Prop :=
  ∃ file ∈ s.files, file.name = name

/-- A slot in use holds a RAM file of that name. -/
def HoldsName (s : Storage) (name : Bytes) (slot : Nat) : Prop :=
  slot < maxRamFiles ∧ (s.ramFiles slot).used = true ∧
    (s.ramFiles slot).name = name

def HasRamFile (s : Storage) (name : Bytes) : Prop :=
  ∃ slot, s.HoldsName name slot

theorem holdsName_of_findRamFile {s : Storage} {name : Bytes} {slot : Nat}
    (h : s.findRamFile name = some slot) : s.HoldsName name slot := by
  have hslot := List.mem_range.mp (List.mem_of_find?_eq_some h)
  have htest := List.find?_some h
  rw [Bool.and_eq_true, namesEqual_iff] at htest
  exact ⟨hslot, htest.1, htest.2⟩

theorem isSome_findRamFile {s : Storage} {name : Bytes} :
    (s.findRamFile name).isSome = true ↔ s.HasRamFile name := by
  constructor
  · intro h
    obtain ⟨slot, hslot⟩ := Option.isSome_iff_exists.mp h
    exact ⟨slot, holdsName_of_findRamFile hslot⟩
  · rintro ⟨slot, hslot, hused, hname⟩
    rw [findRamFile, List.find?_isSome]
    refine ⟨slot, List.mem_range.mpr hslot, ?_⟩
    rw [Bool.and_eq_true, namesEqual_iff]
    exact ⟨hused, hname⟩

theorem isSome_read {s : Storage} {name : Bytes} :
    (s.read name).isSome = true ↔ s.HasRamFile name := by
  rw [read, Option.isSome_map, isSome_findRamFile]

theorem isSome_openFile {s : Storage} {name : Bytes} :
    (s.openFile name).isSome = true ↔
      s.HasBootFile name ∨ s.HasRamFile name := by
  have hboot : (s.files.find? fun file => namesEqual file.name name).isSome =
      true ↔ s.HasBootFile name := by
    simp only [List.find?_isSome, namesEqual_iff, HasBootFile]
  unfold openFile
  cases hfind : s.files.find? fun file => namesEqual file.name name with
  | some file =>
    rw [hfind] at hboot
    exact iff_of_true rfl (Or.inl (hboot.mp rfl))
  | none =>
    rw [hfind] at hboot
    show (s.read name).isSome = true ↔ _
    have hnone : ¬ s.HasBootFile name := fun h => nomatch hboot.mpr h
    rw [isSome_read, or_iff_right hnone]

theorem freeSlot_spec {s : Storage} {slot : Nat}
    (h : s.freeSlot = some slot) :
    slot < maxRamFiles ∧ (s.ramFiles slot).used = false := by
  constructor
  · exact List.mem_range.mp (List.mem_of_find?_eq_some h)
  · simpa using List.find?_some h

theorem validateName_eq_ok {name : Bytes} {valid : ValidName}
    (h : validateName name = .ok valid) : valid.bytes = name := by
  unfold validateName at h
  split at h
  · rw [← Except.ok.inj h]
  · cases h

/-- A file is only created under a new name and in a free slot. -/
theorem create_spec {s t : Storage} {name : Bytes}
    (h : s.create name = .ok t) :
    ∃ slot valid, validateName name = .ok valid ∧ ¬ s.HasRamFile name ∧
      s.freeSlot = some slot ∧
      t = { s with
        ramFiles := put s.ramFiles slot
          { s.ramFiles slot with
            used := true
            name := valid.bytes
            length := 0
            name_lt := valid.lt
            length_le := Nat.zero_le _ } } := by
  unfold create at h
  split at h
  · cases h
  · rename_i valid hvalid
    have hname := validateName_eq_ok hvalid
    split at h
    · cases h
    · rename_i hnew
      rw [isSome_findRamFile, hname] at hnew
      cases hfree : s.freeSlot with
      | none => simp [hfree] at h
      | some slot =>
        rw [hfree] at h
        exact ⟨slot, valid, hvalid, hnew, rfl, (Except.ok.inj h).symm⟩

theorem validateName_of_lt {name : Bytes} (hne : name ≠ [])
    (hlt : name.length < maxFileName) :
    validateName name = .ok ⟨name, hne, hlt⟩ :=
  dif_pos ⟨hne, hlt⟩

/-- The only reason not to create a file under a new name is that every slot
is in use. -/
theorem freeSlot_of_create_error {s : Storage} {name : Bytes} {e : RamFsError}
    (hne : name ≠ []) (hlt : name.length < maxFileName)
    (hnew : ¬ s.HasRamFile name) (h : s.create name = .error e) :
    s.freeSlot = none := by
  cases hfree : s.freeSlot with
  | none => rfl
  | some slot =>
    rw [← isSome_findRamFile] at hnew
    simp [create, validateName_of_lt hne hlt, hnew, hfree] at h

/-- The only reason not to write to an existing file is its size. -/
theorem lt_of_writeAt_error {s : Storage} {name data : Bytes} {offset : Nat}
    {e : RamFsError} (hne : name ≠ []) (hlt : name.length < maxFileName)
    (hram : s.HasRamFile name) (h : s.writeAt name offset data = .error e) :
    maxRamFileSize < offset + data.length := by
  by_contra hfits
  obtain ⟨slot, hfind⟩ :=
    Option.isSome_iff_exists.mp (isSome_findRamFile.mpr hram)
  rw [Nat.not_lt] at hfits
  simp [writeAt, validateName_of_lt hne hlt, hfits, hfind] at h

/-- A write goes to the file of that name. -/
theorem writeAt_spec {s t : Storage} {name : Bytes} {offset : Nat}
    {data : Bytes} (h : s.writeAt name offset data = .ok t) :
    ∃ slot, ∃ hfits : offset + data.length ≤ maxRamFileSize,
      s.findRamFile name = some slot ∧
      t = { s with
        ramFiles :=
          put s.ramFiles slot (storeAt (s.ramFiles slot) offset data hfits) } := by
  unfold writeAt at h
  split at h
  · cases h
  · rename_i valid hvalid
    rw [validateName_eq_ok hvalid] at h
    split at h
    · rename_i hfits
      cases hfind : s.findRamFile name with
      | none => simp [hfind] at h
      | some slot =>
        rw [hfind] at h
        exact ⟨slot, hfits, rfl, (Except.ok.inj h).symm⟩
    · cases h

end Storage

end OpenKernel
