import Mathlib.Data.Set.Card
import OpenKernel.Files.Descriptors

/-!
# What files are

A file is a name with a byte string, and a process reaches it through a table
of its own: from descriptor numbers to a name, a position and the right to
write.  `FileModel` is this view, with functions for both maps and no slots,
buffers or paths.  `Stores` connects its contents with the RAM files of the
storage.
-/

namespace OpenKernel

open Lib

/-- The names that a path of `/tmp` can end with. -/
def FileName (name : Bytes) : Prop :=
  name ≠ [] ∧ slash ∉ name ∧ tmpPrefix.length + name.length < fdPathLength ∧
    validUtf8 name = true

instance : DecidablePred FileName := fun name =>
  inferInstanceAs (Decidable (name ≠ [] ∧ slash ∉ name ∧
    tmpPrefix.length + name.length < fdPathLength ∧ validUtf8 name = true))

/-- `bytes` with `data` at `position`; a gap is filled with zeros. -/
def splice (bytes : Bytes) (position : Nat) (data : Bytes) : Bytes :=
  (bytes ++ List.replicate (position - bytes.length) 0).take position ++
    data ++ bytes.drop (position + data.length)

structure OpenFile where
  name : Bytes
  position : Nat
  writable : Bool

/-- The open files of every process, by descriptor number, and the contents
of the files, by name. -/
structure FileModel where
  tables : ProcessId → Nat → Option OpenFile
  contents : Bytes → Option Bytes

namespace FileModel

def empty : FileModel :=
  { tables := fun _ _ => none
    contents := fun _ => none }

/-- Change one entry of the table of one process. -/
def setFile (m : FileModel) (caller : ProcessId) (fd : Nat)
    (file : Option OpenFile) : FileModel :=
  { m with
    tables := Function.update m.tables caller
      (Function.update (m.tables caller) fd file) }

def setContents (m : FileModel) (name bytes : Bytes) : FileModel :=
  { m with contents := Function.update m.contents name (some bytes) }

/-- The contents of an open file. -/
def bytesOf (m : FileModel) (file : OpenFile) : Bytes :=
  (m.contents file.name).getD []

/-- Another file can be created. -/
def HasRoom (m : FileModel) : Prop :=
  {name | (m.contents name).isSome = true}.ncard < maxRamFiles

/-- The least descriptor number that is not in use. -/
def freeFd (m : FileModel) (caller : ProcessId) : Option Nat :=
  (List.range' 3 maxFds).find? fun fd => (m.tables caller fd).isNone

/-- The position that a seek counts from. -/
def seekBase (m : FileModel) (file : OpenFile) (whence : Nat) : Option Int :=
  if whence = 0 then some 0
  else if whence = 1 then some file.position
  else if whence = 2 then some (m.bytesOf file).length
  else none

open Classical in
/-- The files after an `open` has looked for the name. -/
noncomputable def ensure (m : FileModel) (name : Bytes) (create : Bool) :
    Option FileModel :=
  if (m.contents name).isSome then some m
  else if create = true ∧ m.HasRoom then some (m.setContents name [])
  else none

/-- Open a file of `/tmp` by its name. -/
noncomputable def openFd (m : FileModel) (caller : ProcessId) (name : Bytes)
    (flags : Nat) : FileReply × FileModel :=
  match m.ensure name (openCreate flags) with
  | none => (.failed, m)
  | some m =>
    match m.freeFd caller with
    | none => (.failed, m)
    | some fd =>
      (.opened fd, m.setFile caller fd (some ⟨name, 0, openWrite flags⟩))

def read (m : FileModel) (caller : ProcessId) (fd length : Nat)
    (file : OpenFile) : FileReply × FileModel :=
  let bytes := ((m.bytesOf file).drop file.position).take length
  (.read bytes,
    m.setFile caller fd
      (some { file with position := file.position + bytes.length }))

def write (m : FileModel) (caller : ProcessId) (fd : Nat) (input : Bytes)
    (file : OpenFile) : FileReply × FileModel :=
  if file.writable = true ∧
      file.position + input.length ≤ maxRamFileSize then
    (.written input.length,
      (m.setContents file.name
        (splice (m.bytesOf file) file.position input)).setFile caller fd
        (some { file with position := file.position + input.length }))
  else (.failed, m)

def seek (m : FileModel) (caller : ProcessId) (fd : Nat) (offset : Int)
    (whence : Nat) (file : OpenFile) : FileReply × FileModel :=
  match m.seekBase file whence with
  | none => (.failed, m)
  | some base =>
    if 0 ≤ base + offset ∧ base + offset < 2 ^ 63 then
      (.positioned (base + offset).toNat,
        m.setFile caller fd
          (some { file with position := (base + offset).toNat }))
    else (.failed, m)

def stat (m : FileModel) (file : OpenFile) : Stat :=
  { kind := 1
    readOnly := if file.writable then 0 else 1
    size := littleEndianBytes (m.bytesOf file).length }

/-- A file syscall of `caller` on the paths of `/tmp`.  The user buffer has
to lie in user space. -/
noncomputable def perform (m : FileModel) (caller : ProcessId) :
    FileCall → FileReply × FileModel
  | .openFd pointer path flags =>
    match tmpPrefix.isPrefixOf? path with
    | none => (.failed, m)
    | some name =>
      if Kernel.userBytes pointer path.length 64 = true ∧ FileName name ∧
          openDirectory flags = false then
        m.openFd caller name flags
      else (.failed, m)
  | .read fd pointer length =>
    match m.tables caller fd with
    | none => (.failed, m)
    | some file =>
      if Kernel.userBytes pointer length 4096 then m.read caller fd length file
      else (.failed, m)
  | .write fd pointer input =>
    match m.tables caller fd with
    | none => (.failed, m)
    | some file =>
      if Kernel.userBytes pointer input.length 4096 then
        m.write caller fd input file
      else (.failed, m)
  | .close fd =>
    match m.tables caller fd with
    | none => (.failed, m)
    | some _ => (.closed, m.setFile caller fd none)
  | .seek fd offset whence =>
    match m.tables caller fd with
    | none => (.failed, m)
    | some file => m.seek caller fd (toI64 offset) whence file
  | .stat fd pointer length =>
    match m.tables caller fd with
    | none => (.failed, m)
    | some file =>
      if Kernel.userBytes pointer length 16 = true ∧ 16 ≤ length then
        (.status (m.stat file), m)
      else (.failed, m)

end FileModel

/-! ## The contents in the storage -/

/-- The bytes of a file, one at a time. -/
theorem RamFile.getElem?_contents (file : RamFile) (index : Nat) :
    file.contents[index]? =
      if index < file.length then some (file.data index) else none := by
  rw [contents, List.getElem?_map]
  by_cases h : index < file.length
  · rw [List.getElem?_range h, if_pos h]
    rfl
  · rw [List.getElem?_eq_none (by simpa using h), if_neg h]
    rfl

theorem RamFile.length_contents (file : RamFile) :
    file.contents.length = file.length := by
  simp [contents]

theorem getElem?_splice (bytes : Bytes) (position : Nat) (data : Bytes)
    (index : Nat) :
    (splice bytes position data)[index]? =
      if index < position then some (bytes[index]?.getD 0)
      else if index < position + data.length then data[index - position]?
      else bytes[index]? := by
  have hlength : ((bytes ++ List.replicate (position - bytes.length) 0).take
      position).length = position := by
    rw [List.length_take, List.length_append, List.length_replicate]
    omega
  unfold splice
  by_cases hbefore : index < position
  · rw [List.append_assoc, List.getElem?_append_left (by omega),
      List.getElem?_take_of_lt hbefore, if_pos hbefore]
    by_cases hold : index < bytes.length
    · rw [List.getElem?_append_left hold, List.getElem?_eq_getElem hold]
      rfl
    · rw [List.getElem?_append_right (by omega),
        List.getElem?_replicate_of_lt (by omega),
        List.getElem?_eq_none (by omega)]
      rfl
  · rw [if_neg hbefore, List.append_assoc,
      List.getElem?_append_right (by omega), hlength]
    by_cases hin : index < position + data.length
    · rw [if_pos hin, List.getElem?_append_left (by omega)]
    · rw [if_neg hin, List.getElem?_append_right (by omega),
        List.getElem?_drop]
      congr 1
      omega

theorem length_storeAt (file : RamFile) (offset : Nat) (data : Bytes)
    (hfits : offset + data.length ≤ maxRamFileSize) :
    (Storage.storeAt file offset data hfits).length =
      max file.length (offset + data.length) := rfl

theorem data_storeAt (file : RamFile) (offset : Nat) (data : Bytes)
    (hfits : offset + data.length ≤ maxRamFileSize) (index : Nat) :
    (Storage.storeAt file offset data hfits).data index =
      if offset ≤ index then (data[index - offset]?).getD (file.data index)
      else file.data index := rfl

/-- The store of `write_at` splices, since the buffer is zero past the
length. -/
theorem contents_storeAt {file : RamFile} {offset : Nat} {data : Bytes}
    (hclean : ∀ index, file.length ≤ index → file.data index = 0)
    (hfits : offset + data.length ≤ maxRamFileSize) :
    (Storage.storeAt file offset data hfits).contents =
      splice file.contents offset data := by
  apply List.ext_getElem?
  intro index
  rw [RamFile.getElem?_contents, getElem?_splice, RamFile.getElem?_contents,
    length_storeAt, data_storeAt]
  by_cases hbefore : index < offset
  · rw [if_pos (by omega), if_neg (by omega), if_pos hbefore]
    by_cases hold : index < file.length
    · rw [if_pos hold]
      rfl
    · rw [if_neg hold, hclean index (by omega)]
      rfl
  · rw [if_neg hbefore, if_pos (Nat.le_of_not_lt hbefore)]
    by_cases hin : index < offset + data.length
    · have hdata : index - offset < data.length := by omega
      rw [if_pos hin, if_pos (by omega), List.getElem?_eq_getElem hdata]
      rfl
    · rw [if_neg hin, List.getElem?_eq_none (by omega)]
      by_cases hold : index < file.length
      · rw [if_pos (by omega), if_pos hold]
        rfl
      · rw [if_neg (by omega), if_neg hold]

/-- The RAM files hold these contents, and what they do not hold is zero. -/
structure Stores (s : Storage) (contents : Bytes → Option Bytes) : Prop where
  read : ∀ name, s.read name = contents name
  distinct : ∀ name slot slot', s.HoldsName name slot →
    s.HoldsName name slot' → slot = slot'
  clean : ∀ slot index, (s.ramFiles slot).length ≤ index →
    (s.ramFiles slot).data index = 0
  unused : ∀ slot, (s.ramFiles slot).used = false →
    (s.ramFiles slot).length = 0

namespace Stores

variable {s t : Storage} {contents : Bytes → Option Bytes} {name : Bytes}

theorem isSome_contents (h : Stores s contents) :
    (contents name).isSome = true ↔ s.HasRamFile name := by
  rw [← h.read, Storage.isSome_read]

theorem findRamFile_eq (h : Stores s contents) {slot : Nat}
    (hslot : s.HoldsName name slot) : s.findRamFile name = some slot := by
  obtain ⟨slot', hfind⟩ :=
    Option.isSome_iff_exists.mp (Storage.isSome_findRamFile.mpr ⟨slot, hslot⟩)
  rw [hfind, h.distinct name slot' slot
    (Storage.holdsName_of_findRamFile hfind) hslot]

theorem read_eq (h : Stores s contents) {slot : Nat}
    (hslot : s.HoldsName name slot) :
    s.read name = some (s.ramFiles slot).contents := by
  rw [Storage.read, h.findRamFile_eq hslot]
  rfl

theorem read_eq_none (hnone : ¬ s.HasRamFile name) : s.read name = none := by
  rw [← Storage.isSome_read, Bool.not_eq_true, Option.isSome_eq_false_iff,
    Option.isNone_iff_eq_none] at hnone
  exact hnone

/-- There is a free slot exactly if fewer names than slots have contents. -/
theorem freeSlot_isSome (h : Stores s contents) :
    s.freeSlot.isSome = true ↔
      {name | (contents name).isSome = true}.ncard < maxRamFiles := by
  let used : Finset Nat :=
    (Finset.range maxRamFiles).filter fun slot => (s.ramFiles slot).used
  have hset : {name | (contents name).isSome = true} =
      ((used.image fun slot => (s.ramFiles slot).name : Finset Bytes) :
        Set Bytes) := by
    ext name
    simp only [Set.mem_ofPred_eq, h.isSome_contents, Finset.coe_image,
      Set.mem_image, used, Finset.coe_filter, Finset.mem_range,
      Storage.HasRamFile, Storage.HoldsName]
    constructor
    · rintro ⟨slot, hlt, hused, hname⟩
      exact ⟨slot, ⟨hlt, hused⟩, hname⟩
    · rintro ⟨slot, ⟨hlt, hused⟩, hname⟩
      exact ⟨slot, hlt, hused, hname⟩
  have hinj : Set.InjOn (fun slot => (s.ramFiles slot).name) used := by
    intro slot hslot slot' hslot' heq
    simp only [used, Finset.coe_filter, Finset.mem_range,
      Set.mem_ofPred_eq] at hslot hslot'
    exact h.distinct _ slot slot' ⟨hslot.1, hslot.2, rfl⟩
      ⟨hslot'.1, hslot'.2, heq.symm⟩
  rw [hset, Set.ncard_coe_finset, Finset.card_image_of_injOn hinj,
    Storage.freeSlot, List.find?_isSome]
  constructor
  · rintro ⟨slot, hslot, hfree⟩
    rw [List.mem_range] at hslot
    calc used.card < (Finset.range maxRamFiles).card := by
          apply Finset.card_lt_card
          refine ⟨Finset.filter_subset _ _, fun hsub => ?_⟩
          have := hsub (Finset.mem_range.mpr hslot)
          simp only [used, Finset.mem_filter] at this
          simp [this.2] at hfree
      _ = maxRamFiles := Finset.card_range _
  · intro hlt
    by_contra hnone
    have hall : used = Finset.range maxRamFiles := by
      apply Finset.filter_true_of_mem
      intro slot hslot
      by_contra hfree
      exact hnone ⟨slot, List.mem_range.mpr (Finset.mem_range.mp hslot),
        by simp [hfree]⟩
    rw [hall, Finset.card_range] at hlt
    exact Nat.lt_irrefl _ hlt

/-- A write to one slot leaves the other names as they are. -/
theorem write (h : Stores s contents) {slot : Nat} (file : RamFile)
    (hslot : slot < maxRamFiles) (hused : file.used = true)
    (hname : file.name = name)
    (hold : s.HoldsName name slot ∨
      (s.ramFiles slot).used = false ∧ ¬ s.HasRamFile name)
    (hclean : ∀ index, file.length ≤ index → file.data index = 0) :
    Stores { s with ramFiles := put s.ramFiles slot file }
      (Function.update contents name (some file.contents)) := by
  have hholds : ∀ name' slot', Storage.HoldsName
      { s with ramFiles := put s.ramFiles slot file } name' slot' →
      (slot' = slot ∧ name' = name) ∨
        (slot' ≠ slot ∧ name' ≠ name ∧ s.HoldsName name' slot') := by
    rintro name' slot' ⟨hlt, hu, hn⟩
    by_cases heq : slot' = slot
    · subst heq
      simp only [put_same] at hn
      exact Or.inl ⟨rfl, hn.symm.trans hname⟩
    · simp only [put_other heq] at hu hn
      refine Or.inr ⟨heq, ?_, hlt, hu, hn⟩
      rintro rfl
      rcases hold with hold | ⟨-, hnew⟩
      · exact heq (h.distinct _ slot' slot ⟨hlt, hu, hn⟩ hold)
      · exact hnew ⟨slot', hlt, hu, hn⟩
  have hdistinct : ∀ name' a b, Storage.HoldsName
      { s with ramFiles := put s.ramFiles slot file } name' a →
      Storage.HoldsName
        { s with ramFiles := put s.ramFiles slot file } name' b → a = b := by
    intro name' a b ha hb
    rcases hholds name' a ha with ⟨rfl, rfl⟩ | ⟨-, hne, ha⟩
    · rcases hholds name' b hb with ⟨rfl, -⟩ | ⟨-, hne, -⟩
      · rfl
      · exact absurd rfl hne
    · rcases hholds name' b hb with ⟨-, heq⟩ | ⟨-, -, hb⟩
      · exact absurd heq hne
      · exact h.distinct name' a b ha hb
  refine ⟨fun name' => ?_, hdistinct, fun slot' index => ?_, fun slot' => ?_⟩
  · cases hread : Storage.findRamFile
        { s with ramFiles := put s.ramFiles slot file } name' with
    | none =>
      have hnone := mt Storage.isSome_findRamFile.mpr
        (by simp [hread] : ¬ (Storage.findRamFile
          { s with ramFiles := put s.ramFiles slot file } name').isSome = true)
      have hne : name' ≠ name := by
        rintro rfl
        exact hnone ⟨slot, hslot, by simpa using hused, by simpa using hname⟩
      rw [Storage.read, hread, Function.update_of_ne hne, ← h.read,
        read_eq_none]
      · rfl
      · rintro ⟨slot', hlt, hu, hn⟩
        have hslot' : slot' ≠ slot := by
          rintro rfl
          rcases hold with ⟨-, -, hold⟩ | ⟨hold, -⟩
          · exact hne (hn.symm.trans hold)
          · rw [hu] at hold
            cases hold
        exact hnone ⟨slot', hlt, by simpa [hslot'] using hu,
          by simpa [hslot'] using hn⟩
    | some found =>
      rw [Storage.read, hread]
      show some (put s.ramFiles slot file found).contents = _
      rcases hholds name' found (Storage.holdsName_of_findRamFile hread) with
        ⟨rfl, rfl⟩ | ⟨hother, hne, hfound⟩
      · rw [put_same, Function.update_self]
      · rw [put_other hother, Function.update_of_ne hne, ← h.read,
          h.read_eq hfound]
  · by_cases heq : slot' = slot
    · subst heq
      simpa using hclean index
    · simpa [heq] using h.clean slot' index
  · by_cases heq : slot' = slot
    · subst heq
      simp [hused]
    · simpa [heq] using h.unused slot'

theorem create (h : Stores s contents) (hcreate : s.create name = .ok t) :
    Stores t (Function.update contents name (some [])) := by
  obtain ⟨slot, valid, hvalid, hnew, hfree, rfl⟩ := Storage.create_spec hcreate
  obtain ⟨hslot, hunused⟩ := Storage.freeSlot_spec hfree
  refine h.write _ hslot rfl (Storage.validateName_eq_ok hvalid)
    (Or.inr ⟨hunused, hnew⟩) ?_
  intro index _
  exact h.clean slot index (by rw [h.unused slot hunused]; exact Nat.zero_le _)

theorem writeAt (h : Stores s contents) {offset : Nat} {data : Bytes}
    (hwrite : s.writeAt name offset data = .ok t) :
    Stores t (Function.update contents name
      (some (splice ((contents name).getD []) offset data))) := by
  obtain ⟨slot, hfits, hfind, rfl⟩ := Storage.writeAt_spec hwrite
  have hslot := Storage.holdsName_of_findRamFile hfind
  have hclean : ∀ index,
      (Storage.storeAt (s.ramFiles slot) offset data hfits).length ≤ index →
      (Storage.storeAt (s.ramFiles slot) offset data hfits).data index = 0 := by
    intro index hindex
    rw [length_storeAt, Nat.max_le] at hindex
    rw [data_storeAt]
    by_cases hoff : offset ≤ index
    · rw [if_pos hoff, List.getElem?_eq_none (by omega), Option.getD_none]
      exact h.clean slot index hindex.1
    · rw [if_neg hoff]
      exact h.clean slot index hindex.1
  have hread : contents name = some (s.ramFiles slot).contents := by
    rw [← h.read, h.read_eq hslot]
  rw [hread, Option.getD_some, ← contents_storeAt (h.clean slot) hfits]
  exact h.write _ hslot.1 hslot.2.1 hslot.2.2 (Or.inl hslot) hclean

end Stores

end OpenKernel
