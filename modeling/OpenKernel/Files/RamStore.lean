import Mathlib.Data.List.Find
import OpenKernel.Files.FileModel

/-!
# The RAM files as a finite map

`RamMap` says what the RAM file store is for: at most 32 names of 1 to 63
bytes, each with at most 4096 bytes.  Every sequence of calls of `storage.rs`
gets the replies that the map gives, and the slots in use enumerate its names
(`ram_files_refine_map`).
-/

namespace OpenKernel

open Lib

/-! ## The map -/

/-- The names that `validate_name` lets through. -/
def RamFileName (name : Bytes) : Prop := name ≠ [] ∧ name.length < maxFileName

instance : DecidablePred RamFileName := fun name =>
  inferInstanceAs (Decidable (name ≠ [] ∧ name.length < maxFileName))

/-- The names that have contents. -/
def namesOf (contents : Bytes → Option Bytes) : Set Bytes :=
  {name | (contents name).isSome = true}

/-- A store of files by name. -/
structure RamMap where
  contents : Bytes → Option Bytes
  finite : (namesOf contents).Finite
  count_le : (namesOf contents).ncard ≤ maxRamFiles
  names : ∀ name bytes, contents name = some bytes → RamFileName name
  sizes : ∀ name bytes, contents name = some bytes → bytes.length ≤ maxRamFileSize

namespace RamMap

def empty : RamMap :=
  { contents := fun _ => none
    finite := by simp [namesOf]
    count_le := by simp [namesOf]
    names := fun _ _ h => nomatch h
    sizes := fun _ _ h => nomatch h }

/-- The names after one more name has contents. -/
theorem namesOf_update_some (contents : Bytes → Option Bytes) (name bytes : Bytes) :
    namesOf (Function.update contents name (some bytes)) =
      insert name (namesOf contents) := by
  ext other
  by_cases h : other = name
  · simp [namesOf, h]
  · simp [namesOf, h]

theorem namesOf_update_none (contents : Bytes → Option Bytes) (name : Bytes) :
    namesOf (Function.update contents name none) = namesOf contents \ {name} := by
  ext other
  by_cases h : other = name
  · simp [namesOf, h]
  · simp [namesOf, h]

/-- Give the name these contents. -/
def set (m : RamMap) (name bytes : Bytes) (hname : RamFileName name)
    (hroom : (m.contents name).isSome = true ∨ (namesOf m.contents).ncard < maxRamFiles)
    (hsize : bytes.length ≤ maxRamFileSize) : RamMap :=
  { contents := Function.update m.contents name (some bytes)
    finite := by
      rw [namesOf_update_some]
      exact m.finite.insert name
    count_le := by
      rw [namesOf_update_some]
      rcases hroom with hold | hroom
      · have hmem : name ∈ namesOf m.contents := hold
        rw [Set.insert_eq_of_mem hmem]
        exact m.count_le
      · exact (Set.ncard_insert_le name _).trans hroom
    names := fun other bytes' h => by
      by_cases hother : other = name
      · rw [hother]
        exact hname
      · rw [Function.update_of_ne hother] at h
        exact m.names other bytes' h
    sizes := fun other bytes' h => by
      by_cases hother : other = name
      · rw [hother, Function.update_self] at h
        rw [← Option.some.inj h]
        exact hsize
      · rw [Function.update_of_ne hother] at h
        exact m.sizes other bytes' h }

/-- Take the name away. -/
def erase (m : RamMap) (name : Bytes) : RamMap :=
  { contents := Function.update m.contents name none
    finite := by
      rw [namesOf_update_none]
      exact m.finite.sdiff
    count_le := by
      rw [namesOf_update_none]
      exact (Set.ncard_le_ncard Set.sdiff_subset m.finite).trans m.count_le
    names := fun other bytes h => by
      by_cases hother : other = name
      · rw [hother, Function.update_self] at h
        cases h
      · rw [Function.update_of_ne hother] at h
        exact m.names other bytes h
    sizes := fun other bytes h => by
      by_cases hother : other = name
      · rw [hother, Function.update_self] at h
        cases h
      · rw [Function.update_of_ne hother] at h
        exact m.sizes other bytes h }

theorem length_splice_le {bytes data : Bytes} {offset : Nat}
    (hbytes : bytes.length ≤ maxRamFileSize)
    (hfits : offset + data.length ≤ maxRamFileSize) :
    (splice bytes offset data).length ≤ maxRamFileSize := by
  simp only [splice, List.length_append, List.length_take, List.length_replicate,
    List.length_drop]
  omega

open Classical in
/-- A new empty file. -/
noncomputable def create (m : RamMap) (name : Bytes) : Except RamFsError RamMap :=
  if hname : RamFileName name then
    if (m.contents name).isSome then .error .alreadyExists
    else if hroom : (namesOf m.contents).ncard < maxRamFiles then
      .ok (m.set name [] hname (.inr hroom) (Nat.zero_le _))
    else .error .noSpace
  else .error .nameTooLong

/-- Replace the bytes from the offset on, after zeros that reach it. -/
def writeAt (m : RamMap) (name : Bytes) (offset : Nat) (data : Bytes) :
    Except RamFsError RamMap :=
  if hname : RamFileName name then
    if hfits : offset + data.length ≤ maxRamFileSize then
      match hbytes : m.contents name with
      | none => .error .notFound
      | some bytes =>
        .ok (m.set name (splice bytes offset data) hname
          (.inl (by rw [hbytes]; rfl))
          (length_splice_le (m.sizes name bytes hbytes) hfits))
    else .error .fileTooLarge
  else .error .nameTooLong

def delete (m : RamMap) (name : Bytes) : Except RamFsError RamMap :=
  if RamFileName name then
    if (m.contents name).isSome then .ok (m.erase name) else .error .notFound
  else .error .nameTooLong

end RamMap

/-! ## Calls -/

inductive RamCall
  | create (name : Bytes)
  | write (name data : Bytes)
  | writeAt (name : Bytes) (offset : Nat) (data : Bytes)
  | delete (name : Bytes)
  | read (name : Bytes)
  | count

inductive RamReply
  | done
  | failed (error : RamFsError)
  | contents (bytes : Option Bytes)
  | number (count : Nat)
  deriving DecidableEq

/-- The end of a call that can fail; a failure leaves the state. -/
def endCall {σ : Type} (s : σ) : Except RamFsError σ → RamReply × σ
  | .ok t => (.done, t)
  | .error e => (.failed e, s)

/-- A call of `storage.rs`. -/
def Storage.perform (s : Storage) : RamCall → RamReply × Storage
  | .create name => endCall s (s.create name)
  | .write name data => endCall s (s.write name data)
  | .writeAt name offset data => endCall s (s.writeAt name offset data)
  | .delete name => endCall s (s.delete name)
  | .read name => (.contents (s.read name), s)
  | .count => (.number s.ramFileCount, s)

noncomputable def RamMap.perform (m : RamMap) : RamCall → RamReply × RamMap
  | .create name => endCall m (m.create name)
  | .write name data => endCall m (m.writeAt name 0 data)
  | .writeAt name offset data => endCall m (m.writeAt name offset data)
  | .delete name => endCall m (m.delete name)
  | .read name => (.contents (m.contents name), m)
  | .count => (.number (namesOf m.contents).ncard, m)

/-- The replies to a list of calls, and the state after them. -/
def Storage.performAll (s : Storage) : List RamCall → List RamReply × Storage
  | [] => ([], s)
  | call :: calls =>
    let (reply, s) := s.perform call
    let (replies, s) := s.performAll calls
    (reply :: replies, s)

noncomputable def RamMap.performAll (m : RamMap) : List RamCall → List RamReply × RamMap
  | [] => ([], m)
  | call :: calls =>
    let (reply, m) := m.perform call
    let (replies, m) := m.performAll calls
    (reply :: replies, m)

/-! ## One call -/

theorem validateName_of_not {name : Bytes} (h : ¬ RamFileName name) :
    validateName name = .error .nameTooLong := dif_neg h

namespace Stores

variable {s t : Storage} {contents : Bytes → Option Bytes} {name : Bytes}

theorem isSome_findRamFile (h : Stores s contents) :
    (s.findRamFile name).isSome = (contents name).isSome := by
  rw [Bool.eq_iff_iff, Storage.isSome_findRamFile, h.isSome_contents]

/-- An emptied slot holds nothing, and what it held is gone. -/
theorem delete (h : Stores s contents) {slot : Nat} (hslot : s.HoldsName name slot) :
    Stores { s with ramFiles := put s.ramFiles slot .empty }
      (Function.update contents name none) := by
  have hholds : ∀ name' slot', Storage.HoldsName
      { s with ramFiles := put s.ramFiles slot .empty } name' slot' ↔
      slot' ≠ slot ∧ s.HoldsName name' slot' := by
    intro name' slot'
    by_cases heq : slot' = slot
    · simp [Storage.HoldsName, heq, RamFile.empty]
    · simp [Storage.HoldsName, heq]
  refine ⟨fun name' => ?_, fun name' a b ha hb => ?_, fun a index => ?_, fun a => ?_⟩
  · by_cases hname : name' = name
    · rw [hname, Function.update_self]
      apply read_eq_none
      rintro ⟨slot', hslot'⟩
      obtain ⟨hne, hold⟩ := (hholds name slot').mp hslot'
      exact hne (h.distinct name slot' slot hold hslot)
    · rw [Function.update_of_ne hname, ← h.read]
      have htest : ∀ slot' ∈ List.range maxRamFiles,
          ((put s.ramFiles slot .empty slot').used &&
            namesEqual (put s.ramFiles slot .empty slot').name name') =
          ((s.ramFiles slot').used && namesEqual (s.ramFiles slot').name name') := by
        intro slot' _
        by_cases heq : slot' = slot
        · have hother : namesEqual (s.ramFiles slot).name name' = false := by
            rw [← Bool.not_eq_true, namesEqual_iff, hslot.2.2]
            exact Ne.symm hname
          rw [heq, put_same, hother, Bool.and_false]
          rfl
        · rw [put_other heq]
      have hfind : Storage.findRamFile
          { s with ramFiles := put s.ramFiles slot .empty } name' =
          s.findRamFile name' := by
        unfold Storage.findRamFile
        exact List.find?_congr htest
      unfold Storage.read
      rw [hfind]
      cases hfound : s.findRamFile name' with
      | none => rfl
      | some slot' =>
        have hne : slot' ≠ slot := by
          rintro rfl
          have hnames := (Storage.holdsName_of_findRamFile hfound).2.2
          exact hname (hnames.symm.trans hslot.2.2)
        show some (put s.ramFiles slot .empty slot').contents = _
        rw [put_other hne]
        rfl
  · exact h.distinct name' a b ((hholds name' a).mp ha).2 ((hholds name' b).mp hb).2
  · by_cases heq : a = slot
    · simp [heq, RamFile.empty]
    · simpa [heq] using h.clean a index
  · by_cases heq : a = slot
    · simp [heq, RamFile.empty]
    · simpa [heq] using h.unused a

end Stores

/-- The store and the map answer alike and stay related. -/
def CallsAgree (s : Storage) (m : RamMap) (call : RamCall) : Prop :=
  (s.perform call).1 = (m.perform call).1 ∧
    Stores (s.perform call).2 (m.perform call).2.contents

section Calls

variable {s : Storage} {m : RamMap} {name : Bytes}

/-- Both fail in the same way. -/
theorem callsAgree_error {call : RamCall} {e : RamFsError} (h : Stores s m.contents)
    (hs : s.perform call = (.failed e, s)) (hm : m.perform call = (.failed e, m)) :
    CallsAgree s m call := by
  unfold CallsAgree
  rw [hs, hm]
  exact ⟨rfl, h⟩

theorem Stores.create_agrees (h : Stores s m.contents) (name : Bytes) :
    CallsAgree s m (.create name) := by
  by_cases hname : RamFileName name
  · have hvalid := Storage.validateName_of_lt hname.1 hname.2
    cases hold : (m.contents name).isSome with
    | true =>
      apply callsAgree_error (e := .alreadyExists) h
      · simp [Storage.perform, Storage.create, hvalid, h.isSome_findRamFile, hold, endCall]
      · simp [RamMap.perform, RamMap.create, hname, hold, endCall]
    | false =>
      by_cases hroom : (namesOf m.contents).ncard < maxRamFiles
      · obtain ⟨slot, hfree⟩ := Option.isSome_iff_exists.mp (h.freeSlot_isSome.mpr hroom)
        cases hcreate : s.create name with
        | error e =>
          simp [Storage.create, hvalid, h.isSome_findRamFile, hold, hfree] at hcreate
        | ok t =>
          have hmap : m.create name =
              .ok (m.set name [] hname (.inr hroom) (Nat.zero_le _)) := by
            simp [RamMap.create, hname, hold, hroom]
          unfold CallsAgree Storage.perform RamMap.perform
          dsimp only
          rw [hcreate, hmap]
          exact ⟨rfl, h.create hcreate⟩
      · have hfull : s.freeSlot = none := by
          rw [← Option.not_isSome_iff_eq_none, h.freeSlot_isSome]
          exact hroom
        apply callsAgree_error (e := .noSpace) h
        · simp [Storage.perform, Storage.create, hvalid, h.isSome_findRamFile, hold,
            hfull, endCall]
        · simp [RamMap.perform, RamMap.create, hname, hold, hroom, endCall]
  · apply callsAgree_error (e := .nameTooLong) h
    · simp [Storage.perform, Storage.create, validateName_of_not hname, endCall]
    · simp [RamMap.perform, RamMap.create, hname, endCall]

theorem Stores.writeAt_agrees (h : Stores s m.contents) (name : Bytes) (offset : Nat)
    (data : Bytes) : CallsAgree s m (.writeAt name offset data) := by
  by_cases hname : RamFileName name
  · have hvalid := Storage.validateName_of_lt hname.1 hname.2
    by_cases hfits : offset + data.length ≤ maxRamFileSize
    · cases hbytes : m.contents name with
      | none =>
        have hfind : s.findRamFile name = none := by
          rw [← Option.not_isSome_iff_eq_none, h.isSome_findRamFile, hbytes]
          exact Bool.false_ne_true
        apply callsAgree_error (e := .notFound) h
        · simp [Storage.perform, Storage.writeAt, hvalid, hfits, hfind, endCall]
        · unfold RamMap.perform RamMap.writeAt
          dsimp only
          rw [dif_pos hname, dif_pos hfits]
          split
          · rfl
          · rename_i hsome
            rw [hbytes] at hsome
            cases hsome
      | some bytes =>
        have hsome : (s.findRamFile name).isSome := by
          rw [h.isSome_findRamFile, hbytes]
          rfl
        obtain ⟨slot, hfind⟩ := Option.isSome_iff_exists.mp hsome
        cases hwrite : s.writeAt name offset data with
        | error e => simp [Storage.writeAt, hvalid, hfits, hfind] at hwrite
        | ok t =>
          have hmap : ∃ hroom, m.writeAt name offset data = .ok (m.set name
              (splice bytes offset data) hname hroom
              (RamMap.length_splice_le (m.sizes name bytes hbytes) hfits)) := by
            unfold RamMap.writeAt
            rw [dif_pos hname, dif_pos hfits]
            split
            · rename_i hnone
              rw [hbytes] at hnone
              cases hnone
            · rename_i bytes' hbytes'
              obtain rfl := Option.some.inj (hbytes.symm.trans hbytes')
              exact ⟨.inl (by rw [hbytes]; rfl), rfl⟩
          obtain ⟨hroom, hmap⟩ := hmap
          unfold CallsAgree Storage.perform RamMap.perform
          dsimp only
          rw [hwrite, hmap]
          refine ⟨rfl, ?_⟩
          have hstores := h.writeAt hwrite
          rw [hbytes, Option.getD_some] at hstores
          exact hstores
    · apply callsAgree_error (e := .fileTooLarge) h
      · simp [Storage.perform, Storage.writeAt, hvalid, hfits, endCall]
      · simp [RamMap.perform, RamMap.writeAt, hname, hfits, endCall]
  · apply callsAgree_error (e := .nameTooLong) h
    · simp [Storage.perform, Storage.writeAt, validateName_of_not hname, endCall]
    · simp [RamMap.perform, RamMap.writeAt, hname, endCall]

theorem Stores.delete_agrees (h : Stores s m.contents) (name : Bytes) :
    CallsAgree s m (.delete name) := by
  by_cases hname : RamFileName name
  · have hvalid := Storage.validateName_of_lt hname.1 hname.2
    cases hfind : s.findRamFile name with
    | none =>
      have hold : (m.contents name).isSome = false := by
        rw [← h.isSome_findRamFile, hfind]
        rfl
      apply callsAgree_error (e := .notFound) h
      · simp [Storage.perform, Storage.delete, hvalid, hfind, endCall]
      · simp [RamMap.perform, RamMap.delete, hname, hold, endCall]
    | some slot =>
      have hold : (m.contents name).isSome = true := by
        rw [← h.isSome_findRamFile, hfind]
        rfl
      have hs : s.delete name = .ok { s with ramFiles := put s.ramFiles slot .empty } := by
        simp [Storage.delete, hvalid, hfind]
      have hm : m.delete name = .ok (m.erase name) := by
        simp [RamMap.delete, hname, hold]
      unfold CallsAgree Storage.perform RamMap.perform
      dsimp only
      rw [hs, hm]
      exact ⟨rfl, h.delete (Storage.holdsName_of_findRamFile hfind)⟩
  · apply callsAgree_error (e := .nameTooLong) h
    · simp [Storage.perform, Storage.delete, validateName_of_not hname, endCall]
    · simp [RamMap.perform, RamMap.delete, hname, endCall]

end Calls

/-! ## Enumeration -/

namespace Storage

/-- The slots in use, in order. -/
def usedSlots (s : Storage) : List Nat :=
  (List.range maxRamFiles).filter fun slot => (s.ramFiles slot).used

theorem mem_usedSlots {s : Storage} {slot : Nat} :
    slot ∈ s.usedSlots ↔ slot < maxRamFiles ∧ (s.ramFiles slot).used = true := by
  simp [usedSlots]

/-- The names of the slots in use, in order. -/
def ramFileNames (s : Storage) : List Bytes :=
  s.usedSlots.map fun slot => (s.ramFiles slot).name

theorem ramFileCount_eq (s : Storage) : s.ramFileCount = s.ramFileNames.length := by
  simp [ramFileCount, ramFileNames, usedSlots]

/-- With room for any name, `ram_file_name` goes through the names. -/
theorem ramFileName_eq (s : Storage) {capacity : Nat} (hcapacity : maxFileName ≤ capacity + 1)
    (index : Nat) : s.ramFileName index capacity = s.ramFileNames[index]? := by
  unfold ramFileName ramFileNames
  rw [List.getElem?_map]
  show (do let slot ← s.usedSlots[index]?; _) = _
  cases s.usedSlots[index]? with
  | none => rfl
  | some slot =>
    have hname := (s.ramFiles slot).name_lt
    have hfits : ¬ capacity < (s.ramFiles slot).name.length := by omega
    show (if _ then none else _) = _
    rw [if_neg hfits]
    rfl

end Storage

section Enumeration

variable {s : Storage} {contents : Bytes → Option Bytes}

theorem Stores.mem_ramFileNames (h : Stores s contents) {name : Bytes} :
    name ∈ s.ramFileNames ↔ name ∈ namesOf contents := by
  show _ ↔ (contents name).isSome = true
  rw [h.isSome_contents]
  simp only [Storage.ramFileNames, List.mem_map, Storage.mem_usedSlots,
    Storage.HasRamFile, Storage.HoldsName, and_assoc]

theorem Stores.nodup_ramFileNames (h : Stores s contents) : s.ramFileNames.Nodup := by
  apply List.Nodup.map_on
  · intro slot hslot slot' hslot' heq
    rw [Storage.mem_usedSlots] at hslot hslot'
    exact h.distinct _ slot slot' ⟨hslot.1, hslot.2, rfl⟩ ⟨hslot'.1, hslot'.2, heq.symm⟩
  · exact List.nodup_range.filter _

theorem Stores.ramFileCount (h : Stores s contents) :
    s.ramFileCount = (namesOf contents).ncard := by
  have hset : (namesOf contents : Set Bytes) = (s.ramFileNames.toFinset : Finset Bytes) := by
    ext name
    rw [← h.mem_ramFileNames]
    simp
  rw [hset, Set.ncard_coe_finset, List.toFinset_card_of_nodup h.nodup_ramFileNames,
    Storage.ramFileCount_eq]

end Enumeration

/-- The numbers below the count give every name that has contents, each
once. -/
structure Enumerates (s : Storage) (contents : Bytes → Option Bytes)
    (capacity : Nat) : Prop where
  count : s.ramFileCount = (namesOf contents).ncard
  name : ∀ index < s.ramFileCount,
    ∃ name ∈ namesOf contents, s.ramFileName index capacity = some name
  index : ∀ name ∈ namesOf contents,
    ∃! index, index < s.ramFileCount ∧ s.ramFileName index capacity = some name

theorem Stores.enumerates {s : Storage} {contents : Bytes → Option Bytes}
    (h : Stores s contents) {capacity : Nat} (hcapacity : maxFileName ≤ capacity + 1) :
    Enumerates s contents capacity where
  count := h.ramFileCount
  name index hindex := by
    rw [s.ramFileCount_eq] at hindex
    refine ⟨s.ramFileNames[index], ?_, ?_⟩
    · rw [← h.mem_ramFileNames]
      exact List.getElem_mem hindex
    · rw [s.ramFileName_eq hcapacity, List.getElem?_eq_getElem hindex]
  index name hname := by
    rw [← h.mem_ramFileNames] at hname
    obtain ⟨index, hindex, heq⟩ := List.getElem_of_mem hname
    refine ⟨index, ⟨by rwa [s.ramFileCount_eq], ?_⟩, ?_⟩
    · show s.ramFileName index capacity = some name
      rw [s.ramFileName_eq hcapacity, List.getElem?_eq_getElem hindex, heq]
    · rintro index' ⟨hindex', heq'⟩
      rw [s.ramFileCount_eq] at hindex'
      rw [s.ramFileName_eq hcapacity, List.getElem?_eq_getElem hindex',
        Option.some.injEq] at heq'
      exact (h.nodup_ramFileNames.getElem_inj_iff).mp (heq'.trans heq.symm)

/-! ## Runs -/

theorem Stores.perform {s : Storage} {m : RamMap} (h : Stores s m.contents)
    (call : RamCall) : CallsAgree s m call := by
  cases call with
  | create name => exact h.create_agrees name
  | write name data => exact h.writeAt_agrees name 0 data
  | writeAt name offset data => exact h.writeAt_agrees name offset data
  | delete name => exact h.delete_agrees name
  | read name => exact ⟨congrArg RamReply.contents (h.read name), h⟩
  | count => exact ⟨congrArg RamReply.number h.ramFileCount, h⟩

theorem Stores.performAll {s : Storage} {m : RamMap} (h : Stores s m.contents)
    (calls : List RamCall) :
    (s.performAll calls).1 = (m.performAll calls).1 ∧
      Stores (s.performAll calls).2 (m.performAll calls).2.contents := by
  induction calls generalizing s m with
  | nil => exact ⟨rfl, h⟩
  | cons call calls ih =>
    obtain ⟨hreply, hnext⟩ := h.perform call
    obtain ⟨hreplies, hend⟩ := ih hnext
    exact ⟨congrArg₂ List.cons hreply hreplies, hend⟩

/-- The storage at boot, with its boot files and no RAM file. -/
def Storage.withoutRamFiles (s : Storage) : Storage :=
  { s with ramFiles := fun _ => .empty }

theorem stores_withoutRamFiles (s : Storage) :
    Stores s.withoutRamFiles RamMap.empty.contents := by
  refine ⟨fun name => ?_, ?_, fun _ _ _ => rfl, fun _ _ => rfl⟩
  · exact Stores.read_eq_none fun ⟨_, _, hused, _⟩ => nomatch hused
  · intro name slot slot' hslot
    exact nomatch hslot.2.1

/-- Every sequence of calls gets the replies of the map and ends in the state
of the map; there `read` gives the contents of each name, and the names are
enumerated. -/
theorem ram_files_refine_map (s : Storage) (calls : List RamCall) :
    (s.withoutRamFiles.performAll calls).1 = (RamMap.empty.performAll calls).1 ∧
      (∀ name, (s.withoutRamFiles.performAll calls).2.read name =
        (RamMap.empty.performAll calls).2.contents name) ∧
      ∀ capacity, Enumerates (s.withoutRamFiles.performAll calls).2
        (RamMap.empty.performAll calls).2.contents (capacity + (maxFileName - 1)) := by
  obtain ⟨hreplies, hstores⟩ := (stores_withoutRamFiles s).performAll calls
  refine ⟨hreplies, hstores.read, fun capacity => hstores.enumerates ?_⟩
  unfold maxFileName
  omega

/-- A file that takes the slot of a deleted one reads as zeros in a gap. -/
example : (Storage.empty.performAll
    [.create [0x61], .write [0x61] [1, 2, 3], .delete [0x61], .create [0x62],
      .writeAt [0x62] 2 [9], .read [0x62]]).1 =
    [.done, .done, .done, .done, .done, .contents (some [0, 0, 9])] := by
  decide

end OpenKernel
