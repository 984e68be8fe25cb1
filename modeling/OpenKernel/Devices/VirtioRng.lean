import Mathlib.Data.List.Basic
import OpenKernel.Lib.Put
import OpenKernel.Lib.Runs

/-!
# The virtio random device

The model of `fill_virtio` in `random.rs` together with the device.  Driver
and device share the descriptor, the two rings and one buffer; each goes on
in steps of its own, in any interleaving.  The device answers the requests in
order: it fetches the length from the descriptor, writes bytes into the
buffer and puts the number it has written into the used ring.

Ghost fields say where bytes come from.  `completed` counts the device
writes, so it is the number of the write that is next or under way; every
byte of the buffer carries the number of the write that put it there.
-/

namespace OpenKernel

open Lib

/-- The attempts of the polling loop. -/
def pollAttempts : Nat := 1_000_000

/-- A byte with the device write that it comes from.  There is none for what
lay in the buffer before. -/
structure SourcedByte where
  byte : UInt8
  source : Option Nat
  deriving DecidableEq

/-- Where the driver is in `fill_virtio`. -/
inductive DriverPhase
  | idle
  /-- the descriptor is written for an output of `length` bytes -/
  | submitting (length : Nat)
  | polling (length attempts : Nat)
  /-- `count` bytes are to be copied, of which some are -/
  | copying (count length : Nat) (copied : List SourcedByte)
  deriving DecidableEq

inductive DevicePhase
  | idle
  /-- `index` bytes of at most `length` are written -/
  | writing (length index : Nat)
  deriving DecidableEq

/-- The statics of the driver, the shared memory and the device. -/
structure VirtioRng where
  ringSize : Nat
  /-- `VIRTIO_AVAILABLE_INDEX` and `VIRTIO_USED_INDEX` -/
  availableIndex : UInt16
  usedIndex : UInt16
  phase : DriverPhase
  /-- the length in the descriptor and the indices of the two rings -/
  descriptorLength : Nat
  sharedAvailable : UInt16
  sharedUsed : UInt16
  usedLengths : Nat → Nat
  buffer : Nat → SourcedByte
  /-- the available entries that the device has taken -/
  seen : UInt16
  device : DevicePhase
  completed : Nat
  written : Nat → List UInt8
  /-- the outputs of the calls that returned `Ok`, oldest first -/
  fills : List (List SourcedByte)

inductive VirtioAction
  /-- `fill_virtio` with an output of that length -/
  | fill (length : Nat)
  | publish
  | poll
  | copy
  /-- the device takes the next request, writes a byte of it, ends it -/
  | fetch
  | write (byte : UInt8)
  | complete
  deriving DecidableEq

namespace VirtioRng

/-- The used element of the driver's next answer. -/
def answerLength (s : VirtioRng) : Nat :=
  s.usedLengths (s.usedIndex.toNat % s.ringSize)

/-- One turn of the polling loop. -/
def poll (s : VirtioRng) (length attempts : Nat) : VirtioRng :=
  if s.sharedUsed ≠ s.usedIndex then
    { s with
      usedIndex := s.usedIndex + 1
      phase := .copying (min s.answerLength length) length [] }
  else
    { s with phase := if attempts = 0 then .idle else .polling length attempts }

/-- One turn of the copy loop, or the return after it. -/
def copy (s : VirtioRng) (count length : Nat) (copied : List SourcedByte) :
    VirtioRng :=
  if copied.length < count then
    { s with
      phase := .copying count length (copied ++ [s.buffer copied.length]) }
  else
    { s with
      phase := .idle
      fills := if count = length then s.fills ++ [copied] else s.fills }

def step (s : VirtioRng) : VirtioAction → Option VirtioRng
  | .fill length =>
    if s.phase = .idle ∧ 0 < length ∧ length ≤ 4096 then
      some { s with
        descriptorLength := length
        phase := .submitting length }
    else none
  | .publish =>
    match s.phase with
    | .submitting length =>
      some { s with
        sharedAvailable := s.availableIndex + 1
        availableIndex := s.availableIndex + 1
        phase := .polling length pollAttempts }
    | _ => none
  | .poll =>
    match s.phase with
    | .polling length (attempts + 1) => some (s.poll length attempts)
    | _ => none
  | .copy =>
    match s.phase with
    | .copying count length copied => some (s.copy count length copied)
    | _ => none
  | .fetch =>
    if s.device = .idle ∧ s.seen ≠ s.sharedAvailable then
      some { s with device := .writing s.descriptorLength 0 }
    else none
  | .write byte =>
    match s.device with
    | .writing length index =>
      if index < length then
        some { s with
          buffer := put s.buffer index ⟨byte, some s.completed⟩
          written :=
            put s.written s.completed (s.written s.completed ++ [byte])
          device := .writing length (index + 1) }
      else none
    | .idle => none
  | .complete =>
    match s.device with
    | .writing _ index =>
      some { s with
        usedLengths :=
          put s.usedLengths (s.sharedUsed.toNat % s.ringSize) index
        sharedUsed := s.sharedUsed + 1
        seen := s.seen + 1
        device := .idle
        completed := s.completed + 1 }
    | .idle => none

/-- The state that `initialize` leaves, with what lies in the buffer frame. -/
def initial (ringSize : Nat) (frame : Nat → UInt8) : VirtioRng :=
  { ringSize
    availableIndex := 0
    usedIndex := 0
    phase := .idle
    descriptorLength := 0
    sharedAvailable := 0
    sharedUsed := 0
    usedLengths := fun _ => 0
    buffer := fun index => ⟨frame index, none⟩
    seen := 0
    device := .idle
    completed := 0
    written := fun _ => []
    fills := [] }

/-! ## Random bytes are handed out once -/

/-- No device write has bytes in two outputs, and every byte handed out is
the one that a finished device write has put at its place. -/
structure HandedOutOnce (s : VirtioRng) : Prop where
  distinct : s.fills.Pairwise fun a b =>
    ∀ write, some write ∈ a.map (·.source) → some write ∉ b.map (·.source)
  fromDevice : ∀ fill ∈ s.fills, ∀ (index : Nat) (cell : SourcedByte),
    fill[index]? = some cell → ∃ write < s.completed, cell.source = some write ∧
      (s.written write)[index]? = some cell.byte

/-- No request of an earlier call is unanswered when a call starts. -/
def Answered (s : VirtioRng) : VirtioAction → Prop
  | .fill _ => s.availableIndex = s.usedIndex
  | _ => True

instance (s : VirtioRng) : DecidablePred s.Answered
  | .fill _ => inferInstanceAs (Decidable (s.availableIndex = s.usedIndex))
  | .publish | .poll | .copy | .fetch | .write _ | .complete =>
    inferInstanceAs (Decidable True)

/-- Every output comes from writes before `bound`. -/
def Before (s : VirtioRng) (bound : Nat) : Prop :=
  ∀ fill ∈ s.fills, ∀ cell ∈ fill, ∀ write, cell.source = some write →
    write < bound

/-- The first `count` bytes of the buffer are those of the last write. -/
def Holds (s : VirtioRng) (last count : Nat) : Prop :=
  s.completed = last + 1 ∧ s.Before last ∧
    ∀ index < count, (s.buffer index).source = some last

/-- Nothing is under way. -/
structure Settled (s : VirtioRng) : Prop where
  available : s.availableIndex = s.usedIndex
  used : s.sharedUsed = s.usedIndex
  seen : s.seen = s.usedIndex
  device : s.device = .idle

/-- One request is out, and the device has answered it or not. -/
structure Outstanding (s : VirtioRng) : Prop where
  available : s.availableIndex = s.usedIndex + 1
  answer :
    (s.sharedUsed = s.usedIndex ∧ s.seen = s.usedIndex ∧
      s.Before s.completed) ∨
    (s.sharedUsed = s.usedIndex + 1 ∧ s.seen = s.usedIndex + 1 ∧
      s.device = .idle ∧ ∃ last, s.Holds last s.answerLength)

/-- What holds at each place of the driver. -/
def Progress (s : VirtioRng) : Prop :=
  match s.phase with
  | .idle => (s.Settled ∧ s.Before s.completed) ∨ s.Outstanding
  | .submitting _ => s.Settled ∧ s.Before s.completed
  | .polling _ _ => s.Outstanding
  | .copying count _ copied =>
    s.Settled ∧ copied.length ≤ count ∧
      copied = (List.range copied.length).map s.buffer ∧
      ∃ last, s.Holds last count

/-- The sources of the bytes, whatever the driver does. -/
structure Traced (s : VirtioRng) : Prop where
  buffer : ∀ index write, (s.buffer index).source = some write →
    (s.written write)[index]? = some (s.buffer index).byte
  future : ∀ write, s.completed < write → s.written write = []
  current :
    match s.device with
    | .idle => s.written s.completed = []
    | .writing _ index =>
      (s.written s.completed).length = index ∧
        ∀ i < index, (s.buffer i).source = some s.completed

structure Inv (s : VirtioRng) : Prop where
  shared : s.sharedAvailable = s.availableIndex
  traced : s.Traced
  progress : s.Progress
  once : s.HandedOutOnce

theorem inv_initial (ringSize : Nat) (frame : Nat → UInt8) :
    (initial ringSize frame).Inv := by
  refine ⟨rfl, ⟨?_, fun _ _ => rfl, rfl⟩, ?_, ⟨List.Pairwise.nil, ?_⟩⟩
  · intro index write hsource
    cases hsource
  · refine Or.inl ⟨⟨rfl, rfl, rfl, rfl⟩, ?_⟩
    intro fill hfill
    cases hfill
  · intro fill hfill
    cases hfill

theorem add_one_ne (index : UInt16) : index + 1 ≠ index := by
  intro h
  simp at h

variable {s t : VirtioRng}

/-- A step that changes neither the buffer nor the device keeps the
sources. -/
theorem Traced.of_same (h : s.Traced) (hbuffer : t.buffer = s.buffer)
    (hwritten : t.written = s.written) (hcompleted : t.completed = s.completed)
    (hdevice : t.device = s.device) : t.Traced := by
  obtain ⟨h1, h2, h3⟩ := h
  refine ⟨?_, ?_, ?_⟩
  · rwa [hbuffer, hwritten]
  · rwa [hwritten, hcompleted]
  · rwa [hdevice, hwritten, hbuffer, hcompleted]

theorem HandedOutOnce.of_same (h : s.HandedOutOnce) (hfills : t.fills = s.fills)
    (hwritten : t.written = s.written)
    (hcompleted : t.completed = s.completed) : t.HandedOutOnce := by
  obtain ⟨h1, h2⟩ := h
  refine ⟨?_, ?_⟩
  · rwa [hfills]
  · rwa [hfills, hwritten, hcompleted]

/-- The first bytes of the buffer, copied, are an output that no earlier one
shares a write with. -/
theorem HandedOutOnce.append (h : s.HandedOutOnce) (htraced : s.Traced)
    {last count : Nat} (hholds : s.Holds last count)
    (hfills : t.fills = s.fills ++ [(List.range count).map s.buffer])
    (hwritten : t.written = s.written)
    (hcompleted : t.completed = s.completed) : t.HandedOutOnce := by
  obtain ⟨hlast, hbefore, hsource⟩ := hholds
  refine ⟨?_, ?_⟩
  · rw [hfills, List.pairwise_append]
    refine ⟨h.distinct, List.pairwise_singleton _ _, ?_⟩
    intro old hold new hnew write hwrite hagain
    rw [List.mem_singleton.mp hnew, List.map_map, List.mem_map] at hagain
    obtain ⟨index, hindex, heq⟩ := hagain
    have hlt : write < last := by
      obtain ⟨cell, hcell, hcellSource⟩ := List.mem_map.mp hwrite
      exact hbefore old hold cell hcell write hcellSource
    have hsame : some write = some last := by
      rw [← heq]
      exact hsource index (List.mem_range.mp hindex)
    rw [Option.some.inj hsame] at hlt
    exact Nat.lt_irrefl last hlt
  · rw [hfills, hwritten, hcompleted]
    intro fill hfill index cell hcell
    rcases List.mem_append.mp hfill with hold | hnew
    · exact h.fromDevice fill hold index cell hcell
    · rw [List.mem_singleton.mp hnew, List.getElem?_map,
        Option.map_eq_some_iff] at hcell
      obtain ⟨i, hi, rfl⟩ := hcell
      obtain ⟨hlt, rfl⟩ := List.getElem?_eq_some_iff.mp hi
      rw [List.getElem_range] at *
      have hindex : index < count := by simpa using hlt
      refine ⟨last, by omega, hsource index hindex, ?_⟩
      exact htraced.buffer index last (hsource index hindex)

theorem Inv.fill {length : Nat} (h : s.Inv) (hguard : s.Answered (.fill length))
    (hstep : s.step (.fill length) = some t) : t.Inv := by
  simp only [step] at hstep
  split at hstep
  · rename_i hready
    obtain rfl := Option.some.inj hstep
    have hprogress := h.progress
    simp only [Progress, hready.1] at hprogress
    rcases hprogress with hsettled | hout
    · refine ⟨h.shared, h.traced.of_same rfl rfl rfl rfl, ?_,
        h.once.of_same rfl rfl rfl⟩
      obtain ⟨⟨h1, h2, h3, h4⟩, hbefore⟩ := hsettled
      exact ⟨⟨h1, h2, h3, h4⟩, hbefore⟩
    · exact absurd (hout.available.symm.trans hguard) (add_one_ne _)
  · cases hstep

theorem Inv.publish (h : s.Inv) (hstep : s.step .publish = some t) :
    t.Inv := by
  simp only [step] at hstep
  split at hstep
  · rename_i length hphase
    obtain rfl := Option.some.inj hstep
    have hprogress := h.progress
    simp only [Progress, hphase] at hprogress
    obtain ⟨hsettled, hbefore⟩ := hprogress
    refine ⟨rfl, h.traced.of_same rfl rfl rfl rfl, ?_,
      h.once.of_same rfl rfl rfl⟩
    refine ⟨?_, Or.inl ⟨hsettled.used, hsettled.seen, hbefore⟩⟩
    show s.availableIndex + 1 = s.usedIndex + 1
    rw [hsettled.available]
  · cases hstep

theorem Inv.poll (h : s.Inv) (hstep : s.step .poll = some t) : t.Inv := by
  simp only [step] at hstep
  split at hstep
  · rename_i length attempts hphase
    obtain rfl := Option.some.inj hstep
    have hprogress := h.progress
    simp only [Progress, hphase] at hprogress
    unfold VirtioRng.poll
    split
    · rename_i hanswer
      refine ⟨h.shared, h.traced.of_same rfl rfl rfl rfl, ?_,
        h.once.of_same rfl rfl rfl⟩
      rcases hprogress.answer with ⟨hused, -⟩ | hanswered
      · exact absurd hused hanswer
      · obtain ⟨hused, hseen, hdevice, last, hlast, hbefore, hsource⟩ :=
          hanswered
        refine ⟨⟨hprogress.available, hused, hseen, hdevice⟩, Nat.zero_le _,
          rfl, last, hlast, hbefore, fun index hindex => ?_⟩
        exact hsource index (Nat.lt_of_lt_of_le hindex (Nat.min_le_left _ _))
    · refine ⟨h.shared, h.traced.of_same rfl rfl rfl rfl, ?_,
        h.once.of_same rfl rfl rfl⟩
      have hout : Outstanding
          { s with
            phase := if attempts = 0 then .idle
              else .polling length attempts } :=
        ⟨hprogress.available, hprogress.answer⟩
      by_cases hlast : attempts = 0
      · simp only [hlast, if_true] at hout ⊢
        exact Or.inr hout
      · simp only [hlast, if_false] at hout ⊢
        exact hout
  · cases hstep

theorem Inv.copy (h : s.Inv) (hstep : s.step .copy = some t) : t.Inv := by
  simp only [step] at hstep
  split at hstep
  · rename_i count length copied hphase
    obtain rfl := Option.some.inj hstep
    have hprogress := h.progress
    simp only [Progress, hphase] at hprogress
    obtain ⟨hsettled, hle, hcopied, last, hholds⟩ := hprogress
    obtain ⟨h1, h2, h3, h4⟩ := hsettled
    obtain ⟨hlast, hbefore, hsource⟩ := id hholds
    unfold VirtioRng.copy
    split
    · rename_i hmore
      refine ⟨h.shared, h.traced.of_same rfl rfl rfl rfl, ?_,
        h.once.of_same rfl rfl rfl⟩
      refine ⟨⟨h1, h2, h3, h4⟩, ?_, ?_, last, hlast, hbefore, hsource⟩
      · rw [List.length_append, List.length_singleton]
        exact hmore
      · rw [List.length_append, List.length_singleton, List.range_succ,
          List.map_append, ← hcopied]
        rfl
    · rename_i hdone
      have hcount : copied.length = count := Nat.le_antisymm hle
        (Nat.not_lt.mp hdone)
      rw [hcount] at hcopied
      by_cases hfull : count = length
      · refine ⟨h.shared, h.traced.of_same rfl rfl rfl rfl, ?_,
          h.once.append h.traced hholds (by rw [← hcopied]; exact if_pos hfull)
            rfl rfl⟩
        refine Or.inl ⟨⟨h1, h2, h3, h4⟩, ?_⟩
        intro fill hfill cell hcell write hwrite
        show write < s.completed
        simp only [hfull, if_true] at hfill
        rcases List.mem_append.mp hfill with hold | hnew
        · have := hbefore fill hold cell hcell write hwrite
          omega
        · rw [List.mem_singleton.mp hnew, hcopied] at hcell
          obtain ⟨index, hindex, rfl⟩ := List.mem_map.mp hcell
          have hsame := hsource index (List.mem_range.mp hindex)
          rw [hsame] at hwrite
          have := Option.some.inj hwrite
          omega
      · have hfills : (if count = length then s.fills ++ [copied]
            else s.fills) = s.fills := if_neg hfull
        refine ⟨h.shared, h.traced.of_same rfl rfl rfl rfl, ?_,
          h.once.of_same hfills rfl rfl⟩
        refine Or.inl ⟨⟨h1, h2, h3, h4⟩, ?_⟩
        intro fill hfill cell hcell write hwrite
        show write < s.completed
        simp only [hfills] at hfill
        have := hbefore fill hfill cell hcell write hwrite
        omega
  · cases hstep

/-! ### The device -/

/-- The device works only while a request waits for its answer. -/
theorem Inv.waiting (h : s.Inv)
    (hbusy : s.device ≠ .idle ∨ s.seen ≠ s.sharedAvailable) :
    (s.phase = .idle ∨ ∃ length attempts, s.phase = .polling length attempts) ∧
      s.availableIndex = s.usedIndex + 1 ∧ s.sharedUsed = s.usedIndex ∧
      s.seen = s.usedIndex ∧ s.Before s.completed := by
  have hsettled : ¬ s.Settled := by
    rintro ⟨h1, -, h3, h4⟩
    rcases hbusy with hbusy | hbusy
    · exact hbusy h4
    · exact hbusy (by rw [h.shared, h3, h1])
  have hout : s.Outstanding → s.availableIndex = s.usedIndex + 1 ∧
      s.sharedUsed = s.usedIndex ∧ s.seen = s.usedIndex ∧
      s.Before s.completed := by
    rintro ⟨havailable, hwaiting | ⟨-, hseen, hidle, -⟩⟩
    · exact ⟨havailable, hwaiting⟩
    · rcases hbusy with hbusy | hbusy
      · exact absurd hidle hbusy
      · exact absurd (by rw [h.shared, hseen, havailable]) hbusy
  have hprogress := h.progress
  cases hphase : s.phase with
  | idle =>
    simp only [Progress, hphase] at hprogress
    rcases hprogress with hprogress | hprogress
    · exact absurd hprogress.1 hsettled
    · exact ⟨Or.inl rfl, hout hprogress⟩
  | submitting length =>
    simp only [Progress, hphase] at hprogress
    exact absurd hprogress.1 hsettled
  | polling length attempts =>
    simp only [Progress, hphase] at hprogress
    exact ⟨Or.inr ⟨length, attempts, rfl⟩, hout hprogress⟩
  | copying count length copied =>
    simp only [Progress, hphase] at hprogress
    exact absurd hprogress.1 hsettled

/-- An outstanding request is all there is to show where a request waits. -/
theorem Outstanding.progress (h : s.Outstanding)
    (hphase : s.phase = .idle ∨
      ∃ length attempts, s.phase = .polling length attempts) : s.Progress := by
  rcases hphase with hphase | ⟨length, attempts, hphase⟩
  · simp only [Progress, hphase]
    exact Or.inr h
  · simp only [Progress, hphase]
    exact h

theorem Inv.fetch (h : s.Inv) (hstep : s.step .fetch = some t) : t.Inv := by
  simp only [step] at hstep
  split at hstep
  · rename_i hready
    obtain rfl := Option.some.inj hstep
    obtain ⟨hphase, havailable, hwaiting⟩ := h.waiting (Or.inr hready.2)
    have hcurrent := h.traced.current
    simp only [hready.1] at hcurrent
    refine ⟨h.shared, ⟨h.traced.buffer, h.traced.future, ?_⟩,
      Outstanding.progress ⟨havailable, Or.inl hwaiting⟩ hphase,
      h.once.of_same rfl rfl rfl⟩
    show (s.written s.completed).length = 0 ∧ _
    rw [hcurrent]
    exact ⟨rfl, fun i hi => absurd hi (Nat.not_lt_zero i)⟩
  · cases hstep

/-- A byte of the current write, put behind those that are there. -/
theorem Traced.write (h : s.Traced) {length index : Nat} (byte : UInt8)
    (hdevice : s.device = .writing length index) :
    Traced { s with
      buffer := put s.buffer index ⟨byte, some s.completed⟩
      written := put s.written s.completed (s.written s.completed ++ [byte])
      device := .writing length (index + 1) } := by
  obtain ⟨hbuffer, hfuture, hcurrent⟩ := h
  simp only [hdevice] at hcurrent
  obtain ⟨hlength, hsource⟩ := hcurrent
  refine ⟨?_, ?_, ?_⟩
  · intro i write hi
    show (put s.written s.completed _ write)[i]? = _
    by_cases hwrite : write = s.completed
    · subst hwrite
      simp only [put_same]
      by_cases hindex : i = index
      · subst hindex
        simp only [put_same]
        rw [← hlength, List.getElem?_concat_length]
      · simp only [put_other hindex] at hi ⊢
        have hold := hbuffer i s.completed hi
        obtain ⟨hlt, -⟩ := List.getElem?_eq_some_iff.mp hold
        rw [List.getElem?_append_left hlt]
        exact hold
    · simp only [put_other hwrite]
      by_cases hindex : i = index
      · subst hindex
        simp only [put_same] at hi
        exact absurd (Option.some.inj hi).symm hwrite
      · simp only [put_other hindex] at hi ⊢
        exact hbuffer i write hi
  · intro write hwrite
    show put s.written s.completed _ write = []
    have hne : write ≠ s.completed := Nat.ne_of_gt hwrite
    rw [put_other hne]
    exact hfuture write hwrite
  · simp only [put_same, List.length_append, List.length_singleton, hlength,
      true_and]
    intro i hi
    by_cases hindex : i = index
    · subst hindex
      simp only [put_same]
    · simp only [put_other hindex]
      exact hsource i (by omega)

theorem Inv.write {byte : UInt8} (h : s.Inv)
    (hstep : s.step (.write byte) = some t) : t.Inv := by
  simp only [step] at hstep
  split at hstep
  · rename_i length index hdevice
    split at hstep
    · obtain rfl := Option.some.inj hstep
      have hbusy : s.device ≠ .idle := by
        rw [hdevice]
        exact fun heq => nomatch heq
      obtain ⟨hphase, havailable, hwaiting⟩ := h.waiting (Or.inl hbusy)
      refine ⟨h.shared, h.traced.write byte hdevice,
        Outstanding.progress ⟨havailable, Or.inl hwaiting⟩ hphase,
        h.once.distinct, ?_⟩
      intro fill hfill i cell hcell
      obtain ⟨write, hlt, hsource, hbyte⟩ :=
        h.once.fromDevice fill hfill i cell hcell
      refine ⟨write, hlt, hsource, ?_⟩
      have hne : write ≠ s.completed := Nat.ne_of_lt hlt
      show (put s.written s.completed _ write)[i]? = _
      rw [put_other hne]
      exact hbyte
    · cases hstep
  · cases hstep

theorem Inv.complete (h : s.Inv) (hstep : s.step .complete = some t) :
    t.Inv := by
  simp only [step] at hstep
  split at hstep
  · rename_i length index hdevice
    obtain rfl := Option.some.inj hstep
    have hbusy : s.device ≠ .idle := by
      rw [hdevice]
      exact fun heq => nomatch heq
    obtain ⟨hphase, havailable, hused, hseen, hbefore⟩ :=
      h.waiting (Or.inl hbusy)
    have hcurrent := h.traced.current
    simp only [hdevice] at hcurrent
    refine ⟨h.shared, ⟨h.traced.buffer, ?_, ?_⟩, ?_, h.once.distinct, ?_⟩
    · intro write hwrite
      exact h.traced.future write (Nat.lt_of_succ_lt hwrite)
    · exact h.traced.future (s.completed + 1) (Nat.lt_succ_self _)
    · refine Outstanding.progress ⟨havailable, Or.inr ⟨?_, ?_, rfl, ?_⟩⟩ hphase
      · show s.sharedUsed + 1 = s.usedIndex + 1
        rw [hused]
      · show s.seen + 1 = s.usedIndex + 1
        rw [hseen]
      · refine ⟨s.completed, rfl, hbefore, ?_⟩
        show ∀ i < put s.usedLengths _ index (s.usedIndex.toNat % s.ringSize), _
        rw [hused, put_same]
        exact hcurrent.2
    · intro fill hfill i cell hcell
      obtain ⟨write, hlt, hsource, hbyte⟩ :=
        h.once.fromDevice fill hfill i cell hcell
      exact ⟨write, Nat.lt_succ_of_lt hlt, hsource, hbyte⟩
  · cases hstep

theorem Inv.step {a : VirtioAction} (h : s.Inv) (hguard : s.Answered a)
    (hstep : s.step a = some t) : t.Inv := by
  cases a with
  | fill length => exact h.fill hguard hstep
  | publish => exact h.publish hstep
  | poll => exact h.poll hstep
  | copy => exact h.copy hstep
  | fetch => exact h.fetch hstep
  | write byte => exact h.write hstep
  | complete => exact h.complete hstep

end VirtioRng

/-- In every run in which no call of `fill_virtio` starts while an earlier
request is unanswered, random bytes are handed out once. -/
theorem random_bytes_handed_out_once {ringSize : Nat} {frame : Nat → UInt8}
    {s : VirtioRng}
    (hrun : Run VirtioRng.step VirtioRng.Answered (.initial ringSize frame)
      s) :
    s.HandedOutOnce := by
  have hinv : s.Inv := by
    apply hrun.invariant VirtioRng.Inv
    · intro t a u ht hguard hstep
      exact ht.step hguard hstep
    · exact VirtioRng.inv_initial ringSize frame
  exact hinv.once

/-- One call, answered between its two polls. -/
theorem random_bytes_handed_out_once_answered :
    ∃ s : VirtioRng, s.fills = [[⟨7, some 0⟩]] ∧ s.HandedOutOnce := by
  have hrun : (exec VirtioRng.step VirtioRng.Answered
      [.fill 1, .publish, .poll, .fetch, .write 7, .complete, .poll, .copy,
        .copy] (.initial 8 fun _ => 0)).any
      (fun s => decide (s.fills = [[⟨7, some 0⟩]])) = true := by
    decide +kernel
  obtain ⟨s, hs, hfills⟩ := (Option.any_eq_true _ _).mp hrun
  exact ⟨s, of_decide_eq_true hfills,
    random_bytes_handed_out_once (run_of_exec hs)⟩

/-! ## After a timeout -/

namespace VirtioRng

/-- As long as the device answers nothing, the polling loop runs out. -/
theorem timeout {s : VirtioRng} {length attempts : Nat}
    (hphase : s.phase = .polling length (attempts + 1))
    (hused : s.sharedUsed = s.usedIndex) :
    Run step Always s { s with phase := .idle } := by
  induction attempts generalizing s with
  | zero =>
    refine .step .poll .refl trivial ?_
    simp [step, hphase, poll, hused]
  | succ attempts ih =>
    have hpoll : s.step .poll =
        some { s with phase := .polling length (attempts + 1) } := by
      simp [step, hphase, poll, hused]
    refine (Run.step .poll .refl trivial hpoll).trans ?_
    exact ih rfl hused

/-- The state after a call of one byte that has timed out. -/
def timedOut : VirtioRng :=
  { initial 8 (fun _ => 0) with
    availableIndex := 1
    sharedAvailable := 1
    descriptorLength := 1
    phase := .idle }

theorem timedOut_reached :
    Run step Always (initial 8 fun _ => 0) timedOut := by
  have hsubmit : exec step Always [.fill 1, .publish] (initial 8 fun _ => 0) =
      some { timedOut with phase := .polling 1 pollAttempts } := rfl
  exact (run_of_exec hsubmit).trans (timeout rfl rfl)

end VirtioRng

/-- A call after a timeout polls the answer to the earlier request; when the
device has answered its own request too, both this call and the next one
return the bytes of the second device write. -/
theorem random_bytes_handed_out_twice :
    ∃ s, Run VirtioRng.step Always (.initial 8 fun _ => 0) s ∧
      ¬ s.HandedOutOnce := by
  have hrun : (exec VirtioRng.step Always
      [.fill 1, .publish, .fetch, .write 7, .complete, .fetch, .write 9,
        .complete, .poll, .copy, .copy, .fill 1, .publish, .poll, .copy,
        .copy] VirtioRng.timedOut).any
      (fun s => decide (s.fills = [[⟨9, some 1⟩], [⟨9, some 1⟩]])) =
        true := by
    decide +kernel
  obtain ⟨s, hs, hfills⟩ := (Option.any_eq_true _ _).mp hrun
  refine ⟨s, VirtioRng.timedOut_reached.trans (run_of_exec hs), ?_⟩
  rintro ⟨hdistinct, -⟩
  rw [of_decide_eq_true hfills] at hdistinct
  simp at hdistinct

end OpenKernel
