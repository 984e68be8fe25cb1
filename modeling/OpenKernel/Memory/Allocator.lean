import Mathlib.Data.Finset.Card
import OpenKernel.Lib.Pool
import OpenKernel.Memory.Frames

/-!
# The frame allocator as a pool

The two bitmaps and the counter of the allocator represent a pool of frames:
the available ones are those with a clear bit in `FRAME_BITMAP`, and the held
ones those with a set bit in `ALLOCATED_BITMAP`.  Every sequence of calls
moves both in step.
-/

namespace OpenKernel

open Lib

namespace FrameAllocator

/-- The addresses of the tracked frames. -/
def frameAddresses (test : Nat → Bool) : Finset Nat :=
  ((Finset.range maxPhysicalFrames).filter fun frame => test frame).image
    (· * pageSize)

/-- The frames that `allocate` can hand out. -/
def freeSet (a : FrameAllocator) : Finset Nat :=
  frameAddresses fun frame => !a.reserved frame

/-- The frames that have been handed out. -/
def allocatedSet (a : FrameAllocator) : Finset Nat :=
  frameAddresses a.allocated

theorem mem_frameAddresses (test : Nat → Bool) (address : Nat) :
    address ∈ frameAddresses test ↔
      address % pageSize = 0 ∧ address < maxPhysicalAddress ∧
        test (address / pageSize) = true := by
  have hmax : maxPhysicalFrames * pageSize = maxPhysicalAddress := by decide
  have hpos : 0 < pageSize := by decide
  unfold frameAddresses
  simp only [Finset.mem_image, Finset.mem_filter, Finset.mem_range]
  constructor
  · rintro ⟨frame, ⟨hlt, htest⟩, rfl⟩
    rw [Nat.mul_div_cancel _ hpos]
    refine ⟨Nat.mul_mod_left _ _, ?_, htest⟩
    rw [← hmax]
    exact Nat.mul_lt_mul_of_pos_right hlt hpos
  · rintro ⟨hmod, hlt, htest⟩
    have hmul : address / pageSize * pageSize = address :=
      Nat.div_mul_cancel (Nat.dvd_of_mod_eq_zero hmod)
    refine ⟨address / pageSize, ⟨?_, htest⟩, hmul⟩
    rw [← hmax] at hlt
    exact Nat.div_lt_of_lt_mul (by rwa [Nat.mul_comm])

theorem mem_freeSet (a : FrameAllocator) (address : Nat) :
    address ∈ a.freeSet ↔ a.IsFree address := by
  rw [freeSet, mem_frameAddresses, IsFree, Bool.not_eq_true']

theorem mem_allocatedSet (a : FrameAllocator) (address : Nat) :
    address ∈ a.allocatedSet ↔ a.IsAllocated address := by
  rw [allocatedSet, mem_frameAddresses, IsAllocated]

theorem card_filter_range (n : Nat) (test : Nat → Bool) :
    ((Finset.range n).filter fun frame => test frame).card =
      (List.range n).countP test := by
  show (Multiset.filter (fun frame => test frame = true)
    (Multiset.range n)).card = _
  rw [Multiset.range, Multiset.filter_coe, Multiset.coe_card,
    List.countP_eq_length_filter]
  simp

theorem card_frameAddresses (test : Nat → Bool) :
    (frameAddresses test).card = (List.range maxPhysicalFrames).countP test := by
  have hinj : Function.Injective fun frame : Nat => frame * pageSize :=
    fun _ _ h => Nat.eq_of_mul_eq_mul_right (by decide) h
  unfold frameAddresses
  rw [Finset.card_image_of_injective _ hinj, card_filter_range]

/-! ## Few frames -/

/-- The allocator with the frames of these numbers free, and no others. -/
def onlyFree (a : FrameAllocator) (free : List Nat) : FrameAllocator :=
  { a with
    frameBitmap := free.foldl (fun bitmap frame => setBit bitmap frame false)
      { bytes := 2 ^ maxPhysicalFrames - 1 } }

theorem bit_clear (free : List Nat) (bitmap : Bitmap) (frame : Nat) :
    bit (free.foldl (fun bitmap frame => setBit bitmap frame false) bitmap) frame =
      (bit bitmap frame && !decide (frame ∈ free)) := by
  induction free generalizing bitmap with
  | nil => simp
  | cons g free ih =>
    rw [List.foldl_cons, ih, bit_setBit]
    by_cases hg : frame = g
    · simp [hg]
    · simp [hg]

theorem isFree_onlyFree (a : FrameAllocator) (free : List Nat) (address : Nat) :
    (a.onlyFree free).IsFree address ↔
      address % pageSize = 0 ∧ address < maxPhysicalAddress ∧ address / pageSize ∈ free := by
  have hmax : maxPhysicalAddress = maxPhysicalFrames * pageSize := by decide
  refine and_congr_right fun _ => and_congr_right fun hlt => ?_
  have hframe : address / pageSize < maxPhysicalFrames := by
    rw [hmax] at hlt
    exact Nat.div_lt_of_lt_mul (by rwa [Nat.mul_comm])
  have hset : bit { bytes := 2 ^ maxPhysicalFrames - 1 } (address / pageSize) = true := by
    rw [bit_eq_testBit, Lib.testBit_byteAt, Nat.testBit_two_pow_sub_one, Bool.and_eq_true,
      decide_eq_true_iff, decide_eq_true_iff]
    omega
  unfold onlyFree reserved
  rw [bit_clear, hset, Bool.true_and, Bool.not_eq_false', decide_eq_true_iff]

/-- No frame is free when every bit is set. -/
theorem not_isFree_of_full {a : FrameAllocator}
    (h : a.frameBitmap.bytes = 2 ^ maxPhysicalFrames - 1) (address : Nat) :
    ¬ a.IsFree address := by
  intro hfree
  have hfull : a.onlyFree [] = a := by
    unfold onlyFree
    rw [List.foldl_nil, ← h]
  rw [← hfull, isFree_onlyFree] at hfree
  cases hfree.2.2

/-! ## One call -/

/-- `allocate` fails only when no frame is free. -/
theorem freeSet_of_allocate_none {a a' : FrameAllocator}
    (h : a.allocate = (none, a')) : a.freeSet = ∅ := by
  have hnone : ∀ count frame, a.findFree count frame = none →
      ∀ f, frame ≤ f → f < frame + count → a.reserved f = true := by
    intro count
    induction count with
    | zero =>
      intro frame _ f hge hlt
      omega
    | succ count ih =>
      intro frame hfind f hge hlt
      rw [findFree] at hfind
      split at hfind
      · rename_i hres
        rcases Nat.eq_or_lt_of_le hge with rfl | hgt
        · exact hres
        · exact ih (frame + 1) hfind f hgt (by omega)
      · cases hfind
  rw [allocate] at h
  split at h
  · cases h
  · rename_i hfind
    rw [Finset.eq_empty_iff_forall_notMem]
    intro address hmem
    obtain ⟨hmod, hlt, hres⟩ := (a.mem_freeSet address).mp hmem
    have hframe : address / pageSize < 0 + maxPhysicalFrames := by
      rw [Nat.zero_add]
      exact Nat.div_lt_of_lt_mul hlt
    rw [hnone _ _ hfind _ (Nat.zero_le _) hframe] at hres
    cases hres

/-- `allocate` fails exactly when no frame is free. -/
theorem allocate_eq_none_iff (a : FrameAllocator) :
    a.allocate.1 = none ↔ ∀ f, ¬ a.IsFree f := by
  constructor
  · intro hnone f hfree
    have hset := freeSet_of_allocate_none (show a.allocate = (none, a.allocate.2) from
      Prod.ext hnone rfl)
    have hmem : f ∈ a.freeSet := (a.mem_freeSet f).mpr hfree
    rw [hset] at hmem
    exact Finset.notMem_empty f hmem
  · intro hnone
    cases hx : a.allocate with
    | mk result frames =>
      cases result with
      | none => rfl
      | some frame => exact absurd (allocate_some hx).1 (hnone frame)

theorem freeFrames_of_allocate {a a' : FrameAllocator} {address : Nat}
    (h : a.allocate = (some address, a')) :
    a'.freeFrames = a.freeFrames - 1 := by
  rw [allocate] at h
  split at h
  · obtain ⟨-, rfl⟩ := Prod.mk.inj h
    rfl
  · cases h

theorem freeFrames_free {a : FrameAllocator} {address : Nat}
    (h : a.IsAllocated address) :
    (a.free address).freeFrames = a.freeFrames + 1 := by
  obtain ⟨hmod, hlt, hall⟩ := h
  have hn : ¬ (address % pageSize ≠ 0 ∨ maxPhysicalAddress ≤ address) := by
    omega
  rw [free, if_neg hn, if_pos hall]

/-! ## The pool -/

/-- The allocator represents the pool. -/
structure Represents (a : FrameAllocator) (p : Pool Nat) : Prop where
  available : p.available = a.freeSet
  held : p.held = a.allocatedSet
  freeFrames : a.freeFrames = p.available.card

theorem Represents.take {a a' : FrameAllocator} {p : Pool Nat} {address : Nat}
    (hr : a.Represents p) (h : a.allocate = (some address, a')) :
    address ∈ p.available ∧ a'.Represents (p.take address) := by
  obtain ⟨hfree, hallocated, hnot, hother⟩ := allocate_some h
  have hmem : address ∈ p.available := by
    rw [hr.available, mem_freeSet]
    exact hfree
  refine ⟨hmem, ?_, ?_, ?_⟩
  · show p.available.erase address = a'.freeSet
    ext other
    rw [Finset.mem_erase, hr.available, mem_freeSet, mem_freeSet]
    by_cases ho : other = address
    · rw [ho]
      exact ⟨fun hx => absurd rfl hx.1, fun hx => absurd hx hnot⟩
    · rw [(hother other ho).1]
      exact and_iff_right ho
  · show insert address p.held = a'.allocatedSet
    ext other
    rw [Finset.mem_insert, hr.held, mem_allocatedSet, mem_allocatedSet]
    by_cases ho : other = address
    · rw [ho]
      exact ⟨fun _ => hallocated, fun _ => .inl rfl⟩
    · rw [(hother other ho).2]
      exact or_iff_right ho
  · show a'.freeFrames = (p.available.erase address).card
    rw [freeFrames_of_allocate h, hr.freeFrames, Finset.card_erase_of_mem hmem]

theorem Represents.give {a : FrameAllocator} {p : Pool Nat}
    (hr : a.Represents p) (address : Nat) :
    (a.free address).Represents (p.give address) := by
  have hheld : address ∈ p.held ↔ a.IsAllocated address := by
    rw [hr.held, mem_allocatedSet]
  unfold Pool.give
  split
  · rename_i hmem
    have hall := hheld.mp hmem
    obtain ⟨hfree, hnot⟩ := isFree_free_self hall
    refine ⟨?_, ?_, ?_⟩
    · show insert address p.available = (a.free address).freeSet
      ext other
      rw [Finset.mem_insert, hr.available, mem_freeSet, mem_freeSet]
      by_cases ho : other = address
      · rw [ho]
        exact ⟨fun _ => hfree, fun _ => .inl rfl⟩
      · rw [(free_other ho).1]
        exact or_iff_right ho
    · show p.held.erase address = (a.free address).allocatedSet
      ext other
      rw [Finset.mem_erase, hr.held, mem_allocatedSet, mem_allocatedSet]
      by_cases ho : other = address
      · rw [ho]
        exact ⟨fun hx => absurd rfl hx.1, fun hx => absurd hx hnot⟩
      · rw [(free_other ho).2]
        exact and_iff_right ho
    · show (a.free address).freeFrames = (insert address p.available).card
      have hout : address ∉ p.available :=
        fun hav => Finset.disjoint_left.mp p.disjoint hav hmem
      rw [freeFrames_free hall, hr.freeFrames, Finset.card_insert_of_notMem hout]
  · rename_i hmem
    rw [free_of_not_allocated fun hall => hmem (hheld.mpr hall)]
    exact hr

/-! ## Sequences of calls -/

/-- One call of the allocator. -/
def call (a : FrameAllocator) : PoolCall Nat → Option Nat × FrameAllocator
  | .take => a.allocate
  | .give address => (none, a.free address)

/-- The history of a sequence of calls and the allocator after it.  The last
call comes first in the list. -/
def calls (a : FrameAllocator) :
    List (PoolCall Nat) → List (PoolEvent Nat) × FrameAllocator
  | [] => ([], a)
  | c :: cs =>
    let (history, a) := a.calls cs
    let (result, a) := a.call c
    ((c, result) :: history, a)

/-- The pool that `initialize` sets up: nothing is held. -/
def initialPool (regions : List MemoryRegion)
    (reservedRanges : List PhysicalMemoryRange) : Pool Nat :=
  { available := (initializePhysicalMemory regions reservedRanges).freeSet
    held := ∅
    disjoint := Finset.disjoint_empty_right _ }

theorem represents_initial (regions : List MemoryRegion)
    (reservedRanges : List PhysicalMemoryRange) :
    (initializePhysicalMemory regions reservedRanges).Represents
      (initialPool regions reservedRanges) := by
  refine ⟨rfl, ?_, ?_⟩
  · symm
    show allocatedSet _ = ∅
    rw [Finset.eq_empty_iff_forall_notMem]
    intro address hmem
    obtain ⟨-, -, hall⟩ := (mem_allocatedSet _ address).mp hmem
    have hbit : bit { bytes := 0 } (address / pageSize) = true := hall
    rw [bit_eq_testBit] at hbit
    simp [byteAt_eq] at hbit
  · show _ = (freeSet _).card
    rw [freeSet, card_frameAddresses]
    simp only [initializePhysicalMemory, reserved]

/-- Every sequence of calls is a run of the pool. -/
theorem calls_run {a₀ : FrameAllocator} {p₀ : Pool Nat} (h : a₀.Represents p₀)
    (cs : List (PoolCall Nat)) :
    ∃ p, p₀.Run (a₀.calls cs).1 p ∧ (a₀.calls cs).2.Represents p := by
  induction cs with
  | nil => exact ⟨p₀, .start, h⟩
  | cons c cs ih =>
    obtain ⟨p, hrun, hr⟩ := ih
    rw [calls]
    cases c with
    | take =>
      unfold call
      dsimp only
      cases hx : (a₀.calls cs).2.allocate with
      | mk result a =>
        cases result with
        | none =>
          have hempty : p.available = ∅ := by
            rw [hr.available]
            exact freeSet_of_allocate_none hx
          rw [allocate_none hx]
          exact ⟨p, .refused hrun hempty, hr⟩
        | some address =>
          obtain ⟨hmem, hr'⟩ := hr.take hx
          exact ⟨p.take address, .took hrun hmem, hr'⟩
    | give address => exact ⟨p.give address, .gave address hrun, hr.give address⟩

/-- After `initialize`, every sequence of calls makes the allocator behave as
a pool of frames: the calls and their results are a run of the pool, the
bitmaps and the counter represent its state, a frame is held exactly between
the call that hands it out and the one that frees it, and each frame handed
out was free from the start and not held. -/
theorem refines_pool (regions : List MemoryRegion)
    (reservedRanges : List PhysicalMemoryRange) (cs : List (PoolCall Nat)) :
    ∃ p, (initialPool regions reservedRanges).Run
        ((initializePhysicalMemory regions reservedRanges).calls cs).1 p ∧
      ((initializePhysicalMemory regions reservedRanges).calls
        cs).2.Represents p ∧
      (∀ address, address ∈ p.held ↔ PoolEvent.Held
        ((initializePhysicalMemory regions reservedRanges).calls cs).1
        address) ∧
      (∀ address, address ∈ p.available ∨ address ∈ p.held →
        address % pageSize = 0 ∧ address < maxPhysicalAddress) ∧
      Sound (fun e earlier => ∀ address, PoolEvent.IsTake address e →
          address ∈ (initializePhysicalMemory regions reservedRanges).freeSet ∧
            ¬ PoolEvent.Held earlier address)
        ((initializePhysicalMemory regions reservedRanges).calls cs).1 ∧
      (((initializePhysicalMemory regions reservedRanges).calls
          cs).2.allocate.1.isSome →
        1 ≤ ((initializePhysicalMemory regions reservedRanges).calls
          cs).2.freeFrames) := by
  obtain ⟨p, hrun, hr⟩ := calls_run (represents_initial regions reservedRanges) cs
  refine ⟨p, hrun, hr, hrun.held_iff rfl, ?_, hrun.sound rfl, ?_⟩
  · intro address hmem
    rcases hmem with hmem | hmem
    · rw [hr.available] at hmem
      obtain ⟨hmod, hlt, -⟩ := (mem_freeSet _ address).mp hmem
      exact ⟨hmod, hlt⟩
    · rw [hr.held] at hmem
      obtain ⟨hmod, hlt, -⟩ := (mem_allocatedSet _ address).mp hmem
      exact ⟨hmod, hlt⟩
  · intro hsome
    obtain ⟨address, haddress⟩ := Option.isSome_iff_exists.mp hsome
    obtain ⟨hmem, -⟩ := hr.take (Prod.ext haddress rfl)
    rw [hr.freeFrames]
    exact Finset.card_pos.mpr ⟨address, hmem⟩

end FrameAllocator

end OpenKernel
