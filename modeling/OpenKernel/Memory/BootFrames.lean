import Mathlib.Data.List.Perm.Basic
import OpenKernel.Memory.Allocator

/-!
# The frame map at boot

`initialize` marks every frame reserved, then clears the frames that lie
inside a usable region, then marks the first mebibyte and the reserved ranges
again.  So a frame is free exactly when a usable region contains all of it, it
lies above the first mebibyte, and no reserved range, rounded outwards to
pages, covers it (`boot_frames`).  A base and a length can be any `u64`.
-/

namespace OpenKernel

/-- The region contains all bytes of the frame. -/
def MemoryRegion.Contains (region : MemoryRegion) (frame : Nat) : Prop :=
  region.base ≤ pageSize * frame ∧
    pageSize * frame + pageSize ≤ region.base + region.length

/-- The page where the range ends, rounded up.  The end saturates. -/
def PhysicalMemoryRange.endPage (range : PhysicalMemoryRange) : Nat :=
  (min (range.base + range.length) (2 ^ 64 - 1) + (pageSize - 1)) / pageSize

/-- The range, rounded outwards to pages, covers the frame. -/
def PhysicalMemoryRange.Covers (range : PhysicalMemoryRange) (frame : Nat) : Prop :=
  range.base / pageSize ≤ frame ∧ frame < range.endPage

/-- What the memory map says of a frame. -/
def FreeAtBoot (regions : List MemoryRegion) (reservedRanges : List PhysicalMemoryRange)
    (frame : Nat) : Prop :=
  (∃ region ∈ regions, region.kind = .usable ∧ region.Contains frame) ∧
    1024 * 1024 ≤ pageSize * frame ∧
    ∀ range ∈ reservedRanges, ¬ range.Covers frame

/-! ## The marking loops -/

theorem bit_setFrames (bitmap : Bitmap) (start stop : Nat) (value : Bool) (frame : Nat) :
    bit (setFrames bitmap start stop value) frame =
      if start ≤ frame ∧ frame < stop then value else bit bitmap frame := by
  have hfold : ∀ (frames : List Nat) (bitmap : Bitmap),
      bit (frames.foldl (fun bitmap frame => setBit bitmap frame value) bitmap) frame =
        if frame ∈ frames then value else bit bitmap frame := by
    intro frames
    induction frames with
    | nil =>
      intro bitmap
      simp
    | cons f frames ih =>
      intro bitmap
      rw [List.foldl_cons, ih, bit_setBit]
      by_cases hmem : frame ∈ frames
      · simp [hmem]
      · simp [hmem]
  have hmem : frame ∈ List.range' start (stop - start) ↔ start ≤ frame ∧ frame < stop := by
    rw [List.mem_range'_1]
    omega
  unfold setFrames
  rw [hfold]
  simp only [hmem]

/-- Inwards: the frames that the range contains. -/
theorem bit_markRange (bitmap : Bitmap) (region : MemoryRegion) {frame : Nat}
    (hframe : frame < maxPhysicalFrames) (value : Bool) :
    bit (markRange bitmap region.base region.length value) frame = true ↔
      if region.base ≤ pageSize * frame ∧
          pageSize * frame + pageSize ≤ region.base + region.length
      then value = true else bit bitmap frame = true := by
  have hbounds : min (saturatingAdd region.base (pageSize - 1) / pageSize)
        maxPhysicalFrames ≤ frame ∧
      frame < min (saturatingAdd region.base region.length) maxPhysicalAddress / pageSize ↔
      region.base ≤ pageSize * frame ∧
        pageSize * frame + pageSize ≤ region.base + region.length := by
    unfold saturatingAdd
    unfold maxPhysicalFrames at hframe ⊢
    unfold maxPhysicalAddress pageSize at *
    omega
  unfold markRange
  dsimp only
  rw [bit_setFrames]
  simp only [hbounds]
  split <;> rfl

/-- Outwards: the frames that the range touches. -/
theorem bit_markReservedRange (bitmap : Bitmap) (range : PhysicalMemoryRange) {frame : Nat}
    (hframe : frame < maxPhysicalFrames) :
    bit (markReservedRange bitmap range.base range.length) frame = true ↔
      range.Covers frame ∨ bit bitmap frame = true := by
  have hbounds : min (range.base / pageSize) maxPhysicalFrames ≤ frame ∧
      frame < min (saturatingAdd (saturatingAdd range.base range.length) (pageSize - 1))
        maxPhysicalAddress / pageSize ↔ range.Covers frame := by
    unfold PhysicalMemoryRange.Covers PhysicalMemoryRange.endPage saturatingAdd
    unfold maxPhysicalFrames at hframe ⊢
    unfold maxPhysicalAddress pageSize at *
    omega
  unfold markReservedRange
  dsimp only
  rw [bit_setFrames]
  by_cases hcovers : range.Covers frame
  · rw [if_pos (hbounds.mpr hcovers)]
    simp [hcovers]
  · rw [if_neg (mt hbounds.mp hcovers)]
    simp [hcovers]

/-- The loop over the regions. -/
theorem bit_usableRegions (regions : List MemoryRegion) (bitmap : Bitmap) {frame : Nat}
    (hframe : frame < maxPhysicalFrames) :
    bit (regions.foldl (fun bitmap region =>
        if region.kind = .usable then
          markRange bitmap region.base region.length false
        else bitmap) bitmap) frame = true ↔
      (∀ region ∈ regions, region.kind = .usable → ¬ region.Contains frame) ∧
        bit bitmap frame = true := by
  induction regions generalizing bitmap with
  | nil => simp
  | cons region regions ih =>
    rw [List.foldl_cons, ih, List.forall_mem_cons]
    by_cases husable : region.kind = .usable
    · rw [if_pos husable, bit_markRange bitmap region hframe]
      by_cases hcontains : region.Contains frame
      · have hbounds := hcontains
        unfold MemoryRegion.Contains at hbounds
        simp [husable, hcontains, hbounds]
      · have hbounds := hcontains
        unfold MemoryRegion.Contains at hbounds
        rw [if_neg hbounds]
        simp [husable, hcontains]
    · rw [if_neg husable]
      simp [husable]

/-- The loop over the reserved ranges. -/
theorem bit_reservedRanges (ranges : List PhysicalMemoryRange) (bitmap : Bitmap)
    {frame : Nat} (hframe : frame < maxPhysicalFrames) :
    bit (ranges.foldl (fun bitmap range =>
        markReservedRange bitmap range.base range.length) bitmap) frame = true ↔
      (∃ range ∈ ranges, range.Covers frame) ∨ bit bitmap frame = true := by
  induction ranges generalizing bitmap with
  | nil => simp
  | cons range ranges ih =>
    rw [List.foldl_cons, ih, bit_markReservedRange bitmap range hframe,
      List.exists_mem_cons_iff, or_left_comm, or_assoc]

/-- Before the loops, every tracked frame is reserved. -/
theorem bit_allReserved {frame : Nat} (hframe : frame < maxPhysicalFrames) :
    bit { bytes := 2 ^ maxPhysicalFrames - 1 } frame = true := by
  generalize maxPhysicalFrames = count at hframe ⊢
  rw [bit_eq_testBit, Lib.testBit_byteAt, Nat.testBit_two_pow_sub_one]
  have hdigits : frame / 8 * 8 + frame % 8 = frame := Nat.div_add_mod' frame 8
  have hlt : frame % 8 < 8 := Nat.mod_lt _ (by omega)
  simp only [Bool.and_eq_true, decide_eq_true_eq]
  omega

/-! ## The map -/

theorem reserved_booted (regions : List MemoryRegion)
    (reservedRanges : List PhysicalMemoryRange) {frame : Nat}
    (hframe : frame < maxPhysicalFrames) :
    (FrameAllocator.initializePhysicalMemory regions reservedRanges).reserved frame =
      false ↔ FreeAtBoot regions reservedRanges frame := by
  have hfirst : PhysicalMemoryRange.Covers ⟨0, 1024 * 1024⟩ frame ↔
      pageSize * frame < 1024 * 1024 := by
    unfold PhysicalMemoryRange.Covers PhysicalMemoryRange.endPage pageSize
    dsimp only
    omega
  have hbit : bit (initialBitmap regions reservedRanges) frame = true ↔
      (∃ range ∈ reservedRanges, range.Covers frame) ∨ pageSize * frame < 1024 * 1024 ∨
        ∀ region ∈ regions, region.kind = .usable → ¬ region.Contains frame := by
    unfold initialBitmap
    dsimp only
    rw [bit_reservedRanges _ _ hframe]
    rw [bit_markReservedRange _ ⟨0, 1024 * 1024⟩ hframe, hfirst]
    rw [bit_usableRegions _ _ hframe, and_iff_left (bit_allReserved hframe)]
  show bit (initialBitmap regions reservedRanges) frame = false ↔ _
  rw [← Bool.not_eq_true, hbit]
  unfold FreeAtBoot
  push Not
  exact ⟨fun h => ⟨h.2.2, h.2.1, h.1⟩, fun h => ⟨h.2.2, h.2.1, h.1⟩⟩

/-- The order of the lists does not matter to the memory map. -/
theorem freeAtBoot_perm {regions regions' : List MemoryRegion}
    {reservedRanges reservedRanges' : List PhysicalMemoryRange}
    (hregions : regions.Perm regions') (hranges : reservedRanges.Perm reservedRanges')
    (frame : Nat) :
    FreeAtBoot regions' reservedRanges' frame ↔ FreeAtBoot regions reservedRanges frame := by
  unfold FreeAtBoot
  simp only [hregions.mem_iff, hranges.mem_iff]

/-- `initialize` counts the frames that are not reserved. -/
theorem freeFrames_eq_card (regions : List MemoryRegion)
    (reservedRanges : List PhysicalMemoryRange) :
    (FrameAllocator.initializePhysicalMemory regions reservedRanges).freeFrames =
      ((Finset.range maxPhysicalFrames).filter fun frame =>
        !(FrameAllocator.initializePhysicalMemory regions
          reservedRanges).reserved frame).card := by
  rw [FrameAllocator.card_filter_range]
  simp only [FrameAllocator.initializePhysicalMemory, FrameAllocator.reserved]

open Classical in
theorem freeFrames_booted (regions : List MemoryRegion)
    (reservedRanges : List PhysicalMemoryRange) :
    (FrameAllocator.initializePhysicalMemory regions reservedRanges).freeFrames =
      ((Finset.range maxPhysicalFrames).filter
        (FreeAtBoot regions reservedRanges)).card := by
  rw [freeFrames_eq_card]
  apply congrArg Finset.card
  ext frame
  simp only [Finset.mem_filter, Bool.not_eq_true']
  apply and_congr_right
  intro hframe
  exact reserved_booted _ _ (Finset.mem_range.mp hframe)

open Classical in
/-- After `initialize` exactly the frames are free that the memory map leaves,
the count that it returns is their number, and the order of the lists does not
matter. -/
theorem boot_frames (regions : List MemoryRegion)
    (reservedRanges : List PhysicalMemoryRange) :
    (∀ frame < maxPhysicalFrames,
      (FrameAllocator.initializePhysicalMemory regions reservedRanges).reserved frame =
        false ↔ FreeAtBoot regions reservedRanges frame) ∧
    (FrameAllocator.initializePhysicalMemory regions reservedRanges).freeFrames =
      ((Finset.range maxPhysicalFrames).filter (FreeAtBoot regions reservedRanges)).card ∧
    ∀ regions' reservedRanges', regions.Perm regions' →
      reservedRanges.Perm reservedRanges' →
      (FrameAllocator.initializePhysicalMemory regions' reservedRanges').freeFrames =
          (FrameAllocator.initializePhysicalMemory regions reservedRanges).freeFrames ∧
        ∀ frame < maxPhysicalFrames,
          (FrameAllocator.initializePhysicalMemory regions' reservedRanges').reserved
              frame =
            (FrameAllocator.initializePhysicalMemory regions reservedRanges).reserved
              frame := by
  refine ⟨fun frame hframe => reserved_booted _ _ hframe,
    freeFrames_booted _ _, fun regions' reservedRanges' hregions hranges => ?_⟩
  have hperm := freeAtBoot_perm hregions hranges
  constructor
  · rw [freeFrames_booted, freeFrames_booted, funext fun frame =>
      propext (hperm frame)]
  · intro frame hframe
    rw [Bool.eq_iff_iff, ← not_iff_not, Bool.not_eq_true, Bool.not_eq_true]
    rw [reserved_booted _ _ hframe, reserved_booted _ _ hframe]
    exact hperm frame

end OpenKernel
