import Mathlib.Data.List.Range
import Mathlib.Data.Nat.Bitwise
import Mathlib.Tactic.IntervalCases
import OpenKernel.Lib.BitFields

/-!
# Physical frames

The model of `memory.rs`: a bitmap allocator for the 4 KiB frames below
4 GiB.  `FRAME_BITMAP` has a set bit for each frame that must not be handed
out, `ALLOCATED_BITMAP` one for each frame that `allocate` has handed out.

A `u64` or a `u8` is a natural number, and so is a bitmap, byte after byte in
little-endian order.
-/

namespace OpenKernel

open Lib

def pageSize : Nat := 4096
def maxPhysicalAddress : Nat := 4 * 1024 * 1024 * 1024
def maxPhysicalFrames : Nat := maxPhysicalAddress / pageSize

inductive MemoryRegionKind
  | usable
  | reserved
  deriving DecidableEq, Repr

structure MemoryRegion where
  base : Nat
  length : Nat
  kind : MemoryRegionKind

structure PhysicalMemoryRange where
  base : Nat
  length : Nat

/-! ## Bitmaps -/

/-- The bytes of a bitmap as one number. -/
structure Bitmap where
  bytes : Nat

/-- `bit`: whether the bit of `frame` is set. -/
def bit (bitmap : Bitmap) (frame : Nat) : Bool :=
  byteAt bitmap.bytes (frame / 8) &&& (1 <<< (frame % 8)) != 0

/-- `set`: write the bit of `frame`. -/
def setBit (bitmap : Bitmap) (frame : Nat) (value : Bool) : Bitmap :=
  let mask := 1 <<< (frame % 8)
  let current := byteAt bitmap.bytes (frame / 8)
  { bytes := setByteAt bitmap.bytes (frame / 8)
      (if value then current ||| mask else current &&& (0xFF ^^^ mask)) }

theorem bit_eq_testBit (bitmap : Bitmap) (frame : Nat) :
    bit bitmap frame = (byteAt bitmap.bytes (frame / 8)).testBit (frame % 8) := by
  rw [bit, Nat.one_shiftLeft, Nat.and_two_pow]
  cases (byteAt bitmap.bytes (frame / 8)).testBit (frame % 8) <;> simp

private theorem testBit_complement {k j : Nat} (hk : k < 8) (hj : j < 8) :
    (0xFF ^^^ 1 <<< k).testBit j = !decide (k = j) := by
  interval_cases k <;> interval_cases j <;> rfl

/-- Writing one bit changes that bit and no other. -/
theorem bit_setBit (bitmap : Bitmap) (f g : Nat) (value : Bool) :
    bit (setBit bitmap f value) g = if g = f then value else bit bitmap g := by
  have hcurrent := byteAt_lt bitmap.bytes (f / 8)
  have hmask : 1 <<< (f % 8) < 256 := by
    rw [Nat.one_shiftLeft]
    exact Nat.pow_lt_pow_right (n := 8) (by omega) (Nat.mod_lt _ (by omega))
  have hbyte : (if value then byteAt bitmap.bytes (f / 8) ||| 1 <<< (f % 8)
      else byteAt bitmap.bytes (f / 8) &&& (0xFF ^^^ 1 <<< (f % 8))) < 256 := by
    split
    · exact Nat.or_lt_two_pow (n := 8) hcurrent hmask
    · exact lt_of_le_of_lt Nat.and_le_left hcurrent
  rw [bit_eq_testBit, bit_eq_testBit, setBit]
  dsimp only
  rw [byteAt_setByteAt _ _ hbyte]
  by_cases hgf : g / 8 = f / 8
  · have hf : f % 8 < 8 := Nat.mod_lt _ (by omega)
    have hg : g % 8 < 8 := Nat.mod_lt _ (by omega)
    have hiff : f % 8 = g % 8 ↔ g = f := by omega
    rw [if_pos hgf, hgf]
    cases value
    · rw [if_neg Bool.false_ne_true, Nat.testBit_and,
        testBit_complement hf hg]
      by_cases h : g = f <;> simp [hiff, h]
    · rw [if_pos rfl, Nat.testBit_or, Nat.one_shiftLeft,
        Nat.testBit_two_pow]
      by_cases h : g = f <;> simp [hiff, h]
  · have h : g ≠ f := fun h => hgf (by rw [h])
    rw [if_neg hgf, if_neg h]

/-! ## The allocator -/

/-- The statics of the allocator: the two bitmaps and the free count of
`MEMORY_STATS`. -/
structure FrameAllocator where
  frameBitmap : Bitmap
  allocatedBitmap : Bitmap
  freeFrames : Nat

/-- `u64::saturating_add`. -/
def saturatingAdd (a b : Nat) : Nat := min (a + b) (2 ^ 64 - 1)

/-- The loop `for frame in start..stop` that both marking functions end
with. -/
def setFrames (bitmap : Bitmap) (start stop : Nat) (value : Bool) : Bitmap :=
  (List.range' start (stop - start)).foldl
    (fun bitmap frame => setBit bitmap frame value) bitmap

/-- `mark_range`: the frames that lie inside the range. -/
def markRange (bitmap : Bitmap) (base length : Nat) (isReserved : Bool) :
    Bitmap :=
  let start := saturatingAdd base (pageSize - 1) / pageSize
  let stop := min (saturatingAdd base length) maxPhysicalAddress / pageSize
  setFrames bitmap (min start maxPhysicalFrames) stop isReserved

/-- `mark_reserved_range`: the frames that the range touches. -/
def markReservedRange (bitmap : Bitmap) (base length : Nat) : Bitmap :=
  let start := base / pageSize
  let stop :=
    min (saturatingAdd (saturatingAdd base length) (pageSize - 1))
      maxPhysicalAddress / pageSize
  setFrames bitmap (min start maxPhysicalFrames) stop true

/-- The bitmap that `initialize` leaves. -/
def initialBitmap (regions : List MemoryRegion)
    (reservedRanges : List PhysicalMemoryRange) : Bitmap :=
  let usable := regions.foldl
    (fun bitmap region =>
      if region.kind = .usable then
        markRange bitmap region.base region.length false
      else bitmap)
    { bytes := 2 ^ maxPhysicalFrames - 1 }
  reservedRanges.foldl
    (fun bitmap range => markReservedRange bitmap range.base range.length)
    (markReservedRange usable 0 (1024 * 1024))

namespace FrameAllocator

/-- `reserved`: the frame must not be handed out. -/
def reserved (a : FrameAllocator) (frame : Nat) : Bool :=
  bit a.frameBitmap frame

/-- `allocate` has handed the frame out. -/
def allocated (a : FrameAllocator) (frame : Nat) : Bool :=
  bit a.allocatedBitmap frame

/-- `BitmapFrameAllocator::initialize`, which `initialize_physical_memory`
calls. -/
def initializePhysicalMemory (regions : List MemoryRegion)
    (reservedRanges : List PhysicalMemoryRange) : FrameAllocator :=
  let bitmap := initialBitmap regions reservedRanges
  { frameBitmap := bitmap
    allocatedBitmap := { bytes := 0 }
    freeFrames :=
      (List.range maxPhysicalFrames).countP fun frame => !bit bitmap frame }

/-- The search loop of `allocate`: the first free one of the `count` frames
from `frame` on. -/
def findFree (a : FrameAllocator) : (count frame : Nat) → Option Nat
  | 0, _ => none
  | count + 1, frame =>
    if a.reserved frame then findFree a count (frame + 1) else some frame

/-- `BitmapFrameAllocator::allocate`: the address of the lowest free
frame. -/
def allocate (a : FrameAllocator) : Option Nat × FrameAllocator :=
  match a.findFree maxPhysicalFrames 0 with
  | some frame =>
    (some (frame * pageSize),
      { frameBitmap := setBit a.frameBitmap frame true
        allocatedBitmap := setBit a.allocatedBitmap frame true
        freeFrames := a.freeFrames - 1 })
  | none => (none, a)

/-- `BitmapFrameAllocator::free`. -/
def free (a : FrameAllocator) (address : Nat) : FrameAllocator :=
  if address % pageSize ≠ 0 ∨ maxPhysicalAddress ≤ address then a
  else
    let frame := address / pageSize
    if a.allocated frame then
      { frameBitmap := setBit a.frameBitmap frame false
        allocatedBitmap := setBit a.allocatedBitmap frame false
        freeFrames := a.freeFrames + 1 }
    else a

/-! ## Frames by address -/

/-- `allocate` can hand out the frame at `address`. -/
def IsFree (a : FrameAllocator) (address : Nat) : Prop :=
  address % pageSize = 0 ∧ address < maxPhysicalAddress ∧
    a.reserved (address / pageSize) = false

/-- The frame at `address` has been handed out and not been given back. -/
def IsAllocated (a : FrameAllocator) (address : Nat) : Prop :=
  address % pageSize = 0 ∧ address < maxPhysicalAddress ∧
    a.allocated (address / pageSize) = true

instance (a : FrameAllocator) (address : Nat) : Decidable (a.IsFree address) :=
  inferInstanceAs (Decidable (_ ∧ _ ∧ _))

instance (a : FrameAllocator) (address : Nat) :
    Decidable (a.IsAllocated address) :=
  inferInstanceAs (Decidable (_ ∧ _ ∧ _))

private theorem findFree_spec (a : FrameAllocator) :
    ∀ (count frame found : Nat), a.findFree count frame = some found →
      found < frame + count ∧ a.reserved found = false := by
  intro count
  induction count with
  | zero =>
    intro frame found h
    cases h
  | succ count ih =>
    intro frame found h
    rw [findFree] at h
    split at h
    · have := ih _ _ h
      exact ⟨by omega, this.2⟩
    · rename_i hfree
      obtain rfl := Option.some.inj h
      exact ⟨by omega, by simpa using hfree⟩

private theorem div_pageSize {x y : Nat} (hx : x % pageSize = 0)
    (hy : y % pageSize = 0) (h : x / pageSize = y / pageSize) : x = y := by
  rw [← Nat.div_add_mod x pageSize, ← Nat.div_add_mod y pageSize, hx, hy, h]

/-- What a successful `allocate` does: it hands out a free frame, marks it,
and leaves every other frame as it was. -/
theorem allocate_some {a a' : FrameAllocator} {address : Nat}
    (h : a.allocate = (some address, a')) :
    a.IsFree address ∧ a'.IsAllocated address ∧ ¬ a'.IsFree address ∧
      ∀ other, other ≠ address →
        (a'.IsFree other ↔ a.IsFree other) ∧
          (a'.IsAllocated other ↔ a.IsAllocated other) := by
  rw [allocate] at h
  split at h
  · rename_i frame hfind
    obtain ⟨hlt, hres⟩ := findFree_spec a _ _ _ hfind
    obtain ⟨haddr, rfl⟩ := Prod.mk.inj h
    obtain rfl := Option.some.inj haddr
    have hmod : frame * pageSize % pageSize = 0 := Nat.mul_mod_left _ _
    have hdiv : frame * pageSize / pageSize = frame :=
      Nat.mul_div_cancel _ (by decide)
    have hmax : frame * pageSize < maxPhysicalAddress := by
      have : maxPhysicalFrames * pageSize = maxPhysicalAddress := by decide
      rw [← this]
      exact Nat.mul_lt_mul_of_pos_right (by omega) (by decide)
    refine ⟨⟨hmod, hmax, by rw [hdiv]; exact hres⟩,
      ⟨hmod, hmax, by rw [hdiv, allocated, bit_setBit, if_pos rfl]⟩, ?_, ?_⟩
    · intro hfree
      have := hfree.2.2
      rw [hdiv, reserved, bit_setBit, if_pos rfl] at this
      cases this
    · intro other hother
      have hne : other % pageSize = 0 → other / pageSize ≠ frame := by
        intro ho he
        exact hother (div_pageSize ho hmod (by rw [hdiv, he]))
      constructor <;> refine and_congr_right fun ho => and_congr_right fun _ => ?_
      · rw [reserved, reserved, bit_setBit, if_neg (hne ho)]
      · rw [allocated, allocated, bit_setBit, if_neg (hne ho)]
  · cases h

theorem allocate_none {a a' : FrameAllocator}
    (h : a.allocate = (none, a')) : a' = a := by
  rw [allocate] at h
  split at h
  · cases h
  · exact (Prod.mk.inj h).2.symm

/-- `free` of an allocated frame makes it free. -/
theorem isFree_free_self {a : FrameAllocator} {address : Nat}
    (h : a.IsAllocated address) :
    (a.free address).IsFree address ∧ ¬ (a.free address).IsAllocated address := by
  obtain ⟨hmod, hlt, hall⟩ := h
  have hn : ¬ (address % pageSize ≠ 0 ∨ maxPhysicalAddress ≤ address) := by
    omega
  rw [free, if_neg hn, if_pos hall]
  refine ⟨⟨hmod, hlt, by rw [reserved, bit_setBit, if_pos rfl]⟩, ?_⟩
  intro h'
  have := h'.2.2
  rw [allocated, bit_setBit, if_pos rfl] at this
  cases this

/-- `free` leaves every other frame as it was. -/
theorem free_other {a : FrameAllocator} {address other : Nat}
    (hother : other ≠ address) :
    ((a.free address).IsFree other ↔ a.IsFree other) ∧
      ((a.free address).IsAllocated other ↔ a.IsAllocated other) := by
  rw [free]
  split
  · exact ⟨Iff.rfl, Iff.rfl⟩
  · rename_i hn
    dsimp only
    split
    · have hmod : address % pageSize = 0 := by omega
      have hne : other % pageSize = 0 →
          other / pageSize ≠ address / pageSize :=
        fun ho he => hother (div_pageSize ho hmod he)
      constructor <;> refine and_congr_right fun ho => and_congr_right fun _ => ?_
      · rw [reserved, reserved, bit_setBit, if_neg (hne ho)]
      · rw [allocated, allocated, bit_setBit, if_neg (hne ho)]
    · exact ⟨Iff.rfl, Iff.rfl⟩

/-- `free` of a frame that is not allocated changes nothing. -/
theorem free_of_not_allocated {a : FrameAllocator} {address : Nat}
    (h : ¬ a.IsAllocated address) : a.free address = a := by
  rw [free]
  split
  · rfl
  · rename_i hn
    have : a.allocated (address / pageSize) ≠ true := by
      intro hall
      exact h ⟨by omega, by omega, hall⟩
    rw [if_neg this]

end FrameAllocator

end OpenKernel
