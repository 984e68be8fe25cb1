import OpenKernel.Memory.AddressSpace

/-!
# Page-table entries

An entry packs the address of a frame with flag bits that lie outside the
address field.  The lemmas here read the parts back.  `target f = f` says
that `f` fits the address field, which every frame of the allocator does.
-/

namespace OpenKernel

open Lib

/-- The flag bits of the entry that `descend` writes. -/
def linkBits (flags : PageFlags) : Nat :=
  presentBit ||| writableBit |||
    if flags.bits &&& userBit ≠ 0 then userBit else 0

theorem entryAddressMask_eq : entryAddressMask = 2 ^ 12 * (2 ^ 40 - 1) := by
  decide

@[simp] theorem target_target (entry : Nat) : target (target entry) = target entry := by
  unfold target
  rw [Nat.and_assoc, Nat.and_self]

/-- A page-aligned address below the end of the address field. -/
theorem target_of_aligned {frame : Nat} (hmod : frame % pageSize = 0)
    (hlt : frame < 2 ^ 52) : target frame = frame := by
  have hdvd : 2 ^ 12 ∣ frame := Nat.dvd_of_mod_eq_zero hmod
  unfold target
  rw [entryAddressMask_eq]
  exact and_fieldMask hdvd hlt

theorem target_mod (entry : Nat) : target entry % pageSize = 0 := by
  have hdvd : 2 ^ 12 ∣ entry &&& entryAddressMask :=
    dvd_and_of_dvd (by rw [entryAddressMask_eq]; exact Nat.dvd_mul_right _ _)
  exact Nat.mod_eq_zero_of_dvd hdvd

theorem FrameAllocator.IsFree.target_eq {a : FrameAllocator} {frame : Nat}
    (h : a.IsFree frame) : target frame = frame := by
  have hmax : maxPhysicalAddress < 2 ^ 52 := by decide
  exact target_of_aligned h.1 (lt_trans h.2.1 hmax)

theorem FrameAllocator.IsAllocated.target_eq {a : FrameAllocator} {frame : Nat}
    (h : a.IsAllocated frame) : target frame = frame := by
  have hmax : maxPhysicalAddress < 2 ^ 52 := by decide
  exact target_of_aligned h.1 (lt_trans h.2.1 hmax)

section Pack

variable {frame bits mask : Nat}

/-- The address of a packed entry. -/
theorem target_or (hframe : target frame = frame)
    (hbits : bits &&& entryAddressMask = 0) : target (frame ||| bits) = frame := by
  unfold target at hframe ⊢
  rw [Nat.and_or_distrib_right, hframe, hbits, Nat.or_zero]

/-- The flags of a packed entry. -/
theorem or_and_of_target (hframe : target frame = frame)
    (hmask : mask &&& entryAddressMask = 0) :
    (frame ||| bits) &&& mask = bits &&& mask := by
  have hzero : frame &&& mask = 0 := by
    rw [← hframe, target, Nat.and_assoc, Nat.and_comm entryAddressMask, hmask,
      Nat.and_zero]
  rw [Nat.and_or_distrib_right, hzero, Nat.zero_or]

end Pack

theorem linkBits_mask (flags : PageFlags) : linkBits flags &&& entryAddressMask = 0 := by
  cases flags <;> decide

theorem flags_mask (flags : PageFlags) : flags.bits &&& entryAddressMask = 0 := by
  cases flags <;> decide

/-- The entry of a new table, in the order of the source. -/
theorem link_eq (frame : Nat) (flags : PageFlags) :
    (frame ||| presentBit ||| writableBit |||
      if flags.bits &&& userBit ≠ 0 then userBit else 0) =
    frame ||| linkBits flags := by
  rw [linkBits, Nat.or_assoc, Nat.or_assoc, Nat.or_assoc]

section Link

variable {frame : Nat} (hframe : target frame = frame) (flags : PageFlags)

include hframe

theorem target_link : target (frame ||| linkBits flags) = frame :=
  target_or hframe (linkBits_mask flags)

theorem present_link : Present (frame ||| linkBits flags) := by
  unfold Present
  rw [or_and_of_target hframe (by decide)]
  cases flags <;> decide

theorem not_huge_link : ¬ Huge (frame ||| linkBits flags) := by
  unfold Huge
  rw [or_and_of_target hframe (by decide)]
  cases flags <;> decide

/-- A table for a user page can be entered from user mode. -/
theorem user_link (huser : flags.bits &&& userBit ≠ 0) :
    (frame ||| linkBits flags) &&& (presentBit ||| userBit ||| hugePageBit) =
      presentBit ||| userBit := by
  rw [or_and_of_target hframe (by decide)]
  cases flags
  · exact absurd rfl huser
  · exact absurd rfl huser
  all_goals decide

theorem target_page : target (frame ||| flags.bits) = frame :=
  target_or hframe (flags_mask flags)

theorem present_page : Present (frame ||| flags.bits) := by
  unfold Present
  rw [or_and_of_target hframe (by decide)]
  cases flags <;> decide

end Link

theorem not_present_zero : ¬ Present 0 := by decide

end OpenKernel
