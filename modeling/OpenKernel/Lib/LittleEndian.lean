import Mathlib.Data.List.Basic
import OpenKernel.Lib.BitFields

/-!
# Numbers as bytes

The bytes of a number, lowest first.  `numberOf_bytesOf` says what is left of
a number that is stored in `size` bytes and read back.
-/

namespace OpenKernel.Lib

/-- The number that these are the bytes of. -/
def numberOf (bytes : List UInt8) : Nat :=
  bytes.foldr (fun byte value => byte.toNat + 256 * value) 0

/-- The lowest `size` bytes of a number. -/
def bytesOf (size value : Nat) : List UInt8 :=
  (List.range size).map fun i => UInt8.ofNat (byteAt value i)

@[simp] theorem length_bytesOf (size value : Nat) : (bytesOf size value).length = size := by
  simp [bytesOf]

theorem toNat_byteAt (value i : Nat) : (UInt8.ofNat (byteAt value i)).toNat = byteAt value i := by
  rw [UInt8.toNat_ofNat']
  exact Nat.mod_eq_of_lt (byteAt_lt value i)

theorem byteAt_add (value i j : Nat) : byteAt value (i + j) = byteAt (value >>> (8 * i)) j := by
  rw [byteAt_eq, byteAt_eq, Nat.mul_add, Nat.shiftRight_add]

/-- The bytes of a number are those of its low part and those of what is above. -/
theorem bytesOf_add (size more value : Nat) :
    bytesOf (size + more) value = bytesOf size value ++ bytesOf more (value >>> (8 * size)) := by
  unfold bytesOf
  rw [List.range_add, List.map_append, List.map_map]
  refine congrArg (_ ++ ·) (List.map_congr_left fun i _ => ?_)
  show UInt8.ofNat (byteAt value (size + i)) = _
  rw [byteAt_add]

/-- What is read back of a number is what fits into the bytes. -/
theorem numberOf_bytesOf (size value : Nat) :
    numberOf (bytesOf size value) = value % 256 ^ size := by
  induction size generalizing value with
  | zero => exact (Nat.mod_one value).symm
  | succ size ih =>
    have hlow : byteAt value 0 = value % 256 := byteAt_eq value 0
    have hhigh : value >>> (8 * 1) = value / 256 := Nat.shiftRight_eq_div_pow value 8
    rw [Nat.add_comm, bytesOf_add, hhigh]
    show (UInt8.ofNat (byteAt value 0)).toNat + 256 * numberOf (bytesOf size (value / 256)) = _
    rw [toNat_byteAt, ih, hlow, Nat.pow_add, Nat.pow_one, Nat.mod_mul]

end OpenKernel.Lib
