import Mathlib.Data.Nat.Bitwise

/-!
# Bit fields of natural numbers

A byte array is a number in little-endian order: `byteAt` reads one byte of
it and `setByteAt` writes one.

A word packs a page-aligned address with flag bits below the page size and
above the address field.  The lemmas here separate the two: an aligned
address has no low flag bits, and masking the address field of a word that
packs an address gives the address back.
-/

namespace OpenKernel.Lib

/-! ## Bytes -/

/-- The byte at index `i`.  What is above it is cut off first, which keeps the
numbers small where a large one is evaluated. -/
def byteAt (n i : Nat) : Nat := (n % 2 ^ (8 * i + 8)) >>> (8 * i)

/-- The number with the byte `v` at index `i`. -/
def setByteAt (n i v : Nat) : Nat := n ^^^ ((byteAt n i ^^^ v) <<< (8 * i))

theorem byteAt_eq (n i : Nat) : byteAt n i = n >>> (8 * i) % 256 := by
  have h256 : 256 = 2 ^ 8 := rfl
  apply Nat.eq_of_testBit_eq
  intro j
  rw [byteAt, h256, Nat.testBit_mod_two_pow, Nat.testBit_shiftRight, Nat.testBit_shiftRight,
    Nat.testBit_mod_two_pow]
  congr 1
  exact decide_eq_decide.mpr (by omega)

theorem byteAt_lt (n i : Nat) : byteAt n i < 256 := by
  rw [byteAt_eq]
  exact Nat.mod_lt _ (by omega)

theorem testBit_byteAt (n i j : Nat) :
    (byteAt n i).testBit j = (decide (j < 8) && n.testBit (8 * i + j)) := by
  have h256 : 256 = 2 ^ 8 := rfl
  rw [byteAt_eq, h256, Nat.testBit_mod_two_pow, Nat.testBit_shiftRight]

/-- Writing a byte changes this byte and no other. -/
theorem byteAt_setByteAt (n i : Nat) {v : Nat} (hv : v < 256) (j : Nat) :
    byteAt (setByteAt n i v) j = if j = i then v else byteAt n j := by
  have hdiff : ∀ l, 8 ≤ l → (byteAt n i ^^^ v).testBit l = false := by
    intro l hl
    have hlt : byteAt n i ^^^ v < 2 ^ l :=
      lt_of_lt_of_le (Nat.xor_lt_two_pow (n := 8) (byteAt_lt n i) hv)
        (Nat.pow_le_pow_right (by omega) hl)
    exact Nat.testBit_lt_two_pow hlt
  refine Nat.eq_of_testBit_eq fun l => ?_
  rw [testBit_byteAt, setByteAt, Nat.testBit_xor, Nat.testBit_shiftLeft]
  by_cases hl : l < 8
  · by_cases hij : j = i
    · subst hij
      rw [if_pos rfl, Nat.add_sub_cancel_left, Nat.testBit_xor, testBit_byteAt]
      simp [hl]
    · rw [if_neg hij, testBit_byteAt]
      rcases Nat.lt_or_gt_of_ne hij with hlt | hgt
      · have hge : ¬ 8 * i ≤ 8 * j + l := by omega
        simp [hge]
      · rw [hdiff (8 * j + l - 8 * i) (by omega)]
        simp
  · have hpow : 2 ^ 8 ≤ 2 ^ l := Nat.pow_le_pow_right (by omega) (by omega)
    have hv' : v.testBit l = false :=
      Nat.testBit_lt_two_pow (lt_of_lt_of_le hv hpow)
    by_cases hij : j = i
    · rw [if_pos hij, hv']
      simp [hl]
    · rw [if_neg hij, testBit_byteAt]
      simp [hl]

/-! ## Flags and addresses -/

variable {x k n : Nat}

/-- The mask of the bits from `k` up to `k + n` keeps an aligned number
that fits below `2 ^ (k + n)`. -/
theorem and_fieldMask (hx : 2 ^ k ∣ x) (hlt : x < 2 ^ (k + n)) :
    x &&& 2 ^ k * (2 ^ n - 1) = x := by
  obtain ⟨c, rfl⟩ := hx
  have hc : c < 2 ^ n := by
    rw [Nat.pow_add] at hlt
    exact Nat.lt_of_mul_lt_mul_left hlt
  refine Nat.eq_of_testBit_eq fun i => ?_
  rw [Nat.testBit_and, Nat.testBit_two_pow_mul, Nat.testBit_two_pow_mul,
    Nat.testBit_two_pow_sub_one]
  rcases Nat.lt_or_ge (i - k) n with hi | hi
  · by_cases hk : k ≤ i <;> simp [hi, hk]
  · have hci : c < 2 ^ (i - k) :=
      lt_of_lt_of_le hc (Nat.pow_le_pow_right (by omega) hi)
    simp [Nat.testBit_lt_two_pow hci]

/-- Masking the low bits away rounds down to a multiple. -/
theorem and_highMask {w : Nat} (hx : x < 2 ^ w) (hk : k ≤ w) :
    x &&& ((2 ^ w - 1) ^^^ (2 ^ k - 1)) = 2 ^ k * (x / 2 ^ k) := by
  refine Nat.eq_of_testBit_eq fun i => ?_
  rw [Nat.testBit_and, Nat.testBit_xor, Nat.testBit_two_pow_sub_one,
    Nat.testBit_two_pow_sub_one, Nat.testBit_two_pow_mul, Nat.testBit_div_two_pow]
  rcases Nat.lt_or_ge i k with hlow | hhigh
  · have hlt : i < w := Nat.lt_of_lt_of_le hlow hk
    simp [hlow, hlt, Nat.not_le.mpr hlow]
  · rw [Nat.sub_add_cancel hhigh]
    rcases Nat.lt_or_ge i w with hlt | hge
    · simp [hhigh, hlt, Nat.not_lt.mpr hhigh]
    · have hbit : x.testBit i = false :=
        Nat.testBit_lt_two_pow (lt_of_lt_of_le hx (Nat.pow_le_pow_right (by omega) hge))
      simp [hbit]

/-- Masking with an aligned mask gives an aligned number. -/
theorem dvd_and_of_dvd (hb : 2 ^ k ∣ b) : 2 ^ k ∣ x &&& b := by
  obtain ⟨c, rfl⟩ := hb
  refine Nat.dvd_of_mod_eq_zero (Nat.eq_of_testBit_eq fun i => ?_)
  rw [Nat.testBit_mod_two_pow, Nat.testBit_and, Nat.testBit_two_pow_mul,
    Nat.zero_testBit]
  by_cases hi : i < k
  · simp [Nat.not_le.mpr hi]
  · simp [hi]

end OpenKernel.Lib
