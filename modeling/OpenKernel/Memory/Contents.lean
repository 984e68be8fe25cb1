import OpenKernel.Memory.Mmu
import OpenKernel.Lib.BitFields

/-!
# The bytes of physical memory

Memory is kept in words.  `physicalByte` reads the byte at a physical address, and
`write_physical_frame`, which stores byte after byte, changes the bytes of its
range and no others.
-/

namespace OpenKernel

open Lib

/-! ## Bytes of a word -/

section Word

variable {n v : Nat}

/-- The three parts of a word around one of its bytes. -/
theorem word_parts (n i : Nat) :
    n = 2 ^ (8 * i) * (2 ^ 8 * (n >>> (8 * i) / 256) + byteAt n i) + n % 2 ^ (8 * i) := by
  have hbyte := Nat.div_add_mod (n >>> (8 * i)) 256
  rw [byteAt_eq, show 2 ^ 8 = 256 from rfl, hbyte, Nat.shiftRight_eq_div_pow, Nat.div_add_mod]

/-- Taking a byte out of a word and putting another in, as `storeByte` does. -/
theorem replaceByte_eq (n i v : Nat) :
    n - byteAt n i * 2 ^ (8 * i) + v * 2 ^ (8 * i) =
      2 ^ (8 * i) * (2 ^ 8 * (n >>> (8 * i) / 256) + v) + n % 2 ^ (8 * i) := by
  have hparts := word_parts n i
  generalize 2 ^ (8 * i) = p at *
  generalize n >>> (8 * i) / 256 = high at *
  generalize byteAt n i = b at *
  generalize n % p = low at *
  rw [Nat.mul_add] at hparts ⊢
  rw [Nat.mul_comm b, Nat.mul_comm v]
  omega

theorem byteAt_replaceByte (n i : Nat) (hv : v < 256) (j : Nat) :
    byteAt (n - byteAt n i * 2 ^ (8 * i) + v * 2 ^ (8 * i)) j =
      if j = i then v else byteAt n j := by
  have hlow : n % 2 ^ (8 * i) < 2 ^ (8 * i) := Nat.mod_lt _ (Nat.two_pow_pos _)
  have hb : byteAt n i < 2 ^ 8 := byteAt_lt n i
  refine Nat.eq_of_testBit_eq fun l => ?_
  rw [replaceByte_eq, testBit_byteAt, Nat.testBit_two_pow_mul_add _ hlow,
    Nat.testBit_two_pow_mul_add _ hv]
  by_cases hl : l < 8
  · rw [decide_eq_true hl, Bool.true_and]
    by_cases hji : j = i
    · rw [if_pos hji, hji, if_neg (by omega), if_pos (by omega)]
      congr 1
      omega
    · rw [if_neg hji, testBit_byteAt, decide_eq_true hl, Bool.true_and]
      conv_rhs => rw [word_parts n i]
      rw [Nat.testBit_two_pow_mul_add _ hlow, Nat.testBit_two_pow_mul_add _ hb]
      by_cases hlt : 8 * j + l < 8 * i
      · rw [if_pos hlt, if_pos hlt]
      · rw [if_neg hlt, if_neg hlt, if_neg (by omega), if_neg (by omega)]
  · have hpow : 2 ^ 8 ≤ 2 ^ l := Nat.pow_le_pow_right (by decide) (Nat.le_of_not_lt hl)
    rw [decide_eq_false hl, Bool.false_and]
    symm
    refine Nat.testBit_lt_two_pow (Nat.lt_of_lt_of_le ?_ hpow)
    split
    · exact hv
    · exact byteAt_lt n j

end Word

/-! ## Bytes of memory -/

namespace Memory

variable {m : Memory} {address a : Nat} {source : List UInt8}

/-- The byte at a physical address. -/
def physicalByte (m : Memory) (address : Nat) : UInt8 :=
  UInt8.ofNat (byteAt (m.words (address / pageSize * pageSize) (address % pageSize / 8))
    (address % 8))

theorem physicalByte_congr {m' : Memory}
    (h : m'.words (a / pageSize * pageSize) = m.words (a / pageSize * pageSize)) :
    m'.physicalByte a = m.physicalByte a := by
  unfold physicalByte
  rw [h]

theorem physicalByte_clear (h : m.words (a / pageSize * pageSize) = fun _ => 0) :
    m.physicalByte a = 0 := by
  unfold physicalByte
  rw [h, byteAt_eq, Nat.zero_shiftRight]
  rfl

theorem words_storeByte (byte : UInt8) {f : Nat} (hf : f ≠ address / pageSize * pageSize) :
    (m.storeByte address byte).words f = m.words f := put_other hf

theorem physicalByte_storeByte (m : Memory) (address : Nat) (byte : UInt8) (a : Nat) :
    (m.storeByte address byte).physicalByte a = if a = address then byte else m.physicalByte a := by
  by_cases hframe : a / pageSize * pageSize = address / pageSize * pageSize
  · have hwords : (m.storeByte address byte).words (a / pageSize * pageSize) =
        put (m.words (a / pageSize * pageSize)) (address % pageSize / 8)
          (m.words (a / pageSize * pageSize) (address % pageSize / 8) -
            byteAt (m.words (a / pageSize * pageSize) (address % pageSize / 8)) (address % 8) *
              2 ^ (8 * (address % 8)) + byte.toNat * 2 ^ (8 * (address % 8))) := by
      rw [hframe, byteAt_eq]
      exact put_same _ _ _
    unfold physicalByte
    rw [hwords]
    by_cases hindex : a % pageSize / 8 = address % pageSize / 8
    · rw [hindex, put_same, byteAt_replaceByte _ _ byte.toNat_lt]
      by_cases hbyte : a % 8 = address % 8
      · have ha : a = address := by
          unfold pageSize at *
          omega
        rw [if_pos hbyte, if_pos ha]
        exact UInt8.ofNat_toNat
      · rw [if_neg hbyte, if_neg (fun ha => hbyte (by rw [ha]))]
    · rw [put_other hindex, if_neg (fun ha => hindex (by rw [ha]))]
  · rw [if_neg (fun ha => hframe (by rw [ha]))]
    exact physicalByte_congr (words_storeByte byte hframe)

/-- The store loop from any byte of the source on. -/
theorem storeBytes_from (m : Memory) (address : Nat) (source : List UInt8) (start : Nat) :
    let m' := (source.zipIdx start).foldl
      (fun m entry => m.storeByte (address + entry.2) entry.1) m
    (∃ words, m' = { m with words }) ∧
      (∀ f, (∀ i < source.length, f ≠ (address + start + i) / pageSize * pageSize) →
        m'.words f = m.words f) ∧
      ∀ a, m'.physicalByte a = if address + start ≤ a then
        source[a - (address + start)]?.getD (m.physicalByte a) else m.physicalByte a := by
  induction source generalizing m start with
  | nil =>
    refine ⟨⟨m.words, rfl⟩, fun f _ => rfl, fun a => ?_⟩
    rw [List.getElem?_nil, Option.getD_none, ite_self]
    rfl
  | cons byte source ih =>
    obtain ⟨⟨words, hother⟩, hwords, hbytes⟩ := ih (m.storeByte (address + start) byte) (start + 1)
    rw [List.zipIdx_cons, List.foldl_cons]
    refine ⟨⟨words, hother⟩, fun f hf => ?_, fun a => ?_⟩
    · rw [hwords f fun i hi => ?_]
      · exact words_storeByte byte (hf 0 (Nat.zero_lt_succ _))
      · have := hf (i + 1) (Nat.succ_lt_succ hi)
        rwa [show address + start + (i + 1) = address + (start + 1) + i by omega] at this
    · rw [hbytes a, physicalByte_storeByte]
      by_cases hlow : a < address + start
      · rw [if_neg (by omega), if_neg (by omega), if_neg (by omega)]
      · by_cases hfirst : a = address + start
        · rw [if_neg (by omega), if_pos hfirst, if_pos (by omega), hfirst, Nat.sub_self]
          rfl
        · rw [if_pos (by omega), if_neg hfirst, if_pos (by omega),
            show a - (address + start) = a - (address + (start + 1)) + 1 by omega,
            List.getElem?_cons_succ]

/-- `write_physical_frame` writes words of its frames only. -/
theorem writePhysicalFrame_words (m : Memory) (address : Nat) (source : List UInt8) :
    ∃ words, m.writePhysicalFrame address source = { m with words } :=
  (storeBytes_from m address source 0).1

theorem words_writePhysicalFrame {f : Nat}
    (hf : ∀ i < source.length, f ≠ (address + i) / pageSize * pageSize) :
    (m.writePhysicalFrame address source).words f = m.words f :=
  (storeBytes_from m address source 0).2.1 f hf

theorem physicalByte_writePhysicalFrame (m : Memory) (address : Nat) (source : List UInt8) (a : Nat) :
    (m.writePhysicalFrame address source).physicalByte a =
      if address ≤ a then source[a - address]?.getD (m.physicalByte a) else m.physicalByte a :=
  (storeBytes_from m address source 0).2.2 a

end Memory

end OpenKernel
