import OpenKernel.Lib.Blocks
import OpenKernel.Memory.AcceptedImage
import OpenKernel.Userland.UserRanges

/-!
# Ranges of private memory

A range of virtual addresses is private when it is mapped to bytes that are
not shared inside it and that hold none of the tables it is mapped through.
What is stored to such a range is a flat memory (`HoldsBytes`).  The user stacks
that the loader allocates are private.
-/

namespace OpenKernel

open Lib

/-- The frame behind an address of the range. -/
def Backs (m : Memory) (bottom top frame : Nat) : Prop :=
  ∃ v a, bottom ≤ v ∧ v < top ∧ m.translate v = some a ∧ a / pageSize * pageSize = frame

structure PrivateRange (m : Memory) (bottom top : Nat) : Prop where
  mapped : ∀ v, bottom ≤ v → v < top → ∃ a, m.translate v = some a
  distinct : ∀ v w, bottom ≤ v → v < top → bottom ≤ w → w < top →
    m.translate v = m.translate w → v = w
  /-- what is written to the range leaves the tables -/
  stable : ∀ words, (∀ frame, ¬ Backs m bottom top frame → words frame = m.words frame) →
    ∀ v, bottom ≤ v → v < top → Memory.translate { m with words } v = m.translate v

/-- The memory differs from `m` in the frames behind the range, which holds
these bytes. -/
structure HoldsBytes (m : Memory) (bottom top : Nat) (f : Nat → UInt8) (m' : Memory) : Prop where
  words : ∃ words, m' = { m with words } ∧
    ∀ frame, ¬ Backs m bottom top frame → words frame = m.words frame
  bytes : ∀ v, bottom ≤ v → v < top → m'.loadByte v = some (f v)

namespace Memory

variable {m : Memory} {v a frame index value : Nat}

theorem loadByte_eq (m : Memory) (v : Nat) :
    m.loadByte v = (m.translate v).map m.physicalByte := by
  unfold loadByte physicalByte
  simp only [byteAt_eq]

theorem physicalByte_writeWord (m : Memory) (frame index value a : Nat) :
    (m.writeWord frame index value).physicalByte a =
      if a / pageSize * pageSize = frame ∧ a % pageSize / 8 = index then
        UInt8.ofNat (byteAt value (a % 8))
      else m.physicalByte a := by
  unfold physicalByte writeWord
  dsimp only
  by_cases hframe : a / pageSize * pageSize = frame
  · rw [hframe, put_same]
    by_cases hindex : a % pageSize / 8 = index
    · rw [hindex, put_same, if_pos ⟨rfl, rfl⟩]
    · rw [put_other hindex, if_neg fun h => hindex h.2]
  · rw [put_other hframe, if_neg fun h => hframe h.1]

/-- What an address is at a level of the walk. -/
theorem level_parts (v : Nat) {shift : Nat} (hshift : 12 ≤ shift) :
    v >>> shift = v / pageSize / 2 ^ (shift - 12) ∧
      v % 2 ^ shift = pageSize * (v / pageSize % 2 ^ (shift - 12)) + v % pageSize := by
  have hpow : 2 ^ shift = pageSize * 2 ^ (shift - 12) := by
    rw [show pageSize = 2 ^ 12 from rfl, ← Nat.pow_add, Nat.add_sub_cancel' hshift]
  rw [Nat.shiftRight_eq_div_pow, hpow, Nat.div_div_eq_div_mul, Nat.mod_mul, Nat.add_comm]
  exact ⟨rfl, rfl⟩

theorem largePageBase_mod (entry : Nat) {shift : Nat} (hshift : 12 ≤ shift) :
    largePageBase entry shift % pageSize = 0 := by
  unfold largePageBase
  have hpow : 2 ^ shift = 2 ^ (shift - 12) * pageSize := by
    rw [show pageSize = 2 ^ 12 from rfl, ← Nat.pow_add, Nat.sub_add_cancel hshift]
  rw [hpow, ← Nat.mul_assoc]
  exact Nat.mul_mod_left _ _

theorem translateFrom_page {w : Nat} (hpage : w / pageSize = v / pageSize) {shifts : List Nat}
    (hshifts : ∀ shift ∈ shifts, 12 ≤ shift) {table : Nat}
    (h : m.translateFrom v shifts table = some a) :
    ∃ base, base % pageSize = 0 ∧ a = base + v % pageSize ∧
      m.translateFrom w shifts table = some (base + w % pageSize) := by
  -- The page that a present entry maps, whatever its size.
  have hmaps : ∀ {shift base}, 12 ≤ shift → base % pageSize = 0 →
      base + v % 2 ^ shift = a → ∃ base', base' % pageSize = 0 ∧ a = base' + v % pageSize ∧
        some (base + w % 2 ^ shift) = some (base' + w % pageSize) := by
    intro shift base hshift hbase heq
    refine ⟨base + pageSize * (v / pageSize % 2 ^ (shift - 12)), ?_, ?_, ?_⟩
    · rw [Nat.add_mul_mod_self_left, hbase]
    · rw [← heq, (level_parts v hshift).2, Nat.add_assoc]
    · rw [(level_parts w hshift).2, hpage, Nat.add_assoc]
  induction shifts generalizing table with
  | nil => cases h
  | cons shift rest ih =>
    have hshift := hshifts shift (by simp)
    have hindex : w >>> shift = v >>> shift := by
      rw [(level_parts w hshift).1, (level_parts v hshift).1, hpage]
    cases rest with
    | nil =>
      rw [translateFrom] at h ⊢
      rw [hindex]
      split at h
      · rename_i hpresent
        rw [if_pos hpresent]
        exact hmaps hshift (target_mod _) (Option.some.inj h)
      · cases h
    | cons next rest =>
      rw [translateFrom] at h ⊢
      · rw [hindex]
        split at h
        · cases h
        · rename_i hpresent
          rw [if_neg hpresent]
          split at h
          · rename_i hhuge
            rw [if_pos hhuge]
            exact ih (fun shift hmem => hshifts shift (by simp [hmem])) h
          · rename_i hhuge
            rw [if_neg hhuge]
            split at h
            · cases h
            · rename_i hroot
              rw [if_neg hroot]
              exact hmaps hshift (largePageBase_mod _ hshift) (Option.some.inj h)
      all_goals simp

/-- Addresses in one page have physical addresses in one frame. -/
theorem translate_page {w : Nat} (hpage : w / pageSize = v / pageSize)
    (h : m.translate v = some a) :
    ∃ base, base % pageSize = 0 ∧ a = base + v % pageSize ∧
      m.translate w = some (base + w % pageSize) :=
  translateFrom_page hpage (by decide) h

end Memory

/-! ## The pages of a program -/

section Pages

variable {places : Places} {m : Memory} {space bottom top : Nat}

/-- A range of pages that the space has to itself, while it is active. -/
theorem Owned.privateRange (h : Owned places m) (hroot : places space = some (.space space, []))
    (hactive : m.cr3 = space) (htop : top ≤ userSpaceEnd)
    (hpages : ∀ v, bottom ≤ v → v < top → ∃ leaf, m.lookup space v = some leaf ∧
      places (target leaf) = some (.space space, pagePath v)) :
    PrivateRange m bottom top := by
  subst hactive
  have htranslate : ∀ v, bottom ≤ v → v < top → ∃ frame, frame % pageSize = 0 ∧
      places frame = some (.space m.cr3, pagePath v) ∧
        m.translate v = some (frame + v % pageSize) := by
    intro v hlow hhigh
    obtain ⟨leaf, hlookup, hplace⟩ := hpages v hlow hhigh
    exact ⟨target leaf, target_mod leaf, hplace, translateIn_of_lookup hlookup⟩
  refine ⟨fun v hlow hhigh => ?_, fun v w hv hv' hw hw' heq => ?_,
    fun words hwords v hlow hhigh => ?_⟩
  · obtain ⟨frame, -, -, ha⟩ := htranslate v hlow hhigh
    exact ⟨_, ha⟩
  · obtain ⟨frame, hframe, hplace, ha⟩ := htranslate v hv hv'
    obtain ⟨frame', hframe', hplace', ha'⟩ := htranslate w hw hw'
    rw [ha, ha'] at heq
    have hsum := Option.some.inj heq
    obtain ⟨hsame, hoffset⟩ : frame = frame' ∧ v % pageSize = w % pageSize := by
      unfold pageSize at *
      omega
    rw [hsame, hplace'] at hplace
    have hpath : pagePath w = pagePath v := (Prod.mk.inj (Option.some.inj hplace)).2
    have hpage := (pagePath_inj (by omega) (by omega)).mp hpath
    unfold pageSize at hpage hoffset
    omega
  · -- The frames behind the range are pages, and the tables are not.
    have hsame : SameEntries places m { m with words } fun _ _ _ => False := by
      refine sameEntries_of_words h fun f o path hf hlt => hwords f fun hbacks => ?_
      obtain ⟨u, a, hu, hu', ha, haframe⟩ := hbacks
      obtain ⟨frame, hframe, hplace, ha'⟩ := htranslate u hu hu'
      rw [ha, Option.some.injEq] at ha'
      have hfirst : f = frame := by
        unfold pageSize at *
        omega
      rw [hfirst, hplace] at hf
      obtain ⟨rfl, rfl⟩ := Prod.mk.inj (Option.some.inj hf)
      exact absurd hlt (show ¬ 4 < 4 by decide)
    have hentry := hsame (.space m.cr3) m.cr3 (upperIndices v) (leafIndex v) hroot rfl
      (within_space m.cr3 (by omega)) id
    obtain ⟨leaf, hlookup, -⟩ := hpages v hlow hhigh
    have hlookup' : Memory.lookup { m with words } m.cr3 v = some leaf := by
      rw [lookup_eq, h.aligned _ _ hroot, hentry, ← lookup_sound h hroot, hlookup]
    exact (translateIn_of_lookup hlookup').trans (translateIn_of_lookup hlookup).symm

/-- The stack that the loader has put into a space. -/
theorem loadUserElfInto_stack {image : List UInt8} {slot : Nat} {loaded : LoadedImage}
    {m' : Memory} (hspace : HasSpace space m) (hempty : EmptySpace m space)
    (hload : loadUserElfInto image space slot m = .ok loaded m') :
    PrivateRange (m'.switchAddressSpace space)
      (userStackTop slot - userStackPages * pageSize) (userStackTop slot) := by
  obtain ⟨places₀, places', rs, programHeaderOffset, count, segments, tlsPages, hloaded, -,
    hplan⟩ := loadUserElfInto_ok hspace hempty hload
  have howned := hloaded.filled.owned
  have haligned : (userStackTop slot - 1 * pageSize) % pageSize = 0 :=
    userStack_aligned (List.mem_map.mpr ⟨1, by decide, rfl⟩)
  -- The page that is so far below the top.
  have hpage : ∀ k, 1 ≤ k → k ≤ userStackPages → ∃ r ∈ rs,
      r.page = userStackTop slot - k * pageSize := by
    intro k hlow hhigh
    have hmem : userStackTop slot - k * pageSize ∈ userStack slot :=
      List.mem_map.mpr ⟨k, List.mem_range'_1.mpr ⟨hlow, by omega⟩, rfl⟩
    refine ⟨⟨userStackTop slot - k * pageSize, .userReadWrite, 0, 0, 0⟩, ?_, rfl⟩
    rw [hplan.requests]
    exact List.mem_append_left _ (List.mem_append_right _ (mem_stackRequests.mpr ⟨rfl, hmem⟩))
  have htop : userStackTop slot ≤ userSpaceEnd :=
    Nat.le_trans (Nat.sub_le _ _) (Nat.sub_le _ _)
  obtain ⟨lowest, hlowest, hbottom⟩ := hpage userStackPages (by decide) (Nat.le_refl _)
  have hroom : userStackPages * pageSize < userStackTop slot := by
    have hlow := (hloaded.pages lowest hlowest).1.1
    have hbase : 0 < futureUserSpaceBase := by decide
    omega
  have hactive : Owned places' (m'.switchAddressSpace space) :=
    ⟨howned.forest, howned.notFree, howned.allocated, howned.aligned⟩
  refine hactive.privateRange (hloaded.filled.kept _ _ hloaded.root) rfl htop fun v hlow hhigh => ?_
  have hnear : 1 ≤ userStackTop slot / pageSize - v / pageSize ∧
      userStackTop slot / pageSize - v / pageSize ≤ userStackPages := by
    unfold userStackPages pageSize at *
    omega
  obtain ⟨r, hr, hrpage⟩ := hpage _ hnear.1 hnear.2
  have hsame : v / pageSize = r.page / pageSize := by
    unfold userStackPages pageSize at *
    omega
  obtain ⟨huser, frame, hplace, hentry, -⟩ := hloaded.pages r hr
  have hframe : target (frame ||| r.flags.bits) = frame :=
    target_page (howned.aligned _ _ hplace) _
  refine ⟨frame ||| r.flags.bits, ?_, ?_⟩
  · show m'.lookup space v = _
    rw [lookup_page m' space (by omega) huser.2 hsame,
      lookup_sound howned (hloaded.filled.kept _ _ hloaded.root), hentry]
  · rw [hframe, hplace, (pagePath_inj (by omega) huser.2).mpr hsame]

end Pages

/-! ## Stores -/

section Stores

variable {m m' m'' : Memory} {bottom top v value : Nat} {f g : Nat → UInt8} {bytes : List UInt8}

/-- What the range holds to begin with. -/
def Memory.rangeBytes (m : Memory) (v : Nat) : UInt8 := (m.loadByte v).getD 0

theorem PrivateRange.holdsBytes (hm : PrivateRange m bottom top) :
    HoldsBytes m bottom top m.rangeBytes m := by
  refine ⟨⟨m.words, rfl, fun _ _ => rfl⟩, fun v hlow hhigh => ?_⟩
  obtain ⟨a, ha⟩ := hm.mapped v hlow hhigh
  unfold Memory.rangeBytes
  rw [Memory.loadByte_eq, ha]
  rfl

theorem HoldsBytes.translate (h : HoldsBytes m bottom top f m') (hm : PrivateRange m bottom top)
    (hlow : bottom ≤ v) (hhigh : v < top) : m'.translate v = m.translate v := by
  obtain ⟨words, rfl, hwords⟩ := h.words
  exact hm.stable words hwords v hlow hhigh

theorem HoldsBytes.physicalByte {a : Nat} (h : HoldsBytes m bottom top f m')
    (hm : PrivateRange m bottom top)
    (hlow : bottom ≤ v) (hhigh : v < top) (ha : m.translate v = some a) :
    m'.physicalByte a = f v := by
  have hbyte := h.bytes v hlow hhigh
  rw [Memory.loadByte_eq, h.translate hm hlow hhigh, ha] at hbyte
  exact Option.some.inj hbyte

/-- New words in the frames behind the range. -/
theorem HoldsBytes.update (h : HoldsBytes m bottom top f m') (hm : PrivateRange m bottom top)
    (hwords : ∃ words, m'' = { m' with words } ∧
      ∀ frame, ¬ Backs m bottom top frame → words frame = m'.words frame)
    (hbytes : ∀ u a, bottom ≤ u → u < top → m.translate u = some a → m''.physicalByte a = g u) :
    HoldsBytes m bottom top g m'' := by
  obtain ⟨words, rfl, hkept⟩ := h.words
  obtain ⟨words', rfl, hkept'⟩ := hwords
  have hboth : ∀ frame, ¬ Backs m bottom top frame → words' frame = m.words frame :=
    fun frame hframe => (hkept' frame hframe).trans (hkept frame hframe)
  refine ⟨⟨words', rfl, hboth⟩, fun u hlow hhigh => ?_⟩
  obtain ⟨a, ha⟩ := hm.mapped u hlow hhigh
  have htranslate : Memory.translate { m with words := words' } u = some a :=
    (hm.stable words' hboth u hlow hhigh).trans ha
  rw [Memory.loadByte_eq, htranslate, Option.map_some, hbytes u a hlow hhigh ha]

theorem HoldsBytes.storeByte {a : Nat} (h : HoldsBytes m bottom top f m')
    (hm : PrivateRange m bottom top)
    (hlow : bottom ≤ v) (hhigh : v < top) (ha : m.translate v = some a) (byte : UInt8) :
    HoldsBytes m bottom top (fun u => if u = v then byte else f u) (m'.storeByte a byte) := by
  refine h.update hm ⟨_, rfl, fun frame hframe => put_other fun heq => ?_⟩
    fun u c hulow huhigh hc => ?_
  · exact hframe ⟨v, a, hlow, hhigh, ha, heq.symm⟩
  · rw [Memory.physicalByte_storeByte]
    by_cases hsame : u = v
    · rw [if_pos hsame, if_pos]
      rw [hsame, ha] at hc
      exact (Option.some.inj hc).symm
    · rw [if_neg hsame, if_neg fun heq => ?_, h.physicalByte hm hulow huhigh hc]
      exact hsame (hm.distinct u v hulow huhigh hlow hhigh (by rw [hc, ha, heq]))

theorem HoldsBytes.storeBytes (h : HoldsBytes m bottom top f m') (hm : PrivateRange m bottom top)
    (hlow : bottom ≤ v) (hhigh : v + bytes.length ≤ top) :
    ∃ m'', m'.storeBytes v bytes = some m'' ∧
      HoldsBytes m bottom top (Block.write f (v, bytes)) m'' := by
  induction bytes generalizing v f m' with
  | nil =>
    refine ⟨m', rfl, ?_⟩
    have hsame : Block.write f (v, []) = f := by
      funext u
      exact Block.write_other fun hcovers => absurd hcovers.2 (Nat.not_lt_of_le hcovers.1)
    rw [hsame]
    exact h
  | cons byte bytes ih =>
    rw [List.length_cons] at hhigh
    obtain ⟨a, ha⟩ := hm.mapped v hlow (by omega)
    obtain ⟨m'', hstore, hbytes⟩ := ih (h.storeByte hm hlow (by omega) ha byte)
      (Nat.le_succ_of_le hlow) (by omega)
    refine ⟨m'', ?_, ?_⟩
    · rw [Memory.storeBytes, h.translate hm hlow (by omega), ha]
      exact hstore
    · rw [Block.write_cons]
      exact hbytes

theorem getElem?_littleEndianBytes {j : Nat} (hj : j < 8) :
    (littleEndianBytes value)[j]? = some (UInt8.ofNat (byteAt value j)) := by
  unfold littleEndianBytes bytesOf
  rw [List.getElem?_map, List.getElem?_range hj, Option.map_some]

theorem HoldsBytes.storeWord (h : HoldsBytes m bottom top f m') (hm : PrivateRange m bottom top)
    (haligned : v % 8 = 0) (hlow : bottom ≤ v) (hhigh : v + 8 ≤ top) (value : Nat) :
    ∃ m'', m'.storeWord v value = some m'' ∧
      HoldsBytes m bottom top (Block.write f (v, littleEndianBytes value)) m'' := by
  obtain ⟨a, ha⟩ := hm.mapped v hlow (by omega)
  refine ⟨m'.writeWord (a / pageSize * pageSize) (a % pageSize / 8) value, ?_, ?_⟩
  · unfold Memory.storeWord
    rw [h.translate hm hlow (by omega), ha]
    rfl
  -- The eight addresses of the word lie in one page, and so do their bytes.
  have hword : ∀ j < 8, m.translate (v + j) = some (a + j) := by
    intro j hj
    have hpage : (v + j) / pageSize = v / pageSize := by
      unfold pageSize
      omega
    obtain ⟨base, hbase, rfl, htranslate⟩ := Memory.translate_page hpage ha
    rw [htranslate]
    congr 1
    unfold pageSize
    omega
  have ha8 : a % 8 = 0 := by
    obtain ⟨base, hbase, rfl, -⟩ := Memory.translate_page rfl ha
    unfold pageSize at *
    omega
  refine h.update hm ⟨_, rfl, fun frame hframe => put_other fun heq => ?_⟩
    fun u c hulow huhigh hc => ?_
  · exact hframe ⟨v, a, hlow, by omega, ha, heq.symm⟩
  · rw [Memory.physicalByte_writeWord]
    by_cases hin : v ≤ u ∧ u < v + 8
    · obtain ⟨j, rfl⟩ := Nat.exists_eq_add_of_le hin.1
      have hj : j < 8 := by omega
      rw [hword j hj] at hc
      obtain rfl := Option.some.inj hc
      have hwritten : some (Block.write f (v, littleEndianBytes value) (v + j)) =
          some (UInt8.ofNat (byteAt value j)) := by
        rw [← getElem?_littleEndianBytes hj]
        exact Block.write_at (b := (v, littleEndianBytes value)) (by simpa using hj)
      rw [Option.some.inj hwritten, if_pos, show (a + j) % 8 = j by omega]
      unfold pageSize
      omega
    · rw [Block.write_other, if_neg fun hsame => ?_, h.physicalByte hm hulow huhigh hc]
      · have hsum : c = a + c % 8 := by
          obtain ⟨hframe, hindex⟩ := hsame
          unfold pageSize at hframe hindex
          omega
        have hu := hm.distinct u (v + c % 8) hulow huhigh (by omega) (by omega)
          (by rw [hc, hword (c % 8) (Nat.mod_lt _ (by decide)), ← hsum])
        omega
      · rintro ⟨hle, hlt⟩
        rw [length_littleEndianBytes] at hlt
        exact hin ⟨hle, hlt⟩

/-- A word that the range holds. -/
theorem HoldsBytes.loadWord (h : HoldsBytes m bottom top f m') (hlow : bottom ≤ v)
    (hhigh : v + 8 ≤ top)
    (hvalue : value < 2 ^ 64) (hf : ∀ j < 8, some (f (v + j)) = (littleEndianBytes value)[j]?) :
    m'.loadWord v = some value := by
  have hbyte : ∀ j < 8, m'.loadByte (v + j) = some (UInt8.ofNat (byteAt value j)) := by
    intro j hj
    rw [h.bytes _ (by omega) (by omega), hf j hj, getElem?_littleEndianBytes hj]
  have hbytes : (List.range 8).mapM (fun index => m'.loadByte (v + index)) =
      some (littleEndianBytes value) := by
    simp only [List.range, List.range.loop, List.mapM_cons, List.mapM_nil, hbyte 0 (by decide),
      hbyte 1 (by decide), hbyte 2 (by decide), hbyte 3 (by decide), hbyte 4 (by decide),
      hbyte 5 (by decide), hbyte 6 (by decide), hbyte 7 (by decide)]
    refine congrArg some (List.ext_getElem? fun j => ?_)
    rcases Nat.lt_or_ge j 8 with hj | hj
    · rw [getElem?_littleEndianBytes hj]
      interval_cases j <;> rfl
    · rw [List.getElem?_eq_none_iff.mpr (by simpa using hj),
        List.getElem?_eq_none_iff.mpr (by simpa using hj)]
  unfold Memory.loadWord
  rw [hbytes, Option.map_some, littleEndianWord_littleEndianBytes value hvalue]

end Stores

end OpenKernel
