import OpenKernel.Memory.AcceptedImage

/-!
# The initial TLS block

Compiled code finds its thread-locals below the thread pointer, at the offset
that the size and the alignment of the TLS segment give.  `load_initial_tls`
rounds with an alignment of at least 16 and puts the data at the start of the
block.  The two agree when the rounding does, or when all initial values are
zero.
-/

namespace OpenKernel

open Lib
open CheckedLoader (checkedAdd_eq_some)

/-- `value` rounded up to a multiple of `align`. -/
def roundUp (value align : Nat) : Nat := (value + (align - 1)) / align * align

/-- The alignment of the segment, 0 standing for 1. -/
def TlsImage.alignment (tls : TlsImage) : Nat := max tls.align 1

/-- The block is where compiled code looks for it. -/
structure TlsPlaced (image : List UInt8) (space : Nat) (tls : TlsImage) (fsBase : Nat)
    (m : Memory) : Prop where
  aligned : tls.alignment ∣ fsBase
  file : ∀ i < tls.fileSize,
    m.byteIn space (fsBase - roundUp tls.memorySize tls.alignment + i) = image[tls.fileOffset + i]?
  zeros : ∀ i, tls.fileSize ≤ i → i < tls.memorySize →
    m.byteIn space (fsBase - roundUp tls.memorySize tls.alignment + i) = some 0
  control : ∀ i < tlsTcbSize, ∃ frame,
    m.lookup space (fsBase + i) = some (frame ||| PageFlags.userReadWrite.bits)

/-- The start of the block is aligned, and rounding up as the loader does
gives the size that compiled code expects, or there is nothing but zeros to be
found. -/
def TlsAgrees (image : List UInt8) (slot : Nat) (tls : TlsImage) : Prop :=
  tls.alignment ∣ tlsBase slot ∧
    (roundUp (max tls.memorySize 1) (max tls.align 16) = roundUp tls.memorySize tls.alignment ∨
      ∀ i < tls.fileSize, image[tls.fileOffset + i]? = some 0)

/-! ## Rounding -/

section Rounding

variable {value align b : Nat}

theorem le_roundUp (h : 0 < align) : value ≤ roundUp value align := by
  have hmod := Nat.div_add_mod (value + (align - 1)) align
  have hlt := Nat.mod_lt (value + (align - 1)) h
  unfold roundUp
  rw [Nat.mul_comm]
  omega

theorem dvd_roundUp (value align : Nat) : align ∣ roundUp value align :=
  Nat.dvd_mul_left _ _

theorem roundUp_le (h : 0 < align) (hdvd : align ∣ b) (hle : value ≤ b) :
    roundUp value align ≤ b := by
  obtain ⟨c, rfl⟩ := hdvd
  unfold roundUp
  rw [Nat.mul_comm]
  refine Nat.mul_le_mul_left align (Nat.le_of_lt_succ ?_)
  rw [Nat.div_lt_iff_lt_mul h, Nat.succ_mul, Nat.mul_comm c]
  omega

theorem TlsImage.Accepted.alignment {image : List UInt8} {tls : TlsImage}
    (h : tls.Accepted image) : ∃ k, tls.alignment = 2 ^ k := by
  unfold TlsImage.alignment
  rcases h.align with hzero | hpower
  · exact ⟨0, by rw [hzero]; rfl⟩
  · obtain ⟨k, hk⟩ := Nat.ne_zero_and_sub_one_eq_zero_iff_isPowerOfTwo.mp hpower
    have hpos := Nat.two_pow_pos k
    exact ⟨k, by rw [hk]; omega⟩

/-- The alignment that the loader uses. -/
theorem TlsImage.max_align (tls : TlsImage) : max tls.align 16 = max tls.alignment 16 := by
  unfold TlsImage.alignment
  omega

theorem max_two_pow (k : Nat) : max (2 ^ k) 16 = 2 ^ max k 4 := by
  rcases Nat.le_total k 4 with hk | hk
  · have hle : 2 ^ k ≤ 2 ^ 4 := Nat.pow_le_pow_right (by decide) hk
    rw [Nat.max_eq_right hk]
    exact Nat.max_eq_right hle
  · have hle : 2 ^ 4 ≤ 2 ^ k := Nat.pow_le_pow_right (by decide) hk
    rw [Nat.max_eq_left hk]
    exact Nat.max_eq_left hle

end Rounding

/-! ## The bounds of the block -/

section Bounds

variable {image : List UInt8} {slot fsBase stop : Nat} {tls : TlsImage}

theorem alignDown_two_pow {value k : Nat} (h : value < 2 ^ 64) (hk : k ≤ 64) :
    alignDown value (2 ^ k) = value / 2 ^ k * 2 ^ k := by
  rw [Nat.mul_comm]
  exact and_highMask h hk

/-- The thread pointer is the start of the block and its rounded size. -/
theorem tlsBounds_ok (haccepted : tls.Accepted image)
    (h : tlsBounds slot tls = .ok (fsBase, stop)) :
    fsBase = tlsBase slot + roundUp (max tls.memorySize 1) (max tls.align 16) ∧
      stop = fsBase + tlsTcbSize ∧ stop < 2 ^ 64 := by
  obtain ⟨k, hk⟩ := haccepted.alignment
  have halign : max tls.align 16 = 2 ^ max k 4 := by
    rw [tls.max_align, hk, max_two_pow]
  unfold tlsBounds at h
  obtain ⟨padded, hpadded, h⟩ := except_bind_ok h
  obtain ⟨pointer, hpointer, h⟩ := except_bind_ok h
  obtain ⟨stop', hstop, h⟩ := except_bind_ok h
  obtain ⟨rfl, rfl⟩ := Prod.mk.inj (Except.ok.inj h)
  obtain ⟨rfl, hlt⟩ := checkedAdd_eq_some (required_ok hpadded)
  obtain ⟨rfl, -⟩ := checkedAdd_eq_some (required_ok hpointer)
  obtain ⟨rfl, hend⟩ := checkedAdd_eq_some (required_ok hstop)
  have hsmall : max k 4 ≤ 64 := by
    refine (Nat.pow_le_pow_iff_right (by decide : 1 < 2)).mp ?_
    rw [← halign]
    omega
  refine ⟨?_, rfl, hend⟩
  unfold roundUp
  rw [halign] at hlt ⊢
  rw [alignDown_two_pow hlt hsmall]

end Bounds

/-! ## What the loader has put there -/

section Block

variable {image : List UInt8} {space slot : Nat} {m m' : Memory} {loaded : LoadedImage}
  {tls : TlsImage}

/-- The byte at this offset of the block. -/
def TlsImage.byte (tls : TlsImage) (image : List UInt8) (offset : Nat) : UInt8 :=
  if offset < tls.fileSize then image[tls.fileOffset + offset]?.getD 0 else 0

/-- The block: the bytes of the file from its start on, then zeros, in pages
that can be written. -/
structure TlsFilled (image : List UInt8) (space slot : Nat) (tls : TlsImage) (fsBase : Nat)
    (m : Memory) : Prop where
  accepted : tls.Accepted image
  pointer : fsBase = tlsBase slot + roundUp (max tls.memorySize 1) (max tls.align 16)
  bytes : ∀ offset, tlsBase slot + offset < fsBase + tlsTcbSize →
    m.byteIn space (tlsBase slot + offset) = some (tls.byte image offset)
  pages : ∀ offset, tlsBase slot + offset < fsBase + tlsTcbSize → ∃ frame,
    m.lookup space (tlsBase slot + offset) = some (frame ||| PageFlags.userReadWrite.bits)

theorem tls_filled (hspace : HasSpace space m) (hempty : EmptySpace m space)
    (hload : loadUserElfInto image space slot m = .ok loaded m') (htls : loaded.tls = some tls) :
    TlsFilled image space slot tls loaded.fsBase m' := by
  obtain ⟨places₀, places', rs, programHeaderOffset, count, segments, tlsPages, hloaded, -, hplan⟩ :=
    loadUserElfInto_ok hspace hempty hload
  have haccepted := hplan.tls_accepted htls
  rcases hplan.tls with ⟨hnone, -⟩ | ⟨tls', stop, htls', hbounds, hpages⟩
  · rw [htls] at hnone
    cases hnone
  rw [htls] at htls'
  obtain rfl := Option.some.inj htls'
  obtain ⟨hpointer, hstop, hlt⟩ := tlsBounds_ok haccepted hbounds
  have hsees : ∀ offset, tlsBase slot + offset < loaded.fsBase + tlsTcbSize →
      (∃ frame, m'.lookup space (tlsBase slot + offset) =
        some (frame ||| PageFlags.userReadWrite.bits) ∧ target frame = frame) ∧
      m'.byteIn space (tlsBase slot + offset) = some (tls.byte image offset) := by
    intro offset hoffset
    rw [← hstop] at hoffset
    have hpage : (tlsBase slot + offset) / pageSize * pageSize ∈
        pagesBetween (alignDown (tlsBase slot) pageSize) (alignDown (stop - 1) pageSize) := by
      rw [mem_pagesBetween (by omega) (by omega)]
      unfold pageSize
      omega
    have hr : (⟨(tlsBase slot + offset) / pageSize * pageSize, .userReadWrite, tlsBase slot,
        tls.fileOffset, tls.fileSize⟩ : PageRequest) ∈ rs := by
      rw [hplan.requests, hpages]
      exact List.mem_append_right _ (List.mem_map.mpr ⟨_, hpage, rfl⟩)
    have hseen := hloaded.sees hr (Nat.mul_mod_left _ _)
      (Nat.mul_div_cancel _ (show 0 < pageSize by decide)).symm
    refine ⟨hseen.1, ?_⟩
    rw [hseen.2]
    unfold TlsImage.byte
    dsimp only
    rw [Nat.add_sub_cancel_left, if_congr (show _ ↔ offset < tls.fileSize by omega) rfl rfl]
  exact ⟨haccepted, hpointer, fun offset hoffset => (hsees offset hoffset).2,
    fun offset hoffset => (hsees offset hoffset).1.imp fun frame hframe => hframe.1⟩

end Block

/-! ## Where compiled code looks -/

section Placed

variable {image : List UInt8} {space slot fsBase : Nat} {m m' : Memory} {loaded : LoadedImage}
  {tls : TlsImage}

/-- Bytes that repeat at a distance, up to where there are only zeros, are
zeros. -/
theorem zero_of_shift {f : Nat → UInt8} {distance limit : Nat} (hdistance : 0 < distance)
    (hshift : ∀ i < limit, f (distance + i) = f i) (hzero : ∀ i, limit ≤ i → f i = 0) (i : Nat) :
    f i = 0 := by
  by_cases hi : limit ≤ i
  · exact hzero i hi
  · rw [← hshift i (Nat.lt_of_not_le hi)]
    exact zero_of_shift hdistance hshift hzero (distance + i)
termination_by limit - i

theorem TlsImage.Accepted.byte_eq (h : tls.Accepted image) {i : Nat} (hi : i < tls.fileSize) :
    image[tls.fileOffset + i]? = some (tls.byte image i) := by
  have hlt : tls.fileOffset + i < image.length := by
    have := h.inFile
    omega
  unfold TlsImage.byte
  rw [if_pos hi, List.getElem?_eq_getElem hlt]
  rfl

/-- The block is in place when its bytes are those at the offset that the
loader's rounding leaves. -/
theorem TlsFilled.placed_iff (h : TlsFilled image space slot tls fsBase m) {distance : Nat}
    (hdistance : roundUp (max tls.memorySize 1) (max tls.align 16) =
      roundUp tls.memorySize tls.alignment + distance) :
    TlsPlaced image space tls fsBase m ↔ tls.alignment ∣ fsBase ∧
      ∀ i < tls.memorySize, tls.byte image (distance + i) = tls.byte image i := by
  have hpos : 0 < tls.alignment := Nat.lt_of_lt_of_le Nat.zero_lt_one (Nat.le_max_right _ _)
  have hsize : tls.memorySize ≤ roundUp tls.memorySize tls.alignment := le_roundUp hpos
  have hpointer := h.pointer
  rw [hdistance] at hpointer
  have hbyte : ∀ i < tls.memorySize,
      m.byteIn space (fsBase - roundUp tls.memorySize tls.alignment + i) =
        some (tls.byte image (distance + i)) := by
    intro i hi
    rw [← h.bytes (distance + i) (by omega)]
    congr 1
    omega
  have hfits := h.accepted.fits
  constructor
  · intro hplaced
    refine ⟨hplaced.aligned, fun i hi => ?_⟩
    have hseen := hbyte i hi
    rcases Nat.lt_or_ge i tls.fileSize with hfile | hfile
    · rw [hplaced.file i hfile, h.accepted.byte_eq hfile] at hseen
      exact (Option.some.inj hseen).symm
    · rw [hplaced.zeros i hfile hi] at hseen
      rw [← Option.some.inj hseen]
      unfold TlsImage.byte
      rw [if_neg (Nat.not_lt_of_le hfile)]
  · rintro ⟨haligned, hsame⟩
    refine ⟨haligned, fun i hi => ?_, fun i hi hlt => ?_, fun i hi => ?_⟩
    · rw [hbyte i (Nat.lt_of_lt_of_le hi hfits), hsame i (Nat.lt_of_lt_of_le hi hfits),
        h.accepted.byte_eq hi]
    · rw [hbyte i hlt, hsame i hlt]
      unfold TlsImage.byte
      rw [if_neg (Nat.not_lt_of_le hi)]
    · have hpage := h.pages (fsBase - tlsBase slot + i) (by omega)
      rwa [show tlsBase slot + (fsBase - tlsBase slot + i) = fsBase + i by omega] at hpage

/-- Compiled code finds its thread-locals exactly when the start of the block
is aligned and the rounding agrees or all initial values are zero. -/
theorem tls_image_placed (hspace : HasSpace space m) (hempty : EmptySpace m space)
    (hload : loadUserElfInto image space slot m = .ok loaded m') (htls : loaded.tls = some tls) :
    TlsPlaced image space tls loaded.fsBase m' ↔ TlsAgrees image slot tls := by
  have hfilled := tls_filled hspace hempty hload htls
  obtain ⟨k, hk⟩ := hfilled.accepted.alignment
  have hpos : 0 < tls.alignment := by
    rw [hk]
    exact Nat.two_pow_pos k
  have hcoarser : tls.alignment ∣ roundUp (max tls.memorySize 1) (max tls.align 16) := by
    refine Nat.dvd_trans ?_ (dvd_roundUp _ _)
    rw [tls.max_align, hk, max_two_pow]
    exact Nat.pow_dvd_pow 2 (Nat.le_max_left k 4)
  have hlarger : roundUp tls.memorySize tls.alignment ≤
      roundUp (max tls.memorySize 1) (max tls.align 16) := by
    refine roundUp_le hpos hcoarser ?_
    have hle : max tls.memorySize 1 ≤ roundUp (max tls.memorySize 1) (max tls.align 16) :=
      le_roundUp (Nat.lt_of_lt_of_le (by decide : 0 < 16) (Nat.le_max_right _ _))
    omega
  obtain ⟨distance, hdistance⟩ := Nat.exists_eq_add_of_le hlarger
  rw [hfilled.placed_iff hdistance]
  unfold TlsAgrees
  rw [hfilled.pointer, Nat.dvd_add_left hcoarser, hdistance]
  refine and_congr_right fun _ => ⟨fun hshift => ?_, fun hagrees i hi => ?_⟩
  · rcases Nat.eq_zero_or_pos distance with rfl | hlt
    · exact .inl (Nat.add_zero _)
    · refine .inr fun i hi => ?_
      rw [hfilled.accepted.byte_eq hi, zero_of_shift hlt hshift fun j hj => ?_]
      unfold TlsImage.byte
      rw [if_neg (Nat.not_lt_of_le (Nat.le_trans hfilled.accepted.fits hj))]
  · rcases hagrees with hsame | hzeros
    · rw [show distance = 0 by omega, Nat.zero_add]
    · have hzero : ∀ j, tls.byte image j = 0 := by
        intro j
        rcases Nat.lt_or_ge j tls.fileSize with hj | hj
        · exact (Option.some.inj ((hfilled.accepted.byte_eq hj).symm.trans (hzeros j hj)))
        · unfold TlsImage.byte
          rw [if_neg (Nat.not_lt_of_le hj)]
      rw [hzero, hzero]

end Placed

/-! ## Two images -/

set_option maxRecDepth 100000 in
/-- With a size and an alignment of 16 the block is in place. -/
theorem tls_image_placed_sixteen : ∃ (m m' : Memory) (space : Nat) (loaded : LoadedImage),
    loadUserElfInto (tlsExecutable 16 16) space 2 m = .ok loaded m' ∧
      loaded.tls = some (tlsOf 16 16) ∧
      TlsPlaced (tlsExecutable 16 16) space (tlsOf 16 16) loaded.fsBase m' := by
  have hrun : ((spacesAfter Always []).any fun s : SpaceState =>
      (loadNew (tlsExecutable 16 16) 2 s.memory).any fun result =>
        result.2.2.1.tls == some (tlsOf 16 16)) = true := by
    decide +kernel
  obtain ⟨s, hs, hstate⟩ := (Option.any_eq_true _ _).mp hrun
  obtain ⟨base, hreached⟩ := spacesReached_after hs
  obtain ⟨⟨space, m, loaded, m'⟩, hnew, htls⟩ := (Option.any_eq_true _ _).mp hstate
  obtain ⟨hspace, hempty, hload⟩ := loadNew_eq_some hreached hnew
  exact ⟨m, m', space, loaded, hload, eq_of_beq htls,
    (tls_image_placed hspace hempty hload (eq_of_beq htls)).mpr ⟨by decide, .inl (by decide)⟩⟩

set_option maxRecDepth 100000 in
/-- With a size and an alignment of 8 compiled code finds zeros. -/
theorem tls_image_misplaced : ∃ (m m' : Memory) (space : Nat) (loaded : LoadedImage),
    HasSpace space m ∧ EmptySpace m space ∧
      loadUserElfInto (tlsExecutable 8 8) space 2 m = .ok loaded m' ∧
      loaded.tls = some (tlsOf 8 8) ∧
      ¬ TlsPlaced (tlsExecutable 8 8) space (tlsOf 8 8) loaded.fsBase m' := by
  have hrun : ((spacesAfter Always []).any fun s : SpaceState =>
      (loadNew (tlsExecutable 8 8) 2 s.memory).any fun result =>
        result.2.2.1.tls == some (tlsOf 8 8) &&
          result.2.2.2.byteIn result.1 (result.2.2.1.fsBase - roundUp 8 8 + 0) == some 0) =
      true := by
    decide +kernel
  obtain ⟨s, hs, hstate⟩ := (Option.any_eq_true _ _).mp hrun
  obtain ⟨base, hreached⟩ := spacesReached_after hs
  obtain ⟨⟨space, m, loaded, m'⟩, hnew, hbytes⟩ := (Option.any_eq_true _ _).mp hstate
  obtain ⟨htls, hzero⟩ := Bool.and_eq_true_iff.mp hbytes
  obtain ⟨hspace, hempty, hload⟩ := loadNew_eq_some hreached hnew
  refine ⟨m, m', space, loaded, hspace, hempty, hload, eq_of_beq htls, fun hplaced => ?_⟩
  have hfile := hplaced.file 0 (show 0 < 8 by decide)
  have hfound : m'.byteIn space (loaded.fsBase - roundUp 8 8 + 0) = some 0 := eq_of_beq hzero
  have hbad : (some 0 : Option UInt8) = (tlsExecutable 8 8)[(tlsOf 8 8).fileOffset + 0]? :=
    hfound.symm.trans hfile
  exact absurd hbad (by decide +kernel)

end OpenKernel
