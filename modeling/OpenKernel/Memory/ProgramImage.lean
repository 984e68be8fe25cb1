import OpenKernel.Memory.TlsBlock
import OpenKernel.Memory.PartialMap

/-!
# The memory image of a program

What a program finds in its address space when the loader has accepted its
image: the bytes of its segments as the headers say, zeros everywhere else,
with the permissions of the headers, and nothing but its segments, its stack
and its TLS block.
-/

namespace OpenKernel

open Lib

/-- The fields of a LOAD header. -/
structure ProgramHeader where
  flags : Nat
  fileOffset : Nat
  virtualAddress : Nat
  fileSize : Nat
  memorySize : Nat

/-- The image has this LOAD header in its table. -/
def IsLoadHeader (image : List UInt8) (p : ProgramHeader) : Prop :=
  ∃ programHeaderOffset count index, readU64 image 32 = some programHeaderOffset ∧
    readU16 image 56 = some count ∧ index < count ∧
    let headerOffset := programHeaderOffset + index * programHeaderSize
    readU32 image headerOffset = some programHeaderLoad ∧
      readU32 image (headerOffset + 4) = some p.flags ∧
      readU64 image (headerOffset + 8) = some p.fileOffset ∧
      readU64 image (headerOffset + 16) = some p.virtualAddress ∧
      readU64 image (headerOffset + 32) = some p.fileSize ∧
      readU64 image (headerOffset + 40) = some p.memorySize

/-- The address lies in a page of the segment. -/
def ProgramHeader.HasPage (p : ProgramHeader) (v : Nat) : Prop :=
  p.virtualAddress / pageSize ≤ v / pageSize ∧
    v / pageSize ≤ (p.virtualAddress + p.memorySize - 1) / pageSize

/-- The entry gives user mode the permissions of the header, and no others. -/
def HasPermissions (leaf flags : Nat) : Prop :=
  UserLeaf leaf ∧ (leaf &&& writableBit ≠ 0 ↔ flags &&& programFlagWrite ≠ 0) ∧
    (leaf &&& noExecuteBit = 0 ↔ flags &&& programFlagExecute ≠ 0)

/-- The program is in place. -/
structure ProgramLoaded (image : List UInt8) (space slot : Nat) (loaded : LoadedImage)
    (m : Memory) : Prop where
  segments : ∀ p, IsLoadHeader image p → ∀ a, p.virtualAddress ≤ a →
    a < p.virtualAddress + p.memorySize →
      m.byteIn space a = if a - p.virtualAddress < p.fileSize then
        image[p.fileOffset + (a - p.virtualAddress)]? else some 0
  padding : ∀ v < userSpaceEnd, (m.lookup space v).isSome →
    (∀ p, IsLoadHeader image p →
      ¬ (p.virtualAddress ≤ v ∧ v < p.virtualAddress + p.fileSize)) →
    (∀ tls, loaded.tls = some tls → ¬ (tlsBase slot ≤ v ∧ v < tlsBase slot + tls.fileSize)) →
      m.byteIn space v = some 0
  permissions : ∀ p, IsLoadHeader image p → ∀ v, p.HasPage v →
    ∃ frame, target frame = frame ∧
      m.lookup space v = some (frame ||| (segmentFlags p.flags).bits) ∧
      HasPermissions (frame ||| (segmentFlags p.flags).bits) p.flags
  mapped : ∀ v < userSpaceEnd, (m.lookup space v).isSome →
    (∃ p, IsLoadHeader image p ∧ p.HasPage v) ∨
    (∃ page ∈ userStack slot, v / pageSize = page / pageSize) ∨
    ∃ tls, loaded.tls = some tls ∧ tlsBase slot / pageSize ≤ v / pageSize ∧
      v / pageSize ≤ (loaded.fsBase + tlsTcbSize - 1) / pageSize
  entry : readU64 image 24 = some loaded.entry ∧ ∃ p, IsLoadHeader image p ∧
    p.virtualAddress ≤ loaded.entry ∧ loaded.entry < p.virtualAddress + p.memorySize ∧
      (m.switchAddressSpace space).isUserExecutable loaded.entry = true

/-! ## Permissions -/

section Permissions

variable {frame : Nat}

theorem segmentFlags_permissions (hframe : target frame = frame) (flags : Nat) :
    HasPermissions (frame ||| (segmentFlags flags).bits) flags := by
  unfold HasPermissions UserLeaf
  rw [or_and_of_target hframe (by decide), or_and_of_target hframe (by decide),
    or_and_of_target hframe (by decide)]
  unfold segmentFlags
  by_cases hw : flags &&& programFlagWrite = 0
  · by_cases hx : flags &&& programFlagExecute = 0
    · simp only [hw, hx, ne_eq, not_true_eq_false, decide_false]
      decide
    · simp only [hw, hx, ne_eq, not_true_eq_false, not_false_eq_true, decide_false, decide_true]
      decide
  · by_cases hx : flags &&& programFlagExecute = 0
    · simp only [hw, hx, ne_eq, not_true_eq_false, not_false_eq_true, decide_false, decide_true]
      decide
    · simp only [hw, hx, ne_eq, not_false_eq_true, decide_true]
      decide

end Permissions

/-! ## Headers and segments -/

/-- The header of an accepted segment. -/
def Segment.header (s : Segment) : ProgramHeader :=
  ⟨s.flags, s.fileOffset, s.virtualAddress, s.fileSize, s.memoryEnd - s.virtualAddress⟩

section Headers

variable {image : List UInt8} {slot headerOffset programHeaderOffset count index : Nat}
  {loaded : LoadedImage} {rs segments tlsPages : List PageRequest} {p : ProgramHeader} {s : Segment}

theorem Segment.Accepted.header_end (h : s.Accepted image headerOffset) :
    s.header.virtualAddress + s.header.memorySize = s.memoryEnd :=
  Nat.add_sub_cancel' (Nat.le_of_lt h.nonempty)

theorem LoadsAt.isLoadHeader (h : LoadsAt image programHeaderOffset index s)
    (hplan : PlanAccepted image slot loaded rs programHeaderOffset count segments tlsPages)
    (hindex : index ∈ List.range count) : IsLoadHeader image s.header := by
  have haccepted := readSegment_ok h.2
  exact ⟨programHeaderOffset, count, index, hplan.table, hplan.headerCount,
    List.mem_range.mp hindex, h.1, haccepted.flags, haccepted.fileOffset,
    haccepted.virtualAddress, haccepted.fileSize, haccepted.memorySize⟩

/-- A LOAD header of the image is the header of a segment that has been
loaded. -/
theorem PlanAccepted.segment
    (hplan : PlanAccepted image slot loaded rs programHeaderOffset count segments tlsPages)
    (hp : IsLoadHeader image p) : ∃ (s : Segment) (headerOffset : Nat), s.header = p ∧
      s.Accepted image headerOffset ∧ ∀ r ∈ s.requests, r ∈ segments := by
  obtain ⟨table, count', index, htable, hcount, hindex, htype, hflags, hoffset, hva, hfile,
    hmemory⟩ := hp
  obtain rfl := Option.some.inj (hplan.table.symm.trans htable)
  obtain rfl := Option.some.inj (hplan.headerCount.symm.trans hcount)
  obtain ⟨state, hdone, -⟩ := hplan.headers
  obtain ⟨s, hat, hall⟩ := hdone.loaded index (List.mem_range.mpr hindex) htype
  have haccepted := readSegment_ok hat.2
  refine ⟨s, _, ?_, haccepted, hall⟩
  unfold Segment.header
  rw [Option.some.inj (haccepted.flags.symm.trans hflags),
    Option.some.inj (haccepted.fileOffset.symm.trans hoffset),
    Option.some.inj (haccepted.virtualAddress.symm.trans hva),
    Option.some.inj (haccepted.fileSize.symm.trans hfile)]
  have hsize := Option.some.inj (haccepted.memorySize.symm.trans hmemory)
  rw [Option.some.inj (haccepted.virtualAddress.symm.trans hva)] at hsize
  rw [hsize]

/-- A page of a segment belongs to a LOAD header. -/
theorem PlanAccepted.header {r : PageRequest}
    (hplan : PlanAccepted image slot loaded rs programHeaderOffset count segments tlsPages)
    (hr : r ∈ segments) : ∃ (s : Segment) (headerOffset : Nat), IsLoadHeader image s.header ∧
      s.Accepted image headerOffset ∧ r ∈ s.requests := by
  obtain ⟨state, hdone, -⟩ := hplan.headers
  obtain ⟨index, hindex, s, hat, hmem⟩ := hdone.requests r hr
  exact ⟨s, _, hat.isLoadHeader hplan hindex, readSegment_ok hat.2, hmem⟩

end Headers

/-! ## The program -/

section Program

variable {image : List UInt8} {space slot programHeaderOffset count : Nat}
  {places₀ places : Places} {m₀ m m' : Memory} {loaded : LoadedImage}
  {rs segments tlsPages : List PageRequest} {s : Segment} {headerOffset v : Nat}

/-- An address in a page of a segment, as the program sees it. -/
theorem Loaded.sees_segment (h : Loaded image space places₀ m₀ rs places m)
    (hplan : PlanAccepted image slot loaded rs programHeaderOffset count segments tlsPages)
    (haccepted : s.Accepted image headerOffset) (hall : ∀ r ∈ s.requests, r ∈ segments)
    (hv : s.header.HasPage v) :
    (∃ frame, m.lookup space v = some (frame ||| (segmentFlags s.flags).bits) ∧
      target frame = frame) ∧
    m.byteIn space v = some (if s.virtualAddress ≤ v ∧ v < s.virtualAddress + s.fileSize then
      image[s.fileOffset + (v - s.virtualAddress)]?.getD 0 else 0) := by
  obtain ⟨hlower, hupper⟩ := hv
  rw [haccepted.header_end] at hupper
  have hpage : v / pageSize * pageSize / pageSize = v / pageSize :=
    Nat.mul_div_cancel _ (by decide)
  have hr : (⟨v / pageSize * pageSize, segmentFlags s.flags, s.virtualAddress, s.fileOffset,
      s.fileSize⟩ : PageRequest) ∈ s.requests := by
    rw [haccepted.mem_requests]
    refine ⟨rfl, Nat.mul_mod_left _ _, ?_, ?_⟩
    · rw [hpage]
      exact hlower
    · rw [hpage]
      exact hupper
  have hrs : (⟨v / pageSize * pageSize, segmentFlags s.flags, s.virtualAddress, s.fileOffset,
      s.fileSize⟩ : PageRequest) ∈ rs := by
    rw [hplan.requests, List.append_assoc]
    exact List.mem_append_left _ (hall _ hr)
  exact h.sees hrs (Nat.mul_mod_left _ _) hpage.symm

/-- What a request that covers an address says about it. -/
theorem PlanAccepted.cases {r : PageRequest}
    (hplan : PlanAccepted image slot loaded rs programHeaderOffset count segments tlsPages)
    (hr : r ∈ rs) : r.page % pageSize = 0 ∧
      ((∃ (s : Segment) (headerOffset : Nat), IsLoadHeader image s.header ∧
          s.Accepted image headerOffset ∧ r ∈ s.requests) ∨
        (r.page ∈ userStack slot ∧ r.fileSize = 0) ∨
        ∃ tls, loaded.tls = some tls ∧ r.base = tlsBase slot ∧ r.fileSize = tls.fileSize ∧
          tlsBase slot / pageSize ≤ r.page / pageSize ∧
          r.page / pageSize ≤ (loaded.fsBase + tlsTcbSize - 1) / pageSize) := by
  rw [hplan.requests, List.append_assoc, List.mem_append, List.mem_append] at hr
  rcases hr with hr | hr | hr
  · obtain ⟨s, headerOffset, hheader, haccepted, hmem⟩ := hplan.header hr
    exact ⟨(haccepted.mem_requests.mp hmem).2.1, .inl ⟨s, headerOffset, hheader, haccepted, hmem⟩⟩
  · obtain ⟨heq, hmem⟩ := mem_stackRequests.mp hr
    exact ⟨userStack_aligned hmem, .inr (.inl ⟨hmem, by rw [heq]⟩)⟩
  · rcases hplan.tls with ⟨-, rfl⟩ | ⟨tls, stop, htls, hbounds, rfl⟩
    · cases hr
    · obtain ⟨hpointer, hstop, hlt⟩ := tlsBounds_ok (hplan.tls_accepted htls) hbounds
      obtain ⟨page, hpage, rfl⟩ := List.mem_map.mp hr
      have hcontrol : 0 < tlsTcbSize := by decide
      rw [mem_pagesBetween (by omega) (by omega), hstop] at hpage
      exact ⟨hpage.1, .inr (.inr ⟨tls, htls, rfl, rfl, hpage.2⟩)⟩

/-- An image that is loaded into an empty space becomes the program that its
headers describe. -/
theorem program_loaded (hspace : HasSpace space m) (hempty : EmptySpace m space)
    (hload : loadUserElfInto image space slot m = .ok loaded m') :
    ProgramLoaded image space slot loaded m' := by
  obtain ⟨places₀, places', rs, programHeaderOffset, count, segments, tlsPages, hloaded, hlinked,
    hplan⟩ := loadUserElfInto_ok hspace hempty hload
  constructor
  · intro p hp a hlower hupper
    obtain ⟨s, headerOffset, rfl, haccepted, hall⟩ := hplan.segment hp
    have hpage : s.header.HasPage a :=
      ⟨Nat.div_le_div_right hlower, Nat.div_le_div_right (Nat.le_pred_of_lt hupper)⟩
    rw [(hloaded.sees_segment hplan haccepted hall hpage).2]
    change s.virtualAddress ≤ a at hlower
    show _ = if a - s.virtualAddress < s.fileSize then
      image[s.fileOffset + (a - s.virtualAddress)]? else some 0
    by_cases hin : a - s.virtualAddress < s.fileSize
    · have hfile := haccepted.inFile
      have hlt : s.fileOffset + (a - s.virtualAddress) < image.length := by omega
      rw [if_pos hin, if_pos ⟨hlower, by omega⟩, List.getElem?_eq_getElem hlt]
      rfl
    · rw [if_neg hin, if_neg (by omega)]
  · intro v hv hmapped hsegments htls
    obtain ⟨leaf, hleaf⟩ := Option.isSome_iff_exists.mp hmapped
    obtain ⟨r, hr, hpage⟩ := hloaded.requested hv hleaf
    obtain ⟨haligned, hcase⟩ := hplan.cases hr
    rw [(hloaded.sees hr haligned hpage).2, if_neg]
    rintro ⟨hlower, hupper⟩
    rcases hcase with ⟨s, headerOffset, hheader, haccepted, hmem⟩ | ⟨-, hsize⟩ |
      ⟨tls, hsome, hbase, hsize, -⟩
    · rw [(haccepted.mem_requests.mp hmem).1] at hlower hupper
      exact hsegments _ hheader ⟨hlower, hupper⟩
    · omega
    · rw [hbase] at hlower hupper
      rw [hsize] at hupper
      exact htls tls hsome ⟨hlower, hupper⟩
  · intro p hp v hpage
    obtain ⟨s, headerOffset, rfl, haccepted, hall⟩ := hplan.segment hp
    obtain ⟨frame, hlookup, hframe⟩ := (hloaded.sees_segment hplan haccepted hall hpage).1
    exact ⟨frame, hframe, hlookup, segmentFlags_permissions hframe s.flags⟩
  · intro v hv hmapped
    obtain ⟨leaf, hleaf⟩ := Option.isSome_iff_exists.mp hmapped
    obtain ⟨r, hr, hpage⟩ := hloaded.requested hv hleaf
    obtain ⟨-, hcase⟩ := hplan.cases hr
    rcases hcase with ⟨s, headerOffset, hheader, haccepted, hmem⟩ | ⟨hmem, -⟩ |
      ⟨tls, hsome, -, -, hlower, hupper⟩
    · obtain ⟨-, -, hlower, hupper⟩ := haccepted.mem_requests.mp hmem
      refine .inl ⟨s.header, hheader, ?_⟩
      unfold ProgramHeader.HasPage
      rw [haccepted.header_end, hpage]
      exact ⟨hlower, hupper⟩
    · exact .inr (.inl ⟨r.page, hmem, hpage⟩)
    · rw [← hpage] at hlower hupper
      exact .inr (.inr ⟨tls, hsome, hlower, hupper⟩)
  · refine ⟨hplan.entry, ?_⟩
    obtain ⟨state, hdone, hexecutable, -⟩ := hplan.headers
    rcases hdone.entry hexecutable with hbad | ⟨index, hindex, s, hat, hholds⟩
    · cases hbad
    obtain ⟨hflag, hlower, hupper⟩ := of_decide_eq_true hholds
    have hheader := hat.isLoadHeader hplan hindex
    have haccepted := readSegment_ok hat.2
    refine ⟨s.header, hheader, hlower, by rwa [haccepted.header_end], ?_⟩
    obtain ⟨s', headerOffset, hsame, haccepted', hall⟩ := hplan.segment hheader
    have hpage : s'.header.HasPage loaded.entry := by
      rw [hsame]
      unfold ProgramHeader.HasPage
      rw [haccepted.header_end]
      exact ⟨Nat.div_le_div_right hlower, Nat.div_le_div_right (Nat.le_pred_of_lt hupper)⟩
    obtain ⟨frame, hlookup, hframe⟩ := (hloaded.sees_segment hplan haccepted' hall hpage).1
    have hflags : s'.flags = s.flags := congrArg ProgramHeader.flags hsame
    rw [hflags] at hlookup
    obtain ⟨huser, -, hexecute⟩ := segmentFlags_permissions hframe s.flags
    have howned := hloaded.filled.owned
    have hroot := hloaded.filled.kept _ _ hloaded.root
    have hactive : (m'.switchAddressSpace space).activeAddressSpace = space :=
      howned.aligned _ _ hroot
    have hswitched : Owned places' (m'.switchAddressSpace space) :=
      ⟨howned.forest, howned.notFree, howned.allocated, howned.aligned⟩
    refine (isUserExecutable_iff hswitched hlinked (by rw [hactive]; exact hroot)).mpr ⟨?_, _, ?_,
      huser, hexecute.mpr hflag⟩
    · exact ⟨Nat.le_trans haccepted.lower hlower, Nat.lt_of_lt_of_le hupper haccepted.upper⟩
    · rw [hactive]
      exact hlookup

end Program

set_option maxRecDepth 100000 in
/-- A program with a byte of code and a TLS block becomes what its headers
describe. -/
theorem program_loaded_tls : ∃ (m m' : Memory) (space : Nat) (loaded : LoadedImage),
    loadUserElfInto (tlsExecutable 16 16) space 2 m = .ok loaded m' ∧
      loaded.entry = futureUserSpaceBase ∧
      ProgramLoaded (tlsExecutable 16 16) space 2 loaded m' := by
  have hrun : ((spacesAfter Always []).any fun s : SpaceState =>
      (loadNew (tlsExecutable 16 16) 2 s.memory).any fun result =>
        result.2.2.1.entry == futureUserSpaceBase) = true := by
    decide +kernel
  obtain ⟨s, hs, hstate⟩ := (Option.any_eq_true _ _).mp hrun
  obtain ⟨base, hreached⟩ := spacesReached_after hs
  obtain ⟨⟨space, m, loaded, m'⟩, hnew, hentry⟩ := (Option.any_eq_true _ _).mp hstate
  obtain ⟨hspace, hempty, hload⟩ := loadNew_eq_some hreached hnew
  exact ⟨m, m', space, loaded, hload, eq_of_beq hentry, program_loaded hspace hempty hload⟩

end OpenKernel
