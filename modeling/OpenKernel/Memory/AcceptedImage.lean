import OpenKernel.Memory.LoadPlan
import OpenKernel.Memory.KernelHalf
import OpenKernel.Memory.SpaceRuns

/-!
# Images that are accepted

An image whose plan ends well has headers that pass all checks, and the plan
consists of the pages of its LOAD headers, of the stack and of the TLS block.
The bytes of these pages can be read through the page tables of the space.
-/

namespace OpenKernel

open Lib
open CheckedLoader (checkedAdd_eq_some alignDown_page le_of_not_all)

/-! ## Running a plan -/

section Plan

variable {α β : Type} {image : List UInt8} {rs rs' : List PageRequest}

theorem plan_bind_ok {x : Plan α} {f : α → Plan β} {b : β}
    (h : (x >>= f) rs = .ok b rs') : ∃ a rs₁, x rs = .ok a rs₁ ∧ f a rs₁ = .ok b rs' := by
  change EStateM.bind x f rs = .ok b rs' at h
  unfold EStateM.bind at h
  cases hx : x rs with
  | ok a rs₁ =>
    rw [hx] at h
    exact ⟨a, rs₁, rfl, h⟩
  | error e rs₁ =>
    rw [hx] at h
    cases h

theorem plan_ofExcept_ok {x : Except ElfError α} {a : α}
    (h : Plan.ofExcept x rs = .ok a rs') : x = .ok a ∧ rs' = rs := by
  cases x with
  | ok b =>
    obtain ⟨rfl, rfl⟩ := EStateM.Result.ok.inj h
    exact ⟨rfl, rfl⟩
  | error e => cases h

theorem required_ok {x : Option Nat} {error : ElfError} {a : Nat}
    (h : required x error = .ok a) : x = some a := by
  cases x with
  | none => cases h
  | some b => exact congrArg some (Except.ok.inj h)

theorem except_bind_ok {x : Except ElfError α} {f : α → Except ElfError β} {b : β}
    (h : (x >>= f) = .ok b) : ∃ a, x = .ok a ∧ f a = .ok b := by
  cases x with
  | error e => cases h
  | ok a => exact ⟨a, rfl, h⟩

end Plan

/-! ## The headers -/

/-- The fields of a LOAD header that has been accepted, and what they have been
checked for. -/
structure Segment.Accepted (image : List UInt8) (headerOffset : Nat) (s : Segment) : Prop where
  flags : readU32 image (headerOffset + 4) = some s.flags
  fileOffset : readU64 image (headerOffset + 8) = some s.fileOffset
  virtualAddress : readU64 image (headerOffset + 16) = some s.virtualAddress
  fileSize : readU64 image (headerOffset + 32) = some s.fileSize
  memorySize : readU64 image (headerOffset + 40) = some (s.memoryEnd - s.virtualAddress)
  nonempty : s.virtualAddress < s.memoryEnd
  fits : s.virtualAddress + s.fileSize ≤ s.memoryEnd
  inFile : s.fileOffset + s.fileSize ≤ image.length
  lower : futureUserSpaceBase ≤ s.virtualAddress
  upper : s.memoryEnd ≤ userSpaceEnd

/-- The fields of a TLS header that has been accepted. -/
structure TlsImage.Accepted (image : List UInt8) (tls : TlsImage) : Prop where
  fits : tls.fileSize ≤ tls.memorySize
  inFile : tls.fileOffset + tls.fileSize ≤ image.length
  align : tls.align = 0 ∨ IsPowerOfTwo tls.align

section Headers

variable {image : List UInt8} {headerOffset : Nat}

theorem readSegment_ok {s : Segment} (h : readSegment image headerOffset = .ok s) :
    s.Accepted image headerOffset := by
  unfold readSegment at h
  obtain ⟨flags, hflags, h⟩ := except_bind_ok h
  obtain ⟨fileOffset, hfileOffset, h⟩ := except_bind_ok h
  obtain ⟨virtualAddress, hvirtualAddress, h⟩ := except_bind_ok h
  obtain ⟨fileSize, hfileSize, h⟩ := except_bind_ok h
  obtain ⟨memorySize, hmemorySize, h⟩ := except_bind_ok h
  split at h
  · cases h
  rename_i hsize
  obtain ⟨fileEnd, hfileEnd, h⟩ := except_bind_ok h
  obtain ⟨memoryEnd, hmemoryEnd, h⟩ := except_bind_ok h
  split at h
  · cases h
  rename_i hvalid
  obtain rfl := Except.ok.inj h
  obtain ⟨rfl, -⟩ := checkedAdd_eq_some (required_ok hfileEnd)
  obtain ⟨rfl, -⟩ := checkedAdd_eq_some (required_ok hmemoryEnd)
  refine ⟨required_ok hflags, required_ok hfileOffset, required_ok hvirtualAddress,
    required_ok hfileSize, ?_, ?_, ?_, ?_, ?_, ?_⟩
  · rw [required_ok hmemorySize, Nat.add_sub_cancel_left]
  all_goals dsimp only; omega

theorem readTls_ok {tls : TlsImage} (h : readTls image headerOffset = .ok tls) :
    tls.Accepted image := by
  unfold readTls at h
  obtain ⟨fileOffset, -, h⟩ := except_bind_ok h
  obtain ⟨fileSize, -, h⟩ := except_bind_ok h
  obtain ⟨memorySize, -, h⟩ := except_bind_ok h
  obtain ⟨align, -, h⟩ := except_bind_ok h
  split at h
  · cases h
  rename_i hvalid
  obtain rfl := Except.ok.inj h
  refine ⟨Nat.le_of_not_lt fun hbad => hvalid (.inl hbad),
    le_of_not_all fun hbad => hvalid (.inr (.inl hbad)), ?_⟩
  by_contra hbad
  obtain ⟨hzero, hpower⟩ := not_or.mp hbad
  exact hvalid (.inr (.inr ⟨hzero, hpower⟩))

end Headers

/-- The header with this number is a LOAD header with this segment. -/
def LoadsAt (image : List UInt8) (programHeaderOffset index : Nat) (s : Segment) : Prop :=
  readU32 image (programHeaderOffset + index * programHeaderSize) = some programHeaderLoad ∧
    readSegment image (programHeaderOffset + index * programHeaderSize) = .ok s

/-- What the header loop has computed from some of the headers, and the pages
it has asked for. -/
structure HeadersDone (image : List UInt8) (entry programHeaderOffset : Nat)
    (indices : List Nat) (state state' : LoadState) (new : List PageRequest) : Prop where
  loaded : ∀ index ∈ indices,
    readU32 image (programHeaderOffset + index * programHeaderSize) = some programHeaderLoad →
      ∃ s, LoadsAt image programHeaderOffset index s ∧ ∀ r ∈ s.requests, r ∈ new
  requests : ∀ r ∈ new, ∃ index ∈ indices, ∃ s, LoadsAt image programHeaderOffset index s ∧
    r ∈ s.requests
  entry : state'.entryIsExecutable = true → state.entryIsExecutable = true ∨
    ∃ index ∈ indices, ∃ s, LoadsAt image programHeaderOffset index s ∧ s.holdsEntry entry = true
  tls : ∀ tls, state'.tls = some tls → state.tls = some tls ∨ tls.Accepted image

section Loop

variable {image : List UInt8} {entry programHeaderOffset index : Nat} {indices : List Nat}
  {state state' : LoadState} {rs rs' : List PageRequest}

theorem planProgramHeader_ok
    (h : planProgramHeader image entry programHeaderOffset state index rs = .ok state' rs') :
    ∃ new, rs' = rs ++ new ∧
      HeadersDone image entry programHeaderOffset [index] state state' new := by
  have hone : ∀ {i}, i ∈ [index] → i = index := fun hi => List.mem_singleton.mp hi
  unfold planProgramHeader at h
  obtain ⟨headerType, rs₁, hfirst, hturn⟩ := plan_bind_ok h
  obtain ⟨hread, rfl⟩ := plan_ofExcept_ok hfirst
  have htype := required_ok hread
  split at hturn
  · -- A TLS header asks for nothing here.
    rename_i htls
    split at hturn
    · cases hturn
    obtain ⟨tls, rs₂, hnext, hend⟩ := plan_bind_ok hturn
    obtain ⟨hheader, rfl⟩ := plan_ofExcept_ok hnext
    obtain ⟨rfl, rfl⟩ := EStateM.Result.ok.inj hend
    refine ⟨[], (List.append_nil _).symm, ?_, (fun r hr => nomatch hr), .inl, ?_⟩
    · intro i hi hload
      rw [hone hi, htype, htls] at hload
      exact absurd hload (by decide)
    · intro tls' htls'
      obtain rfl := Option.some.inj htls'
      exact .inr (readTls_ok hheader)
  split at hturn
  · rename_i hother
    obtain ⟨rfl, rfl⟩ := EStateM.Result.ok.inj hturn
    refine ⟨[], (List.append_nil _).symm, ?_, (fun r hr => nomatch hr), .inl, fun tls => .inl⟩
    intro i hi hload
    rw [hone hi, htype] at hload
    exact absurd (Option.some.inj hload) hother
  · rename_i hload
    obtain ⟨s, rs₂, hnext, hpages⟩ := plan_bind_ok hturn
    obtain ⟨hheader, rfl⟩ := plan_ofExcept_ok hnext
    obtain ⟨u, rs₃, hrequest, hend⟩ := plan_bind_ok hpages
    obtain ⟨-, rfl⟩ := EStateM.Result.ok.inj hrequest
    obtain ⟨rfl, rfl⟩ := EStateM.Result.ok.inj hend
    have hat : LoadsAt image programHeaderOffset index s :=
      ⟨by rw [htype, not_not.mp hload], hheader⟩
    refine ⟨s.requests, rfl, ?_, fun r hr => ⟨index, List.mem_singleton_self _, s, hat, hr⟩, ?_,
      fun tls => .inl⟩
    · intro i hi _
      rw [hone hi]
      exact ⟨s, hat, fun r hr => hr⟩
    · intro hentry
      rcases Bool.or_eq_true_iff.mp hentry with hold | hnew
      · exact .inl hold
      · exact .inr ⟨index, List.mem_singleton_self _, s, hat, hnew⟩

theorem HeadersDone.trans {state'' : LoadState} {indices' : List Nat}
    {new new' : List PageRequest}
    (h : HeadersDone image entry programHeaderOffset indices state state' new)
    (h' : HeadersDone image entry programHeaderOffset indices' state' state'' new') :
    HeadersDone image entry programHeaderOffset (indices ++ indices') state state''
      (new ++ new') where
  loaded index hindex hload := by
    rcases List.mem_append.mp hindex with hin | hin
    · obtain ⟨s, hat, hall⟩ := h.loaded index hin hload
      exact ⟨s, hat, fun r hr => List.mem_append_left _ (hall r hr)⟩
    · obtain ⟨s, hat, hall⟩ := h'.loaded index hin hload
      exact ⟨s, hat, fun r hr => List.mem_append_right _ (hall r hr)⟩
  requests r hr := by
    rcases List.mem_append.mp hr with hin | hin
    · obtain ⟨index, hindex, hs⟩ := h.requests r hin
      exact ⟨index, List.mem_append_left _ hindex, hs⟩
    · obtain ⟨index, hindex, hs⟩ := h'.requests r hin
      exact ⟨index, List.mem_append_right _ hindex, hs⟩
  entry hentry := by
    rcases h'.entry hentry with hmid | ⟨index, hindex, hs⟩
    · rcases h.entry hmid with hold | ⟨index, hindex, hs⟩
      · exact .inl hold
      · exact .inr ⟨index, List.mem_append_left _ hindex, hs⟩
    · exact .inr ⟨index, List.mem_append_right _ hindex, hs⟩
  tls tls htls := (h'.tls tls htls).elim (h.tls tls) .inr

theorem planHeaders_ok
    (h : indices.foldlM (planProgramHeader image entry programHeaderOffset) state rs =
      .ok state' rs') :
    ∃ new, rs' = rs ++ new ∧
      HeadersDone image entry programHeaderOffset indices state state' new := by
  induction indices generalizing state rs with
  | nil =>
    obtain ⟨rfl, rfl⟩ := EStateM.Result.ok.inj h
    exact ⟨[], (List.append_nil _).symm, (fun i hi => nomatch hi), (fun r hr => nomatch hr), .inl,
      fun tls => .inl⟩
  | cons index indices ih =>
    rw [List.foldlM_cons] at h
    obtain ⟨state₁, rs₁, hone, hrest⟩ := plan_bind_ok h
    obtain ⟨new, rfl, hdone⟩ := planProgramHeader_ok hone
    obtain ⟨new', rfl, hdone'⟩ := ih hrest
    exact ⟨new ++ new', by rw [List.append_assoc], hdone.trans hdone'⟩

end Loop

/-! ## The whole plan -/

/-- A plan that ends well: the pages of the LOAD headers, those of the stack,
and those of the TLS block. -/
structure PlanAccepted (image : List UInt8) (slot : Nat) (loaded : LoadedImage)
    (rs : List PageRequest) (programHeaderOffset count : Nat) (segments tlsPages : List PageRequest) :
    Prop where
  entry : readU64 image 24 = some loaded.entry
  table : readU64 image 32 = some programHeaderOffset
  headerCount : readU16 image 56 = some count
  headers : ∃ state, HeadersDone image loaded.entry programHeaderOffset (List.range count)
    { entryIsExecutable := false, tls := none } state segments ∧
      state.entryIsExecutable = true ∧ state.tls = loaded.tls
  tls : loaded.tls = none ∧ tlsPages = [] ∨ ∃ tls stop, loaded.tls = some tls ∧
    tlsBounds slot tls = .ok (loaded.fsBase, stop) ∧ tlsPages = tlsRequests slot tls stop
  requests : rs = segments ++ stackRequests slot ++ tlsPages

section Whole

variable {image : List UInt8} {slot : Nat} {loaded : LoadedImage} {rs : List PageRequest}

theorem readHeader_ok {entry programHeaderOffset count : Nat}
    (h : readHeader image = .ok (entry, programHeaderOffset, count)) :
    readU64 image 24 = some entry ∧ readU64 image 32 = some programHeaderOffset ∧
      readU16 image 56 = some count := by
  unfold readHeader at h
  split at h
  · cases h
  obtain ⟨entry', hentry, h⟩ := except_bind_ok h
  obtain ⟨offset, hoffset, h⟩ := except_bind_ok h
  obtain ⟨count', hcount, h⟩ := except_bind_ok h
  obtain ⟨tableSize, -, h⟩ := except_bind_ok h
  obtain ⟨tableEnd, -, h⟩ := except_bind_ok h
  split at h
  · cases h
  obtain ⟨rfl, hrest⟩ := Prod.mk.inj (Except.ok.inj h)
  obtain ⟨rfl, rfl⟩ := Prod.mk.inj hrest
  exact ⟨required_ok hentry, required_ok hoffset, required_ok hcount⟩

theorem planInitialTls_ok {tls : TlsImage} {fsBase : Nat} {rs' : List PageRequest}
    (h : planInitialTls slot tls rs = .ok fsBase rs') :
    ∃ stop, tlsBounds slot tls = .ok (fsBase, stop) ∧ rs' = rs ++ tlsRequests slot tls stop := by
  unfold planInitialTls at h
  obtain ⟨⟨fsBase', stop⟩, rs₁, hfirst, hpages⟩ := plan_bind_ok h
  obtain ⟨hbounds, rfl⟩ := plan_ofExcept_ok hfirst
  obtain ⟨u, rs₂, hrequest, hend⟩ := plan_bind_ok hpages
  obtain ⟨-, rfl⟩ := EStateM.Result.ok.inj hrequest
  obtain ⟨rfl, rfl⟩ := EStateM.Result.ok.inj hend
  exact ⟨stop, hbounds, rfl⟩

theorem planUserElf_ok (h : planUserElf image slot [] = .ok loaded rs) :
    ∃ programHeaderOffset count segments tlsPages,
      PlanAccepted image slot loaded rs programHeaderOffset count segments tlsPages := by
  unfold planUserElf at h
  obtain ⟨⟨entry, programHeaderOffset, count⟩, rs₁, hfirst, hrest⟩ := plan_bind_ok h
  obtain ⟨hheader, rfl⟩ := plan_ofExcept_ok hfirst
  obtain ⟨hentry, htable, hcount⟩ := readHeader_ok hheader
  obtain ⟨state, rs₂, hloop, hrest⟩ := plan_bind_ok hrest
  obtain ⟨segments, hsegments, hdone⟩ := planHeaders_ok hloop
  rw [List.nil_append] at hsegments
  subst hsegments
  split at hrest
  · cases hrest
  rename_i hexecutable
  obtain ⟨u, rs₃, hrequest, hrest⟩ := plan_bind_ok hrest
  obtain ⟨-, rfl⟩ := EStateM.Result.ok.inj hrequest
  cases htls : state.tls with
  | none =>
    simp only [htls] at hrest
    obtain ⟨fsBase, rs₄, hpure, hend⟩ := plan_bind_ok hrest
    obtain ⟨rfl, rfl⟩ := EStateM.Result.ok.inj hpure
    obtain ⟨rfl, rfl⟩ := EStateM.Result.ok.inj hend
    refine ⟨programHeaderOffset, count, rs₂, [], hentry, htable, hcount,
      ⟨state, hdone, not_not.mp hexecutable, htls⟩, .inl ⟨rfl, rfl⟩, ?_⟩
    rw [List.append_nil]
  | some tls =>
    simp only [htls] at hrest
    obtain ⟨fsBase, rs₄, hpages, hend⟩ := plan_bind_ok hrest
    obtain ⟨stop, hbounds, rfl⟩ := planInitialTls_ok hpages
    obtain ⟨rfl, rfl⟩ := EStateM.Result.ok.inj hend
    refine ⟨programHeaderOffset, count, rs₂, _, hentry, htable, hcount,
      ⟨state, hdone, not_not.mp hexecutable, htls⟩, .inr ⟨tls, stop, rfl, hbounds, rfl⟩, rfl⟩

theorem PlanAccepted.tls_accepted {programHeaderOffset count : Nat}
    {segments tlsPages : List PageRequest} {tls : TlsImage}
    (hplan : PlanAccepted image slot loaded rs programHeaderOffset count segments tlsPages)
    (htls : loaded.tls = some tls) : tls.Accepted image := by
  obtain ⟨state, hdone, -, hstate⟩ := hplan.headers
  rcases hdone.tls tls (by rw [hstate, htls]) with hnone | haccepted
  · cases hnone
  · exact haccepted

end Whole

/-! ## Pages -/

section Pages

variable {first last page v : Nat}

/-- The pages from that of `first` to that of `last`. -/
theorem mem_pagesBetween (hle : first ≤ last) (hlast : last < 2 ^ 64) :
    page ∈ pagesBetween (alignDown first pageSize) (alignDown last pageSize) ↔
      page % pageSize = 0 ∧ first / pageSize ≤ page / pageSize ∧
        page / pageSize ≤ last / pageSize := by
  rw [alignDown_page hlast, alignDown_page (Nat.lt_of_le_of_lt hle hlast)]
  unfold pagesBetween
  rw [List.mem_map]
  simp only [List.mem_range]
  unfold pageSize
  constructor
  · rintro ⟨i, hi, rfl⟩
    omega
  · rintro ⟨haligned, hlower, hupper⟩
    exact ⟨page / 4096 - first / 4096, by omega, by omega⟩

end Pages

section Requests

variable {image : List UInt8} {headerOffset slot : Nat} {s : Segment} {r : PageRequest}

theorem Segment.Accepted.mem_requests (h : s.Accepted image headerOffset) :
    r ∈ s.requests ↔ r = ⟨r.page, segmentFlags s.flags, s.virtualAddress, s.fileOffset, s.fileSize⟩ ∧
      r.page % pageSize = 0 ∧ s.virtualAddress / pageSize ≤ r.page / pageSize ∧
        r.page / pageSize ≤ (s.memoryEnd - 1) / pageSize := by
  have hnonempty := h.nonempty
  have hupper := h.upper
  have hend : userSpaceEnd = 2 ^ 47 := by decide
  unfold Segment.requests
  rw [List.mem_map]
  constructor
  · rintro ⟨page, hpage, rfl⟩
    exact ⟨rfl, (mem_pagesBetween (by omega) (by omega)).mp hpage⟩
  · rintro ⟨hr, hpage⟩
    exact ⟨r.page, (mem_pagesBetween (by omega) (by omega)).mpr hpage, hr.symm⟩

theorem mem_stackRequests :
    r ∈ stackRequests slot ↔ r = ⟨r.page, .userReadWrite, 0, 0, 0⟩ ∧ r.page ∈ userStack slot := by
  unfold stackRequests
  rw [List.mem_map]
  constructor
  · rintro ⟨page, hpage, rfl⟩
    exact ⟨rfl, hpage⟩
  · rintro ⟨hr, hpage⟩
    exact ⟨r.page, hpage, hr.symm⟩

theorem userStack_aligned {v : Nat} (hv : v ∈ userStack slot) : v % pageSize = 0 := by
  obtain ⟨page, -, rfl⟩ := List.mem_map.mp hv
  have hend : userSpaceEnd = 2 ^ 35 * pageSize := by decide
  unfold userStackTop
  rw [hend]
  have hsub : 2 ^ 35 * pageSize - pageSize - slot * (userStackPages + 1) * pageSize -
      page * pageSize = (2 ^ 35 - 1 - slot * (userStackPages + 1) - page) * pageSize := by
    rw [Nat.sub_mul, Nat.sub_mul, Nat.sub_mul, Nat.one_mul]
  rw [hsub]
  exact Nat.mul_mod_left _ _

end Requests

/-! ## The bytes of a space -/

/-- The byte that a program reads at this address of a space. -/
def Memory.byteIn (m : Memory) (space v : Nat) : Option UInt8 :=
  (m.translateIn space v).map m.physicalByte

section Bytes

variable {image : List UInt8} {space v : Nat} {places₀ places : Places} {m₀ m : Memory}
  {rs : List PageRequest} {r : PageRequest}

/-- A page that has been loaded, as the program sees it. -/
theorem Loaded.sees (h : Loaded image space places₀ m₀ rs places m) (hr : r ∈ rs)
    (haligned : r.page % pageSize = 0) (hpage : v / pageSize = r.page / pageSize) :
    (∃ frame, m.lookup space v = some (frame ||| r.flags.bits) ∧ target frame = frame) ∧
      m.byteIn space v = some (if r.base ≤ v ∧ v < r.base + r.fileSize then
        image[r.fileOffset + (v - r.base)]?.getD 0 else 0) := by
  obtain ⟨huser, frame, hplace, hentry, hbytes⟩ := h.pages r hr
  have hframe := (h.filled.owned.allocated _ _ _ hplace).target_eq
  have hv : v < userSpaceEnd := by
    have hupper := huser.2
    have hend : userSpaceEnd = 2 ^ 35 * pageSize := by decide
    rw [hend] at hupper ⊢
    unfold pageSize at *
    omega
  have hlookup : m.lookup space v = some (frame ||| r.flags.bits) := by
    rw [lookup_page m space hv huser.2 hpage,
      lookup_sound h.filled.owned (h.filled.kept _ _ h.root), hentry]
  have hoffset : r.page + v % pageSize = v := by
    unfold pageSize at *
    omega
  refine ⟨⟨frame, hlookup, hframe⟩, ?_⟩
  unfold Memory.byteIn
  rw [translateIn_of_lookup hlookup, target_page hframe, Option.map_some,
    hbytes _ (Nat.mod_lt v (by decide))]
  unfold PageRequest.byte
  rw [hoffset]

/-- What is mapped has been asked for. -/
theorem Loaded.requested {leaf : Nat} (h : Loaded image space places₀ m₀ rs places m)
    (hv : v < userSpaceEnd) (hlookup : m.lookup space v = some leaf) :
    ∃ r ∈ rs, v / pageSize = r.page / pageSize := by
  rw [lookup_sound h.filled.owned (h.filled.kept _ _ h.root)] at hlookup
  obtain ⟨-, w, hw, hpage⟩ := h.page_of_entry hv hlookup
  obtain ⟨r, hr, rfl⟩ := List.mem_map.mp hw
  exact ⟨r, hr, hpage.symm⟩

end Bytes

/-! ## Loading an accepted image -/

section Load

variable {image : List UInt8} {space slot : Nat} {places : Places} {m m' : Memory}
  {loaded : LoadedImage}

/-- The frames that are available to a space are finitely many. -/
theorem Owned.exists_available (h : Owned places m) (space : Nat) :
    ∃ available : Finset Nat, ∀ f, f ∈ available ↔ FreeOrIn places m (.space space) f := by
  classical
  refine ⟨(m.frames.freeSet ∪ m.frames.allocatedSet).filter (FreeOrIn places m (.space space)),
    fun f => ?_⟩
  rw [Finset.mem_filter, Finset.mem_union, FrameAllocator.mem_freeSet,
    FrameAllocator.mem_allocatedSet, and_iff_right_iff_imp]
  exact fun hf => hf.imp id fun ⟨path, hplace⟩ => h.allocated f space path hplace

/-- The tree of a space can be looked at alone. -/
theorem HasSpace.alone (h : HasSpace space m) :
    ∃ places, Owned places m ∧ places space = some (.space space, []) ∧
      ∀ f o path, places f = some (o, path) → o = .space space := by
  obtain ⟨places, howned, hroot⟩ := h
  have hiff : ∀ f x, (places f).filter (fun x => decide (x.1 = Owner.space space)) = some x ↔
      places f = some x ∧ x.1 = .space space := by
    intro f x
    rw [Option.filter_eq_some_iff, decide_eq_true_iff]
  refine ⟨fun f => (places f).filter fun x => decide (x.1 = Owner.space space), ⟨⟨?_, ?_, ?_, ?_⟩,
    ?_, ?_, ?_⟩, (hiff _ _).mpr ⟨hroot, rfl⟩, fun f o path hf => ((hiff _ _).mp hf).2⟩
  · intro f o path i g hf hlen hin href
    obtain ⟨hf, ho⟩ := (hiff _ _).mp hf
    exact (hiff _ _).mpr ⟨howned.forest.child hf hlen hin href, ho⟩
  · intro f o path i g hf hlen hin href
    exact howned.forest.opens ((hiff _ _).mp hf).1 hlen hin href
  · intro g o i path hg
    obtain ⟨hg, ho⟩ := (hiff _ _).mp hg
    obtain ⟨hlen, hin, f, hf, href⟩ := howned.forest.parent hg
    exact ⟨hlen, hin, f, (hiff _ _).mpr ⟨hf, ho⟩, href⟩
  · intro f f' o hf hf'
    exact howned.forest.root ((hiff _ _).mp hf).1 ((hiff _ _).mp hf').1
  · exact fun f x hf => howned.notFree f x ((hiff _ _).mp hf).1
  · exact fun f r path hf => howned.allocated f r path ((hiff _ _).mp hf).1
  · exact fun f x hf => howned.aligned f x ((hiff _ _).mp hf).1

/-- What loading an accepted image into an empty space leaves there. -/
theorem loadUserElfInto_ok (hspace : HasSpace space m) (hempty : EmptySpace m space)
    (hload : loadUserElfInto image space slot m = .ok loaded m') :
    ∃ places₀ places' rs programHeaderOffset count segments tlsPages,
      Loaded image space places₀ m rs places' m' ∧ UserLinked places' m' ∧
        PlanAccepted image slot loaded rs programHeaderOffset count segments tlsPages := by
  obtain ⟨places, howned, hroot, halone⟩ := hspace.alone
  obtain ⟨available, havailable⟩ := howned.exists_available space
  have hstart := Loaded.start image howned hroot hempty
  have hends := (loadUserElfInto_follows havailable image slot []).2 _ _ hstart (neverLoses_nil _)
  rw [hload] at hends
  obtain ⟨rs, places', hplan, hloaded, -⟩ := hends
  obtain ⟨programHeaderOffset, count, segments, tlsPages, haccepted⟩ := planUserElf_ok hplan
  refine ⟨places, places', rs, programHeaderOffset, count, segments, tlsPages, hloaded,
    hloaded.filled.linked fun f r path i hf hlen hin hp => ?_, haccepted⟩
  -- There is nothing but the root table, and no entry in it.
  obtain rfl := Owner.space.inj (halone f _ path hf)
  rcases mem_treePaths.mp ((hstart.paths path).mp ⟨f, hf⟩) with rfl | ⟨v, hv, -⟩
  · obtain rfl := howned.forest.root hf hroot
    have habsent := hempty i (hin.2 rfl)
    rw [howned.aligned _ _ hroot] at habsent
    exact absurd hp habsent
  · cases hv

end Load

/-- Creating a space and loading the image into it for this slot. -/
def loadNew (image : List UInt8) (slot : Nat) (m : Memory) :
    Option (Nat × Memory × LoadedImage × Memory) :=
  match createUserAddressSpace m with
  | .error _ _ => none
  | .ok space m₁ =>
    match loadUserElfInto image space slot m₁ with
    | .error _ _ => none
    | .ok loaded m₂ => some (space, m₁, loaded, m₂)

theorem loadNew_eq_some {image : List UInt8} {slot space boot : Nat} {base m₁ m₂ : Memory}
    {loaded : LoadedImage} {config : PagingConfig} {s : SpaceState}
    (hreached : SpacesReached config Always boot base s)
    (h : loadNew image slot s.memory = some (space, m₁, loaded, m₂)) :
    HasSpace space m₁ ∧ EmptySpace m₁ space ∧
      loadUserElfInto image space slot m₁ = .ok loaded m₂ := by
  unfold loadNew at h
  split at h
  · cases h
  · rename_i space' m₁' hcreate
    split at h
    · cases h
    · rename_i loaded' m₂' hload
      obtain ⟨rfl, rfl, rfl, rfl⟩ := Option.some.inj h
      obtain ⟨places, hsep, -⟩ := hreached.separate
      obtain ⟨places₁, howned, hroot, hempty, -⟩ := hsep.created hcreate
      exact ⟨⟨places₁, howned, hroot⟩, hempty, hload⟩

end OpenKernel
