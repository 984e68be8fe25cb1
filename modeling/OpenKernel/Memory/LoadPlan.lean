import OpenKernel.Memory.LoadPages
import OpenKernel.Memory.CheckedElf

/-!
# What the ELF loader asks for

The headers of an image decide which pages the loader asks for and in which
order.  The plan of an image is this list, together with how the headers end:
with the loaded image or with an error.  It is a function of the image and the
stack slot alone.  The loader carries its plan out: it stops where the plan
stops, or at the first page for which there is no room.
-/

namespace OpenKernel

open Lib
open CheckedLoader (ofPaging_bind ofPaging_forM checkedAdd_eq_some)

/-! ## Headers -/

/-- A LOAD header that is accepted. -/
structure Segment where
  flags : Nat
  fileOffset : Nat
  virtualAddress : Nat
  fileSize : Nat
  memoryEnd : Nat

/-- A field that has to be there. -/
def required (x : Option Nat) (error : ElfError) : Except ElfError Nat :=
  match x with
  | some a => .ok a
  | none => .error error

/-- The checks of the LOAD branch. -/
def readSegment (image : List UInt8) (headerOffset : Nat) : Except ElfError Segment := do
  let flags ← required (readU32 image (headerOffset + 4)) .invalidHeader
  let fileOffset ← required (readU64 image (headerOffset + 8)) .invalidHeader
  let virtualAddress ← required (readU64 image (headerOffset + 16)) .invalidHeader
  let fileSize ← required (readU64 image (headerOffset + 32)) .invalidHeader
  let memorySize ← required (readU64 image (headerOffset + 40)) .invalidHeader
  if memorySize < fileSize then throw .invalidSegment
  let fileEnd ← required (checkedAdd fileOffset fileSize) .invalidSegment
  let memoryEnd ← required (checkedAdd virtualAddress memorySize) .invalidSegment
  if memorySize = 0 ∨ image.length < fileEnd ∨
      virtualAddress < futureUserSpaceBase ∨ userSpaceEnd < memoryEnd then
    throw .invalidSegment
  return { flags, fileOffset, virtualAddress, fileSize, memoryEnd }

namespace Segment

/-- The pages of a segment. -/
def requests (s : Segment) : List PageRequest :=
  (pagesBetween (alignDown s.virtualAddress pageSize)
    (alignDown (s.memoryEnd - 1) pageSize)).map fun page =>
      { page, flags := segmentFlags s.flags, base := s.virtualAddress,
        fileOffset := s.fileOffset, fileSize := s.fileSize }

/-- The segment makes the entry point executable. -/
def holdsEntry (s : Segment) (entry : Nat) : Bool :=
  decide (s.flags &&& programFlagExecute ≠ 0 ∧ s.virtualAddress ≤ entry ∧ entry < s.memoryEnd)

end Segment

/-- The checks of the TLS branch. -/
def readTls (image : List UInt8) (headerOffset : Nat) : Except ElfError TlsImage := do
  let fileOffset ← required (readU64 image (headerOffset + 8)) .invalidHeader
  let fileSize ← required (readU64 image (headerOffset + 32)) .invalidHeader
  let memorySize ← required (readU64 image (headerOffset + 40)) .invalidHeader
  let align ← required (readU64 image (headerOffset + 48)) .invalidHeader
  if memorySize < fileSize ∨
      (checkedAdd fileOffset fileSize).all (image.length < ·) ∨
      align ≠ 0 ∧ ¬ IsPowerOfTwo align then
    throw .invalidProgramHeader
  return { fileOffset, fileSize, memorySize, align }

/-- The start of the TLS block of a slot. -/
def tlsBase (slot : Nat) : Nat := userTlsBase + slot * 0x1_0000

/-- The thread pointer and the end of what is mapped for the block. -/
def tlsBounds (slot : Nat) (tls : TlsImage) : Except ElfError (Nat × Nat) := do
  let align := max tls.align 16
  let padded ← required (checkedAdd (max tls.memorySize 1) (align - 1)) .invalidProgramHeader
  let fsBase ← required (checkedAdd (tlsBase slot) (alignDown padded align)) .invalidProgramHeader
  let stop ← required (checkedAdd fsBase tlsTcbSize) .invalidProgramHeader
  return (fsBase, stop)

/-- The pages of the TLS block and the thread control block. -/
def tlsRequests (slot : Nat) (tls : TlsImage) (stop : Nat) : List PageRequest :=
  (pagesBetween (alignDown (tlsBase slot) pageSize)
    (alignDown (stop - 1) pageSize)).map fun page =>
      { page, flags := .userReadWrite, base := tlsBase slot, fileOffset := tls.fileOffset,
        fileSize := tls.fileSize }

/-- The pages of the user stack. -/
def stackRequests (slot : Nat) : List PageRequest :=
  (userStack slot).map fun page =>
    { page, flags := .userReadWrite, base := 0, fileOffset := 0, fileSize := 0 }

/-- The header of the file: the entry point, and where the program headers are
and how many. -/
def readHeader (image : List UInt8) : Except ElfError (Nat × Nat × Nat) := do
  if ¬ validHeader image then throw .invalidHeader
  let entry ← required (readU64 image 24) .invalidHeader
  let programHeaderOffset ← required (readU64 image 32) .invalidHeader
  let programHeaderCount ← required (readU16 image 56) .invalidHeader
  let tableSize ← required (checkedMul programHeaderCount programHeaderSize) .invalidHeader
  let tableEnd ← required (checkedAdd programHeaderOffset tableSize) .invalidHeader
  if image.length < tableEnd then throw .invalidHeader
  return (entry, programHeaderOffset, programHeaderCount)

/-! ## The plan -/

/-- What is computed from the headers, with the pages that are asked for on
the way. -/
abbrev Plan := EStateM ElfError (List PageRequest)

def Plan.ofExcept {α : Type} (x : Except ElfError α) : Plan α :=
  match x with
  | .ok a => return a
  | .error e => throw e

def Plan.request (requests : List PageRequest) : Plan Unit :=
  modify (· ++ requests)

/-- One turn of the header loop. -/
def planProgramHeader (image : List UInt8) (entry programHeaderOffset : Nat)
    (state : LoadState) (index : Nat) : Plan LoadState := do
  let headerOffset := programHeaderOffset + index * programHeaderSize
  let headerType ← Plan.ofExcept (required (readU32 image headerOffset) .invalidHeader)
  if headerType = programHeaderTls then
    if state.tls.isSome then throw .invalidProgramHeader
    else
      let tls ← Plan.ofExcept (readTls image headerOffset)
      return { state with tls := some tls }
  else if headerType ≠ programHeaderLoad then
    return state
  else
    let segment ← Plan.ofExcept (readSegment image headerOffset)
    Plan.request segment.requests
    return { state with
      entryIsExecutable := state.entryIsExecutable || segment.holdsEntry entry }

/-- The TLS block. -/
def planInitialTls (slot : Nat) (tls : TlsImage) : Plan Nat := do
  let (fsBase, stop) ← Plan.ofExcept (tlsBounds slot tls)
  Plan.request (tlsRequests slot tls stop)
  return fsBase

/-- The plan of an image. -/
def planUserElf (image : List UInt8) (slot : Nat) : Plan LoadedImage := do
  let (entry, programHeaderOffset, programHeaderCount) ← Plan.ofExcept (readHeader image)
  let state ← (List.range programHeaderCount).foldlM
    (planProgramHeader image entry programHeaderOffset)
    { entryIsExecutable := false, tls := none }
  if ¬ state.entryIsExecutable then throw .noExecutableSegment
  else
    Plan.request (stackRequests slot)
    let fsBase ←
      match state.tls with
      | some tls => planInitialTls slot tls
      | none => pure 0
    return { entry, stackPointer := userStackTop slot - 8, tls := state.tls, fsBase }

/-! ## The loader in these terms -/

def Loader.ofExcept {α : Type} (x : Except ElfError α) : Loader α :=
  match x with
  | .ok a => return a
  | .error e => throw e

section Loader

variable {image : List UInt8} {space : Nat} {α β : Type}

theorem ofExcept_bind (x : Except ElfError α) (f : α → Except ElfError β) :
    Loader.ofExcept (x >>= f) = Loader.ofExcept x >>= fun a => Loader.ofExcept (f a) := by
  cases x <;> rfl

theorem ofExcept_required (x : Option Nat) (error : ElfError) :
    Loader.ofExcept (required x error) = Loader.orElse x error := by
  cases x <;> rfl

theorem ofExcept_ite {c : Prop} [Decidable c] (x y : Except ElfError α) :
    Loader.ofExcept (if c then x else y) =
      if c then Loader.ofExcept x else Loader.ofExcept y := by
  split <;> rfl

theorem ofExcept_throw (error : ElfError) :
    Loader.ofExcept (throw error : Except ElfError α) = throw error := rfl

theorem ofExcept_pure (a : α) : Loader.ofExcept (pure a : Except ElfError α) = pure a := rfl

theorem loader_ite_bind {c : Prop} [Decidable c] (x y : Loader α) (f : α → Loader β) :
    (if c then x else y) >>= f = if c then x >>= f else y >>= f := by
  split <;> rfl

theorem loader_throw_bind (error : ElfError) (f : α → Loader β) :
    (throw error : Loader α) >>= f = throw error := rfl

theorem loader_forM_map (xs : List α) (f : α → β) (body : β → Loader Unit) :
    (xs.map f).forM body = xs.forM fun x => body (f x) := by
  induction xs with
  | nil => rfl
  | cons x xs ih =>
    show (body (f x) >>= fun _ => (xs.map f).forM body) = _
    rw [ih]
    rfl

theorem forM_requests (pages : List Nat) (base fileOffset fileSize : Nat) (flags : PageFlags) :
    (pages.map fun page => (⟨page, flags, base, fileOffset, fileSize⟩ : PageRequest)).forM
        (loadRequest image space) =
      pages.forM (loadPage image space base fileOffset fileSize flags) :=
  loader_forM_map pages _ _

theorem loadSegment_eq (image : List UInt8) (space entry headerOffset : Nat)
    (state : LoadState) :
    loadSegment image space entry headerOffset state = (do
      let segment ← Loader.ofExcept (readSegment image headerOffset)
      segment.requests.forM (loadRequest image space)
      return { state with
        entryIsExecutable := state.entryIsExecutable || segment.holdsEntry entry }) := by
  unfold loadSegment readSegment
  simp only [ofExcept_bind, ofExcept_required, ofExcept_ite, ofExcept_throw, ofExcept_pure,
    bind_assoc, loader_ite_bind, loader_throw_bind, pure_bind, Segment.requests,
    Segment.holdsEntry, forM_requests]

theorem readTlsHeader_eq (image : List UInt8) (headerOffset : Nat) (state : LoadState) :
    readTlsHeader image headerOffset state =
      if state.tls.isSome then throw .invalidProgramHeader
      else do
        let tls ← Loader.ofExcept (readTls image headerOffset)
        return { state with tls := some tls } := by
  unfold readTlsHeader readTls
  simp only [ofExcept_bind, ofExcept_required, ofExcept_ite, ofExcept_throw, ofExcept_pure,
    bind_assoc, loader_ite_bind, loader_throw_bind, pure_bind]

theorem loadProgramHeader_eq (image : List UInt8) (space entry programHeaderOffset index : Nat)
    (state : LoadState) :
    loadProgramHeader image space entry programHeaderOffset state index = (do
      let headerOffset := programHeaderOffset + index * programHeaderSize
      let headerType ← Loader.ofExcept (required (readU32 image headerOffset) .invalidHeader)
      if headerType = programHeaderTls then
        if state.tls.isSome then throw .invalidProgramHeader
        else
          let tls ← Loader.ofExcept (readTls image headerOffset)
          return { state with tls := some tls }
      else if headerType ≠ programHeaderLoad then
        return state
      else
        let segment ← Loader.ofExcept (readSegment image headerOffset)
        segment.requests.forM (loadRequest image space)
        return { state with
          entryIsExecutable := state.entryIsExecutable || segment.holdsEntry entry }) := by
  unfold loadProgramHeader
  simp only [ofExcept_required, readTlsHeader_eq, loadSegment_eq]

theorem loadInitialTls_eq (image : List UInt8) (space slot : Nat) (tls : TlsImage) :
    loadInitialTls image space slot tls = (do
      let (fsBase, stop) ← Loader.ofExcept (tlsBounds slot tls)
      (tlsRequests slot tls stop).forM (loadRequest image space)
      return fsBase) := by
  unfold loadInitialTls tlsBounds
  simp only [ofExcept_bind, ofExcept_required, ofExcept_pure, bind_assoc, pure_bind, tlsRequests,
    forM_requests, tlsBase]

/-- A page of the stack is a request for no part of the file. -/
theorem stackPage_eq (image : List UInt8) (space page : Nat) :
    Loader.ofPaging (do
      let frame ← allocatePhysicalFrame
      modify (·.zeroPhysicalFrame frame)
      mapUserPageIn space page frame .userReadWrite) =
      loadPage image space 0 0 0 .userReadWrite page := by
  unfold loadPage
  rw [ofPaging_bind]
  refine bind_congr fun frame => ?_
  rw [ofPaging_bind]
  refine bind_congr fun _ => ?_
  have hnothing : ¬ max page 0 < min (page + pageSize) (0 + 0) := by omega
  simp only [if_neg hnothing]
  exact (bind_pure _).symm

theorem allocateUserStackIn_eq (image : List UInt8) (space slot : Nat) :
    Loader.ofPaging (allocateUserStackIn space slot) = (do
      (stackRequests slot).forM (loadRequest image space)
      return userStackTop slot) := by
  unfold allocateUserStackIn stackRequests userStack
  rw [ofPaging_bind, ofPaging_forM, forM_requests, loader_forM_map]
  simp only [stackPage_eq image]
  rfl

/-- What `load_user_elf_into` does once it has read the header. -/
def loadSegments (image : List UInt8) (space slot : Nat) (header : Nat × Nat × Nat) :
    Loader LoadedImage := do
  let (entry, programHeaderOffset, programHeaderCount) := header
  let state ← (List.range programHeaderCount).foldlM
    (loadProgramHeader image space entry programHeaderOffset)
    { entryIsExecutable := false, tls := none }
  if ¬ state.entryIsExecutable then throw .noExecutableSegment
  else
    let stackTop ← Loader.ofPaging (allocateUserStackIn space slot)
    let fsBase ←
      match state.tls with
      | some tls => loadInitialTls image space slot tls
      | none => pure 0
    return { entry, stackPointer := stackTop - 8, tls := state.tls, fsBase }

theorem loadUserElfInto_eq (image : List UInt8) (space slot : Nat) :
    loadUserElfInto image space slot =
      Loader.ofExcept (readHeader image) >>= loadSegments image space slot := by
  unfold loadUserElfInto readHeader
  simp only [ofExcept_bind, ofExcept_required, ofExcept_ite, ofExcept_throw, ofExcept_pure,
    bind_assoc, loader_ite_bind, loader_throw_bind, pure_bind]
  rfl

end Loader

/-! ## Losing frames -/

/-- At no page of the list a frame is lost. -/
def NeverLoses (free : Nat) (pages : List Nat) : Prop :=
  ∀ k page, pages[k]? = some page → ¬ LosesFrameAt free (pages.take k) page

section Losing

variable {free : Nat} {pages more : List Nat} {page : Nat}

theorem neverLoses_nil (free : Nat) : NeverLoses free [] :=
  fun _ _ hk => nomatch hk

theorem NeverLoses.of_append (h : NeverLoses free (pages ++ more)) : NeverLoses free pages := by
  intro k page hk
  have hlt := (List.getElem?_eq_some_iff.mp hk).1
  have hwhole := h k page (by rw [List.getElem?_append_left hlt, hk])
  rwa [List.take_append_of_le_length (Nat.le_of_lt hlt)] at hwhole

theorem NeverLoses.snoc (h : NeverLoses free pages) (hpage : ¬ LosesFrameAt free pages page) :
    NeverLoses free (pages ++ [page]) := by
  intro k page' hk
  rcases Nat.lt_or_ge k pages.length with hlt | hge
  · rw [List.getElem?_append_left hlt] at hk
    rw [List.take_append_of_le_length (Nat.le_of_lt hlt)]
    exact h k page' hk
  · rw [List.getElem?_append_right hge] at hk
    have hzero : k - pages.length = 0 := by
      have := (List.getElem?_eq_some_iff.mp hk).1
      rw [List.length_singleton] at this
      omega
    rw [hzero] at hk
    obtain rfl := Option.some.inj hk
    rwa [show k = pages.length by omega, List.take_left]

/-- Once all frames are taken no frame is lost. -/
theorem NeverLoses.exhausted (h : NeverLoses free pages) (hfull : framesFor pages = free)
    (more : List Nat) : NeverLoses free (pages ++ more) := by
  intro k page hk
  rcases Nat.lt_or_ge k pages.length with hlt | hge
  · rw [List.getElem?_append_left hlt] at hk
    rw [List.take_append_of_le_length (Nat.le_of_lt hlt)]
    exact h k page hk
  · rintro ⟨hshort, -⟩
    rw [List.take_append, List.take_of_length_le hge] at hshort
    have hle : framesFor pages ≤ framesFor (pages ++ more.take (k - pages.length)) :=
      Finset.card_le_card (treePaths_append_mono _ _)
    omega

end Losing

/-! ## The loader carries the plan out -/

/-- The pages that have been asked for when the plan ends. -/
def planned {α : Type} : EStateM.Result ElfError (List PageRequest) α → List PageRequest
  | .ok _ rs | .error _ rs => rs

/-- The pages of some requests. -/
def pagesOf (rs : List PageRequest) : List Nat := rs.map PageRequest.page

section Follows

variable {image : List UInt8} {space : Nat} {places₀ : Places} {m₀ : Memory} {free : Nat}
  {α β : Type}

/-- How the loader ends that has asked for the pages `rs` and has got them.
It ends as the plan does, or at a page for which there is no frame, or at one
at which a frame is lost. -/
def Ends (image : List UInt8) (space : Nat) (places₀ : Places) (m₀ : Memory) (free : Nat)
    (plan : EStateM.Result ElfError (List PageRequest) α) :
    EStateM.Result ElfError Memory α → Prop
  | .ok a m' => ∃ rs places, plan = .ok a rs ∧ Loaded image space places₀ m₀ rs places m' ∧
      NeverLoses free (pagesOf rs)
  | .error e m' =>
    (∃ rs places, plan = .error e rs ∧ Loaded image space places₀ m₀ rs places m' ∧
      NeverLoses free (pagesOf rs)) ∨
    (∃ rs places, Loaded image space places₀ m₀ rs places m' ∧
      ∀ more, NeverLoses free (pagesOf (planned plan ++ more))) ∨
    (∃ mapped frame places, Filled space mapped (· = frame) places₀ m₀ places m') ∧
      ¬ NeverLoses free (pagesOf (planned plan))

/-- The loader does what the plan says. -/
def Follows (image : List UInt8) (space : Nat) (places₀ : Places) (m₀ : Memory) (free : Nat)
    (x : Loader α) (y : Plan α) : Prop :=
  ∀ rs, (∃ more, planned (y rs) = rs ++ more) ∧
    ∀ places m, Loaded image space places₀ m₀ rs places m → NeverLoses free (pagesOf rs) →
      Ends image space places₀ m₀ free (y rs) (x m)

theorem Follows.pure (a : α) : Follows image space places₀ m₀ free (Pure.pure a) (Pure.pure a) :=
  fun rs => ⟨⟨[], (List.append_nil rs).symm⟩, fun places _ h hnever => ⟨rs, places, rfl, h, hnever⟩⟩

theorem Follows.throw (error : ElfError) :
    Follows (α := α) image space places₀ m₀ free (throw error) (throw error) :=
  fun rs => ⟨⟨[], (List.append_nil rs).symm⟩,
    fun places _ h hnever => .inl ⟨rs, places, rfl, h, hnever⟩⟩

theorem Follows.ofExcept (x : Except ElfError α) :
    Follows image space places₀ m₀ free (Loader.ofExcept x) (Plan.ofExcept x) := by
  cases x with
  | ok a => exact Follows.pure a
  | error e => exact Follows.throw e

theorem Follows.ite {c : Prop} [Decidable c] {x x' : Loader α} {y y' : Plan α}
    (h : Follows image space places₀ m₀ free x y)
    (h' : Follows image space places₀ m₀ free x' y') :
    Follows image space places₀ m₀ free (if c then x else x') (if c then y else y') := by
  split
  · exact h
  · exact h'

theorem Follows.bind {x : Loader α} {y : Plan α} {f : α → Loader β} {g : α → Plan β}
    (h : Follows image space places₀ m₀ free x y)
    (hf : ∀ a, Follows image space places₀ m₀ free (f a) (g a)) :
    Follows image space places₀ m₀ free (x >>= f) (y >>= g) := by
  intro rs
  obtain ⟨⟨more, hmore⟩, hx⟩ := h rs
  -- The plan goes on from the pages of its first part.
  have hplanned : ∃ rest, planned ((y >>= g) rs) = planned (y rs) ++ rest := by
    show ∃ rest, planned (EStateM.bind y g rs) = _
    unfold EStateM.bind
    cases hy : y rs with
    | error e rs' => exact ⟨[], (List.append_nil rs').symm⟩
    | ok a rs' => exact (hf a rs').1
  obtain ⟨rest, hrest⟩ := hplanned
  refine ⟨⟨more ++ rest, by rw [hrest, hmore, List.append_assoc]⟩, fun places m hm hnever => ?_⟩
  have hends := hx places m hm hnever
  show Ends image space places₀ m₀ free ((y >>= g) rs) (EStateM.bind x f m)
  unfold EStateM.bind
  cases hxm : x m with
  | ok a m₁ =>
    rw [hxm] at hends
    obtain ⟨rs₁, places₁, hy, hm₁, hnever₁⟩ := hends
    have hnext := (hf a rs₁).2 places₁ m₁ hm₁ hnever₁
    have hbind : (y >>= g) rs = g a rs₁ := by
      show EStateM.bind y g rs = _
      unfold EStateM.bind
      rw [hy]
    rw [hbind]
    exact hnext
  | error e m₁ =>
    rw [hxm] at hends
    rcases hends with ⟨rs₁, places₁, hy, hm₁, hnever₁⟩ | ⟨rs₁, places₁, hm₁, hquiet⟩ | ⟨hlost, hloses⟩
    · refine .inl ⟨rs₁, places₁, ?_, hm₁, hnever₁⟩
      show EStateM.bind y g rs = _
      unfold EStateM.bind
      rw [hy]
    · refine .inr (.inl ⟨rs₁, places₁, hm₁, fun more' => ?_⟩)
      rw [hrest, List.append_assoc]
      exact hquiet _
    · refine .inr (.inr ⟨hlost, fun hnever' => hloses ?_⟩)
      rw [hrest] at hnever'
      unfold pagesOf at hnever' ⊢
      rw [List.map_append] at hnever'
      exact hnever'.of_append

/-- A loop that carries a value. -/
theorem Follows.foldlM {σ ι : Type} {f : σ → ι → Loader σ} {g : σ → ι → Plan σ}
    (h : ∀ a i, Follows image space places₀ m₀ free (f a i) (g a i)) (is : List ι) (a : σ) :
    Follows image space places₀ m₀ free (is.foldlM f a) (is.foldlM g a) := by
  induction is generalizing a with
  | nil => exact Follows.pure a
  | cons i is ih => exact Follows.bind (h a i) ih

/-- The page loops. -/
theorem Follows.requests {available : Finset Nat} {requests : List PageRequest}
    (havailable : ∀ f, f ∈ available ↔ FreeOrIn places₀ m₀ (.space space) f)
    (huser : ∀ r ∈ requests, r.flags.bits &&& userBit ≠ 0) :
    Follows image space places₀ m₀ available.card (requests.forM (loadRequest image space))
      (Plan.request requests) := by
  intro rs
  refine ⟨⟨requests, rfl⟩, fun places m hm hnever => ?_⟩
  show Ends image space places₀ m₀ available.card (.ok () (rs ++ requests)) _
  induction requests generalizing rs places m with
  | nil =>
    rw [List.append_nil]
    exact ⟨rs, places, rfl, hm, hnever⟩
  | cons r requests ih =>
    have hpages : pagesOf (rs ++ r :: requests) = pagesOf (rs ++ [r]) ++ pagesOf requests := by
      unfold pagesOf
      rw [← List.map_append, List.append_assoc]
      rfl
    have hone := hm.load (huser r List.mem_cons_self) havailable
    show Ends image space places₀ m₀ available.card _
      (EStateM.bind (loadRequest image space r) (fun _ => requests.forM (loadRequest image space)) m)
    unfold EStateM.bind
    cases hx : loadRequest image space r m with
    | ok u m₁ =>
      rw [hx] at hone
      obtain ⟨⟨places₁, hm₁⟩, hkeeps⟩ := hone
      have hnever₁ : NeverLoses available.card (pagesOf (rs ++ [r])) := by
        unfold pagesOf at hnever ⊢
        rw [List.map_append]
        exact hnever.snoc hkeeps
      have hrest := ih (fun r' hr' => huser r' (List.mem_cons_of_mem r hr')) (rs ++ [r]) places₁ m₁
        hm₁ hnever₁
      rwa [List.append_assoc] at hrest
    | error e m₁ =>
      rw [hx] at hone
      rcases hone with ⟨rfl, hfull⟩ | ⟨hloses, hlost⟩
      · refine .inr (.inl ⟨rs, places, hm, fun more => ?_⟩)
        show NeverLoses available.card (pagesOf (rs ++ r :: requests ++ more))
        unfold pagesOf at hnever ⊢
        rw [List.append_assoc, List.map_append]
        exact hnever.exhausted hfull _
      · refine .inr (.inr ⟨hlost, fun hbad => ?_⟩)
        change NeverLoses available.card (pagesOf (rs ++ r :: requests)) at hbad
        rw [hpages] at hbad
        have hlast := hbad.of_append (pagesOf rs).length r.page (by
          unfold pagesOf
          rw [List.map_append, List.getElem?_append_right (Nat.le_refl _), Nat.sub_self]
          rfl)
        unfold pagesOf at hlast
        rw [List.map_append, List.take_left] at hlast
        exact hlast hloses

theorem segmentFlags_user (flags : Nat) : (segmentFlags flags).bits &&& userBit ≠ 0 := by
  unfold segmentFlags
  split <;> decide

theorem Segment.requests_user (s : Segment) :
    ∀ r ∈ s.requests, r.flags.bits &&& userBit ≠ 0 := by
  intro r hr
  obtain ⟨page, -, rfl⟩ := List.mem_map.mp hr
  exact segmentFlags_user s.flags

theorem stackRequests_user (slot : Nat) :
    ∀ r ∈ stackRequests slot, r.flags.bits &&& userBit ≠ 0 := by
  intro r hr
  obtain ⟨page, -, rfl⟩ := List.mem_map.mp hr
  exact show PageFlags.userReadWrite.bits &&& userBit ≠ 0 by decide

theorem tlsRequests_user (slot : Nat) (tls : TlsImage) (stop : Nat) :
    ∀ r ∈ tlsRequests slot tls stop, r.flags.bits &&& userBit ≠ 0 := by
  intro r hr
  obtain ⟨page, -, rfl⟩ := List.mem_map.mp hr
  exact show PageFlags.userReadWrite.bits &&& userBit ≠ 0 by decide

/-- The loader carries out the plan of its image. -/
theorem loadUserElfInto_follows {available : Finset Nat}
    (havailable : ∀ f, f ∈ available ↔ FreeOrIn places₀ m₀ (.space space) f)
    (image : List UInt8) (slot : Nat) :
    Follows image space places₀ m₀ available.card (loadUserElfInto image space slot)
      (planUserElf image slot) := by
  rw [loadUserElfInto_eq]
  refine Follows.bind (Follows.ofExcept _) fun ⟨entry, programHeaderOffset, count⟩ => ?_
  unfold loadSegments
  dsimp only
  refine Follows.bind (Follows.foldlM (fun state index => ?_) _ _) fun state => ?_
  · rw [loadProgramHeader_eq]
    refine Follows.bind (Follows.ofExcept _) fun headerType => ?_
    refine Follows.ite (Follows.ite (Follows.throw _) ?_) (Follows.ite (Follows.pure _) ?_)
    · exact Follows.bind (Follows.ofExcept _) fun tls => Follows.pure _
    · refine Follows.bind (Follows.ofExcept _) fun segment => ?_
      exact Follows.bind (Follows.requests havailable segment.requests_user) fun _ => Follows.pure _
  · refine Follows.ite (Follows.throw _) ?_
    rw [allocateUserStackIn_eq image, bind_assoc]
    refine Follows.bind (Follows.requests havailable (stackRequests_user slot)) fun _ => ?_
    rw [pure_bind]
    cases state.tls with
    | none => exact Follows.bind (Follows.pure 0) fun fsBase => Follows.pure _
    | some tls =>
      dsimp only
      rw [loadInitialTls_eq]
      refine Follows.bind ?_ fun fsBase => Follows.pure _
      refine Follows.bind (Follows.ofExcept _) fun ⟨fsBase, stop⟩ => ?_
      exact Follows.bind (Follows.requests havailable (tlsRequests_user slot tls stop))
        fun _ => Follows.pure _

end Follows

end OpenKernel
