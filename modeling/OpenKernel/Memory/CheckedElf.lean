import OpenKernel.Memory.Elf
import OpenKernel.Memory.Entries
import OpenKernel.Lib.BitFields

/-!
# The ELF loader in machine arithmetic

`elf.rs` once more, with each unchecked operation as what it is on the
machine.  A sum, difference or product that leaves the 64-bit numbers stops
the loader with a fault, and so does an index or a slice outside the image, a
write outside the frame that is being filled, and a page loop that goes on for
longer than its fuel.

No image makes it fault: on every image the loader of `Elf` is what the
machine computes (`elf_loader_total`).
-/

namespace OpenKernel

open Lib

/-- A `&[u8]`: no slice is longer than `isize::MAX`. -/
abbrev ByteSlice := { bytes : List UInt8 // bytes.length < 2 ^ 63 }

inductive LoadFault
  | overflow
  | outOfBounds
  | outsideFrame
  | outOfFuel

inductive LoadStop
  | error (error : ElfError)
  | fault (fault : LoadFault)

/-- The memory, and the pages that the loader has mapped. -/
structure LoadWorld where
  memory : Memory
  mapped : List Nat

abbrev CheckedLoader := EStateM LoadStop LoadWorld

namespace CheckedLoader

variable {α : Type}

/-! ## The operations -/

def add (a b : Nat) : CheckedLoader Nat :=
  if a + b < 2 ^ 64 then pure (a + b) else throw (.fault .overflow)

def sub (a b : Nat) : CheckedLoader Nat :=
  if b ≤ a then pure (a - b) else throw (.fault .overflow)

def mul (a b : Nat) : CheckedLoader Nat :=
  if a * b < 2 ^ 64 then pure (a * b) else throw (.fault .overflow)

/-- `&image[start..start + count]`. -/
def slice (image : List UInt8) (start count : Nat) :
    CheckedLoader (List UInt8) := do
  let stop ← add start count
  if stop ≤ image.length then return (image.drop start).take count
  else throw (.fault .outOfBounds)

/-- `image[index]`. -/
def byte (image : List UInt8) (index : Nat) : CheckedLoader UInt8 :=
  match image[index]? with
  | some byte => pure byte
  | none => throw (.fault .outOfBounds)

/-- An operation that is total, or that checks for itself. -/
def ofLoader (x : Loader α) : CheckedLoader α := fun s =>
  match x s.memory with
  | .ok a memory => .ok a { s with memory }
  | .error e memory => .error (.error e) { s with memory }

def ofPaging (x : Paging α) : CheckedLoader α := ofLoader (.ofPaging x)

def fail (error : ElfError) : CheckedLoader α := throw (.error error)

/-- `ok_or`. -/
def orElse (x : Option α) (error : ElfError) : CheckedLoader α :=
  ofLoader (.orElse x error)

/-- `map_user_page_in`, which notes the page. -/
def mapUserPageIn (addressSpace page frame : Nat) (flags : PageFlags) :
    CheckedLoader Unit := do
  ofPaging (OpenKernel.mapUserPageIn addressSpace page frame flags)
  modify fun s => { s with mapped := page :: s.mapped }

def zeroPhysicalFrame (frame : Nat) : CheckedLoader Unit :=
  ofLoader (modify (·.zeroPhysicalFrame frame))

/-- `write_physical_frame`, inside `frame`. -/
def writePhysicalFrame (frame address : Nat) (source : List UInt8) :
    CheckedLoader Unit :=
  if frame ≤ address ∧ address + source.length ≤ frame + pageSize then
    ofLoader (modify (·.writePhysicalFrame address source))
  else throw (.fault .outsideFrame)

/-- `read_u16`, `read_u32` and `read_u64`. -/
def readNumber (size : Nat) (bytes : List UInt8) (offset : Nat) :
    CheckedLoader Nat := do
  let _ ← add offset size
  orElse (readLittleEndian size bytes offset) .invalidHeader

/-! ## The loader -/

/-- The loop `loop { …; if page == last_page { break } page += PAGE_SIZE }`. -/
def pageLoop (body : Nat → CheckedLoader Unit) (last : Nat) :
    (fuel page : Nat) → CheckedLoader Unit
  | 0, _ => throw (.fault .outOfFuel)
  | fuel + 1, page => do
    body page
    if page = last then return ()
    else pageLoop body last fuel (← add page pageSize)

/-- The body of the two page loops, which compute the offset of the source
bytes each in its own way. -/
def loadPage (image : List UInt8) (addressSpace base fileSize : Nat)
    (sourceOffset : Nat → CheckedLoader Nat) (flags : PageFlags) (page : Nat) :
    CheckedLoader Unit := do
  let frame ← ofPaging allocatePhysicalFrame
  zeroPhysicalFrame frame
  mapUserPageIn addressSpace page frame flags
  let copyStart := max page base
  let copyEnd := min (← add page pageSize) (← add base fileSize)
  if copyStart < copyEnd then
    let source ← sourceOffset copyStart
    let byteCount ← sub copyEnd copyStart
    let address ← sub (← add frame copyStart) page
    writePhysicalFrame frame address (← slice image source byteCount)
  else return ()

/-- `file_offset + copy_start - virtual_address`. -/
def segmentOffset (virtualAddress fileOffset copyStart : Nat) :
    CheckedLoader Nat := do
  sub (← add fileOffset copyStart) virtualAddress

/-- `tls.file_offset as usize + (copy_start - base) as usize`. -/
def tlsOffset (base fileOffset copyStart : Nat) : CheckedLoader Nat := do
  add fileOffset (← sub copyStart base)

/-- A chain of `||` that stops at the first check that fails. -/
def allHold : List (CheckedLoader Bool) → CheckedLoader Bool
  | [] => pure true
  | check :: checks => do
    if ← check then allHold checks else pure false

/-- The identification checks. -/
def validHeader (image : List UInt8) : CheckedLoader Bool :=
  allHold [
    pure (elfHeaderSize ≤ image.length),
    (· == [0x7F, 0x45, 0x4C, 0x46]) <$> slice image 0 4,
    (· == 2) <$> byte image 4,
    (· == 1) <$> byte image 5,
    (· == 1) <$> byte image 6,
    (· == elfTypeExecutable) <$> readNumber 2 image 16,
    (· == elfMachineX86_64) <$> readNumber 2 image 18,
    (· == 1) <$> readNumber 4 image 20,
    (· == elfHeaderSize) <$> readNumber 2 image 52,
    (· == programHeaderSize) <$> readNumber 2 image 54]

/-- The TLS branch of the header loop. -/
def readTlsHeader (image : List UInt8) (headerOffset : Nat)
    (state : LoadState) : CheckedLoader LoadState := do
  if state.tls.isSome then fail .invalidProgramHeader
  let fileOffset ← readNumber 8 image (← add headerOffset 8)
  let fileSize ← readNumber 8 image (← add headerOffset 32)
  let memorySize ← readNumber 8 image (← add headerOffset 40)
  let align ← readNumber 8 image (← add headerOffset 48)
  if memorySize < fileSize ∨
      (checkedAdd fileOffset fileSize).all (image.length < ·) ∨
      align ≠ 0 ∧ ¬ IsPowerOfTwo align then
    fail .invalidProgramHeader
  return { state with tls := some { fileOffset, fileSize, memorySize, align } }

/-- The LOAD branch of the header loop. -/
def loadSegment (fuel : Nat) (image : List UInt8)
    (addressSpace entry headerOffset : Nat) (state : LoadState) :
    CheckedLoader LoadState := do
  let flags ← readNumber 4 image (← add headerOffset 4)
  let fileOffset ← readNumber 8 image (← add headerOffset 8)
  let virtualAddress ← readNumber 8 image (← add headerOffset 16)
  let fileSize ← readNumber 8 image (← add headerOffset 32)
  let memorySize ← readNumber 8 image (← add headerOffset 40)
  if memorySize < fileSize then fail .invalidSegment
  let fileEnd ← orElse (checkedAdd fileOffset fileSize) .invalidSegment
  let memoryEnd ← orElse (checkedAdd virtualAddress memorySize) .invalidSegment
  if memorySize = 0 ∨ image.length < fileEnd ∨
      virtualAddress < futureUserSpaceBase ∨ userSpaceEnd < memoryEnd then
    fail .invalidSegment
  let executable :=
    decide (flags &&& programFlagExecute ≠ 0 ∧ virtualAddress ≤ entry ∧
      entry < memoryEnd)
  let lastByte ← sub memoryEnd 1
  pageLoop
    (loadPage image addressSpace virtualAddress fileSize
      (segmentOffset virtualAddress fileOffset) (segmentFlags flags))
    (alignDown lastByte pageSize) fuel (alignDown virtualAddress pageSize)
  return { state with
    entryIsExecutable := state.entryIsExecutable || executable }

/-- One turn of the header loop. -/
def loadProgramHeader (fuel : Nat) (image : List UInt8)
    (addressSpace entry programHeaderOffset : Nat) (state : LoadState)
    (index : Nat) : CheckedLoader LoadState := do
  let headerOffset ← add programHeaderOffset (← mul index programHeaderSize)
  let headerType ← readNumber 4 image headerOffset
  if headerType = programHeaderTls then
    readTlsHeader image headerOffset state
  else if headerType ≠ programHeaderLoad then
    return state
  else
    loadSegment fuel image addressSpace entry headerOffset state

/-- `load_initial_tls`. -/
def loadInitialTls (fuel : Nat) (image : List UInt8) (addressSpace slot : Nat)
    (tls : TlsImage) : CheckedLoader Nat := do
  let align := max tls.align 16
  let tlsSize := max tls.memorySize 1
  let padded ←
    orElse (checkedAdd tlsSize (← sub align 1)) .invalidProgramHeader
  let base ← add userTlsBase (← mul slot 0x1_0000)
  let fsBase ←
    orElse (checkedAdd base (alignDown padded align)) .invalidProgramHeader
  let stop ← orElse (checkedAdd fsBase tlsTcbSize) .invalidProgramHeader
  let lastByte ← sub stop 1
  pageLoop
    (loadPage image addressSpace base tls.fileSize
      (tlsOffset base tls.fileOffset) .userReadWrite)
    (alignDown lastByte pageSize) fuel (alignDown base pageSize)
  let _ ← sub fsBase (alignDown fsBase pageSize)
  return fsBase

/-- `allocate_user_stack_in`. -/
def allocateUserStackIn (addressSpace slot : Nat) : CheckedLoader Nat := do
  let stackTop ← sub (← sub userSpaceEnd pageSize)
    (← mul (← mul slot (← add userStackPages 1)) pageSize)
  (List.range' 1 userStackPages).forM fun page => do
    let address ← sub stackTop (← mul page pageSize)
    let frame ← ofPaging allocatePhysicalFrame
    zeroPhysicalFrame frame
    mapUserPageIn addressSpace address frame .userReadWrite
  return stackTop

/-- `load_user_elf_into`. -/
def loadUserElfInto (fuel : Nat) (image : List UInt8)
    (addressSpace stackSlot : Nat) : CheckedLoader LoadedImage := do
  if ¬ (← validHeader image) then fail .invalidHeader
  let entry ← readNumber 8 image 24
  let programHeaderOffset ← readNumber 8 image 32
  let programHeaderCount ← readNumber 2 image 56
  let tableSize ←
    orElse (checkedMul programHeaderCount programHeaderSize) .invalidHeader
  let tableEnd ←
    orElse (checkedAdd programHeaderOffset tableSize) .invalidHeader
  if image.length < tableEnd then fail .invalidHeader
  let state ← (List.range programHeaderCount).foldlM
    (loadProgramHeader fuel image addressSpace entry programHeaderOffset)
    { entryIsExecutable := false, tls := none }
  if ¬ state.entryIsExecutable then fail .noExecutableSegment
  let stackTop ← allocateUserStackIn addressSpace stackSlot
  let fsBase ←
    match state.tls with
    | some tls => loadInitialTls fuel image addressSpace stackSlot tls
    | none => pure 0
  return { entry, stackPointer := ← sub stackTop 8, tls := state.tls, fsBase }

/-! ## Agreement -/

/-- All pages that are newly mapped lie in user space. -/
def InRange (s : LoadWorld) (mapped : List Nat) : Prop :=
  ∀ page ∈ mapped, page ∈ s.mapped ∨ InUserSpace page

/-- The machine does what the loader says, without a fault, and what it returns
meets `P`. -/
def Agrees (P : α → Prop) (x : CheckedLoader α) (y : Loader α) : Prop :=
  ∀ s, match y s.memory with
    | .ok a memory => P a ∧
      ∃ mapped, x s = .ok a { memory, mapped } ∧ InRange s mapped
    | .error e memory =>
      ∃ mapped, x s = .error (.error e) { memory, mapped } ∧ InRange s mapped

section Agreement

variable {α β : Type} {P : α → Prop} {Q : β → Prop} {a b : Nat}

theorem run_bind_ok {x : CheckedLoader α} {f : α → CheckedLoader β} {s s' : LoadWorld}
    {a : α} (h : x s = .ok a s') : (x >>= f) s = f a s' := by
  show EStateM.bind x f s = _
  unfold EStateM.bind
  rw [h]

theorem run_bind_error {x : CheckedLoader α} {f : α → CheckedLoader β}
    {s s' : LoadWorld} {e : LoadStop} (h : x s = .error e s') :
    (x >>= f) s = .error e s' := by
  show EStateM.bind x f s = _
  unfold EStateM.bind
  rw [h]

theorem ofLoader_ok {y : Loader α} {s : LoadWorld} {a : α} {memory : Memory}
    (h : y s.memory = .ok a memory) :
    ofLoader y s = .ok a { s with memory } := by
  unfold CheckedLoader.ofLoader
  rw [h]

theorem ofLoader_error {y : Loader α} {s : LoadWorld} {e : ElfError} {memory : Memory}
    (h : y s.memory = .error e memory) :
    ofLoader y s = .error (.error e) { s with memory } := by
  unfold CheckedLoader.ofLoader
  rw [h]

theorem InRange.refl (s : LoadWorld) : InRange s s.mapped := fun _ => .inl

theorem InRange.trans {s : LoadWorld} {memory : Memory} {mapped mapped' : List Nat}
    (h : InRange s mapped) (h' : InRange { memory, mapped } mapped') :
    InRange s mapped' := by
  intro page hpage
  rcases h' page hpage with hold | hnew
  · exact h page hold
  · exact .inr hnew

theorem Agrees.mono {P' : α → Prop} {x : CheckedLoader α} {y : Loader α}
    (h : Agrees P x y) (hP : ∀ a, P a → P' a) : Agrees P' x y := by
  intro s
  have hs := h s
  cases hy : y s.memory with
  | ok a memory =>
    rw [hy] at hs
    exact ⟨hP a hs.1, hs.2⟩
  | error e memory =>
    rw [hy] at hs
    exact hs

/-- The sequencing rule. -/
theorem Agrees.bind {x : CheckedLoader α} {y : Loader α} {f : α → CheckedLoader β}
    {g : α → Loader β} (h : Agrees P x y) (hf : ∀ a, P a → Agrees Q (f a) (g a)) :
    Agrees Q (x >>= f) (y >>= g) := by
  intro s
  have hs := h s
  show match EStateM.bind y g s.memory with | .ok a memory => _ | .error e memory => _
  unfold EStateM.bind
  cases hy : y s.memory with
  | error e memory =>
    rw [hy] at hs
    obtain ⟨mapped, hx, hin⟩ := hs
    exact ⟨mapped, run_bind_error hx, hin⟩
  | ok a memory =>
    rw [hy] at hs
    obtain ⟨hP, mapped, hx, hin⟩ := hs
    have hrest := hf a hP { memory, mapped }
    rw [run_bind_ok hx]
    dsimp only at hrest ⊢
    cases hg : g a memory with
    | error e memory' =>
      rw [hg] at hrest
      obtain ⟨mapped', hx', hin'⟩ := hrest
      exact ⟨mapped', hx', hin.trans hin'⟩
    | ok b memory' =>
      rw [hg] at hrest
      obtain ⟨hQ, mapped', hx', hin'⟩ := hrest
      exact ⟨hQ, mapped', hx', hin.trans hin'⟩

theorem Agrees.pure {a : α} (h : P a) : Agrees P (pure a) (pure a) :=
  fun s => ⟨h, s.mapped, rfl, .refl s⟩

theorem Agrees.fail (error : ElfError) : Agrees P (fail error) (throw error) :=
  fun s => ⟨s.mapped, rfl, .refl s⟩

theorem Agrees.ofLoader {y : Loader α}
    (h : ∀ memory memory' a, y memory = .ok a memory' → P a) :
    Agrees P (ofLoader y) y := by
  intro s
  cases hy : y s.memory with
  | ok a memory => exact ⟨h _ _ a hy, s.mapped, ofLoader_ok hy, .refl s⟩
  | error e memory => exact ⟨s.mapped, ofLoader_error hy, .refl s⟩

theorem Agrees.orElse {x : Option α} (error : ElfError) (h : ∀ a, x = some a → P a) :
    Agrees P (orElse x error) (.orElse x error) := by
  refine Agrees.ofLoader fun memory memory' a ha => ?_
  cases x with
  | some b =>
    cases ha
    exact h _ rfl
  | none => cases ha

theorem Agrees.ite {c : Prop} [Decidable c] {x x' : CheckedLoader α} {y y' : Loader α}
    (h : c → Agrees P x y) (h' : ¬ c → Agrees P x' y') :
    Agrees P (if c then x else x') (if c then y else y') := by
  split
  · exact h ‹_›
  · exact h' ‹_›

/-- An early return. -/
theorem Agrees.guard {c : Prop} [Decidable c] {error : ElfError}
    {x : PUnit → CheckedLoader α} {y : PUnit → Loader α}
    (h : ¬ c → Agrees P (x ⟨⟩) (y ⟨⟩)) :
    Agrees P (if c then CheckedLoader.fail error >>= x else x ⟨⟩)
      (if c then throw error >>= y else y ⟨⟩) := by
  split
  · exact fun s => ⟨s.mapped, rfl, .refl s⟩
  · exact h ‹_›

/-! ### Arithmetic that fits -/

theorem Agrees.add {f : Nat → CheckedLoader α} {y : Loader α} (h : a + b < 2 ^ 64)
    (hf : Agrees P (f (a + b)) y) : Agrees P (add a b >>= f) y := by
  unfold CheckedLoader.add
  rw [if_pos h]
  exact hf

theorem Agrees.sub {f : Nat → CheckedLoader α} {y : Loader α} (h : b ≤ a)
    (hf : Agrees P (f (a - b)) y) : Agrees P (sub a b >>= f) y := by
  unfold CheckedLoader.sub
  rw [if_pos h]
  exact hf

theorem Agrees.mul {f : Nat → CheckedLoader α} {y : Loader α} (h : a * b < 2 ^ 64)
    (hf : Agrees P (f (a * b)) y) : Agrees P (mul a b >>= f) y := by
  unfold CheckedLoader.mul
  rw [if_pos h]
  exact hf

end Agreement

/-! ## The parts -/

section Parts

variable {image : List UInt8} {size offset value a b : Nat}

theorem readLittleEndian_lt (h : readLittleEndian size image offset = some value) :
    value < 256 ^ size := by
  have hfold : ∀ bytes : List UInt8,
      bytes.foldr (fun byte value => byte.toNat + 256 * value) 0 <
        256 ^ bytes.length := by
    intro bytes
    induction bytes with
    | nil => exact Nat.zero_lt_one
    | cons byte bytes ih =>
      have hbyte := byte.toNat_lt
      rw [List.foldr_cons, List.length_cons, Nat.pow_succ]
      omega
  unfold readLittleEndian at h
  split at h
  · obtain rfl := Option.some.inj h
    refine lt_of_lt_of_le (hfold _) (Nat.pow_le_pow_right (by decide) ?_)
    rw [List.length_take]
    exact Nat.min_le_left _ _
  · cases h

theorem checkedAdd_eq_some (h : checkedAdd a b = some value) :
    value = a + b ∧ a + b < 2 ^ 64 := by
  unfold checkedAdd at h
  split at h
  · exact ⟨(Option.some.inj h).symm, ‹_›⟩
  · cases h

theorem checkedMul_eq_some (h : checkedMul a b = some value) : value = a * b := by
  unfold checkedMul at h
  split at h
  · exact (Option.some.inj h).symm
  · cases h

theorem Agrees.readNumber (h : offset + size < 2 ^ 64) :
    Agrees (· < 256 ^ size) (readNumber size image offset)
      (.orElse (readLittleEndian size image offset) .invalidHeader) :=
  Agrees.add h (Agrees.orElse _ fun _ => readLittleEndian_lt)

/-- Reading a field of a header that lies at `a`. -/
theorem Agrees.field {P : Nat → Prop} {α : Type} {Q : α → Prop}
    {f : Nat → CheckedLoader α} {g : Nat → Loader α} (h : a + b + size < 2 ^ 64)
    (hP : ∀ value, value < 256 ^ size → P value)
    (hf : ∀ value, P value → Agrees Q (f value) (g value)) :
    Agrees Q (CheckedLoader.add a b >>= fun offset =>
        CheckedLoader.readNumber size image offset >>= f)
      (Loader.orElse (readLittleEndian size image (a + b)) .invalidHeader >>= g) :=
  Agrees.add (by omega) (Agrees.bind ((Agrees.readNumber h).mono hP) hf)

/-- A page in user space. -/
theorem page_lt {page : Nat} (h : InUserSpace page) : page < 2 ^ 47 :=
  lt_of_lt_of_eq h.2 (by decide)

theorem ofPaging_mapUserPageIn_outside {addressSpace page frame : Nat}
    {flags : PageFlags} {m : Memory} (h : ¬ InUserSpace page) :
    Loader.ofPaging (OpenKernel.mapUserPageIn addressSpace page frame flags) m =
      .error (.paging .invalidUserAddress) m := by
  unfold OpenKernel.mapUserPageIn Loader.ofPaging
  rw [if_neg h]
  rfl

theorem Agrees.mapUserPageIn (addressSpace page frame : Nat) (flags : PageFlags) :
    Agrees (fun _ => InUserSpace page)
      (CheckedLoader.mapUserPageIn addressSpace page frame flags)
      (.ofPaging (OpenKernel.mapUserPageIn addressSpace page frame flags)) := by
  intro s
  unfold CheckedLoader.mapUserPageIn CheckedLoader.ofPaging
  cases hx : Loader.ofPaging
    (OpenKernel.mapUserPageIn addressSpace page frame flags) s.memory with
  | ok a memory =>
    have hpage : InUserSpace page := by
      apply by_contra
      intro hout
      rw [ofPaging_mapUserPageIn_outside hout] at hx
      cases hx
    refine ⟨hpage, page :: s.mapped, ?_, fun other hother => ?_⟩
    · rw [run_bind_ok (ofLoader_ok hx)]
      rfl
    · cases hother with
      | head => exact .inr hpage
      | tail _ hold => exact .inl hold
  | error e memory =>
    exact ⟨s.mapped, run_bind_error (ofLoader_error hx), .refl s⟩

theorem Agrees.allocatePhysicalFrame :
    Agrees (fun frame => frame + pageSize ≤ maxPhysicalAddress)
      (CheckedLoader.ofPaging OpenKernel.allocatePhysicalFrame)
      (.ofPaging OpenKernel.allocatePhysicalFrame) := by
  refine Agrees.ofLoader fun memory memory' frame hframe => ?_
  unfold Loader.ofPaging OpenKernel.allocatePhysicalFrame at hframe
  cases hx : memory.frames.allocate with
  | mk result frames =>
    rw [hx] at hframe
    cases result with
    | none => cases hframe
    | some frame' =>
      cases hframe
      obtain ⟨hmod, hlt, -⟩ := (FrameAllocator.allocate_some hx).1
      have hmax : maxPhysicalAddress = 4096 * 1048576 := by decide
      have hsize : pageSize = 4096 := rfl
      rw [hsize] at hmod ⊢
      omega

theorem Agrees.zeroPhysicalFrame (frame : Nat) :
    Agrees (fun _ => True) (CheckedLoader.zeroPhysicalFrame frame)
      (modify (·.zeroPhysicalFrame frame)) :=
  Agrees.ofLoader fun _ _ _ _ => trivial

theorem pagesBetween_eq (first n : Nat) :
    pagesBetween first (first + n * pageSize) =
      (List.range (n + 1)).map fun page => first + page * pageSize := by
  unfold pagesBetween
  rw [Nat.add_sub_cancel_left, Nat.mul_div_cancel n (by decide)]

theorem map_range_succ (first step n : Nat) :
    ((List.range (n + 1)).map fun page => first + page * step) =
      first :: (List.range n).map fun page => first + step + page * step := by
  rw [List.range_succ_eq_map, List.map_cons, Nat.zero_mul, Nat.add_zero, List.map_map]
  congr 1
  apply List.map_congr_left
  intro page _
  rw [Function.comp_apply, Nat.succ_mul, Nat.add_comm (page * step), Nat.add_assoc]

/-- The pages from `first` on. -/
theorem pagesBetween_cons {first last n : Nat}
    (h : last = first + (n + 1) * pageSize) :
    pagesBetween first last = first :: pagesBetween (first + pageSize) last := by
  have hnext : last = first + pageSize + n * pageSize := by
    rw [h, Nat.succ_mul]
    omega
  have hrest : pagesBetween (first + pageSize) last =
      (List.range (n + 1)).map fun page => first + pageSize + page * pageSize := by
    rw [hnext, pagesBetween_eq]
  rw [hrest, h, pagesBetween_eq, map_range_succ]

theorem pagesBetween_self (first : Nat) : pagesBetween first first = [first] := by
  have h := pagesBetween_eq first 0
  rw [map_range_succ, List.range_zero, List.map_nil, Nat.zero_mul] at h
  exact h

theorem pageLoop_last {body : Nat → CheckedLoader Unit} (fuel last : Nat) :
    pageLoop body last (fuel + 1) last = (body last >>= fun _ => Pure.pure ()) := by
  unfold CheckedLoader.pageLoop
  rw [if_pos rfl]

theorem pageLoop_next {body : Nat → CheckedLoader Unit} {last page : Nat} (fuel : Nat)
    (h : page ≠ last) :
    pageLoop body last (fuel + 1) page =
      (body page >>= fun _ =>
        CheckedLoader.add page pageSize >>= pageLoop body last fuel) := by
  rw [CheckedLoader.pageLoop, if_neg h]

theorem forM_cons (page : Nat) (pages : List Nat) (body : Nat → Loader Unit) :
    (page :: pages).forM body = (body page >>= fun _ => pages.forM body) := rfl

/-- The page loop visits the pages up to the last one, and each of them lies in
user space when the next is reached. -/
theorem Agrees.pageLoop {body : Nat → CheckedLoader Unit} {body' : Nat → Loader Unit}
    (n : Nat) {first last fuel : Nat} (hlast : last = first + n * pageSize)
    (hfuel : n < fuel)
    (hbody : ∀ page, Agrees (fun _ => InUserSpace page) (body page) (body' page)) :
    Agrees (fun _ => True) (CheckedLoader.pageLoop body last fuel first)
      ((pagesBetween first last).forM body') := by
  have hsize : 0 < pageSize ∧ pageSize < 2 ^ 63 := by decide
  induction n generalizing first fuel with
  | zero =>
    obtain ⟨fuel, rfl⟩ := Nat.exists_eq_succ_of_ne_zero (Nat.ne_zero_of_lt hfuel)
    obtain rfl : last = first := by rw [hlast, Nat.zero_mul, Nat.add_zero]
    rw [pagesBetween_self, pageLoop_last, forM_cons]
    exact Agrees.bind (hbody last) fun _ _ => Agrees.pure trivial
  | succ n ih =>
    obtain ⟨fuel, rfl⟩ := Nat.exists_eq_succ_of_ne_zero (Nat.ne_zero_of_lt hfuel)
    have hnext : last = first + pageSize + n * pageSize := by
      rw [hlast, Nat.succ_mul]
      omega
    have hne : first ≠ last := by omega
    rw [pagesBetween_cons hlast, pageLoop_next fuel hne, forM_cons]
    refine Agrees.bind (hbody first) fun _ hpage => ?_
    have hlt := page_lt hpage
    exact Agrees.add (by omega) (ih hnext (Nat.lt_of_succ_lt_succ hfuel))

theorem add_eq (h : a + b < 2 ^ 64) : CheckedLoader.add a b = Pure.pure (a + b) :=
  if_pos h

theorem sub_eq (h : b ≤ a) : CheckedLoader.sub a b = Pure.pure (a - b) := if_pos h

theorem slice_eq {start count : Nat} (hlen : image.length < 2 ^ 63)
    (h : start + count ≤ image.length) :
    slice image start count = Pure.pure ((image.drop start).take count) := by
  unfold slice
  rw [add_eq (by omega), pure_bind, if_pos h]

/-- The bytes that the page loops copy lie in the file, and they stay in the
frame that is being filled. -/
theorem Agrees.loadPage {addressSpace base fileOffset fileSize : Nat}
    {sourceOffset : Nat → CheckedLoader Nat} {flags : PageFlags}
    (hlen : image.length < 2 ^ 63) (hfile : fileOffset + fileSize ≤ image.length)
    (hbase : base + fileSize < 2 ^ 64)
    (hsource : ∀ copyStart, base ≤ copyStart → copyStart < base + fileSize →
      sourceOffset copyStart = Pure.pure (fileOffset + copyStart - base))
    (page : Nat) :
    Agrees (fun _ => InUserSpace page)
      (CheckedLoader.loadPage image addressSpace base fileSize sourceOffset flags page)
      (OpenKernel.loadPage image addressSpace base fileOffset fileSize flags page) := by
  have hsize : pageSize < 2 ^ 32 ∧ maxPhysicalAddress < 2 ^ 62 := by decide
  refine Agrees.bind Agrees.allocatePhysicalFrame fun frame hframe => ?_
  refine Agrees.bind (Agrees.zeroPhysicalFrame frame) fun _ _ => ?_
  refine Agrees.bind (Agrees.mapUserPageIn addressSpace page frame flags) fun _ hpage => ?_
  have hlt := page_lt hpage
  dsimp only
  refine Agrees.add (by omega) (Agrees.add hbase (Agrees.ite (fun hcopy => ?_)
    fun _ => Agrees.pure hpage))
  have hstart : base ≤ max page base := Nat.le_max_right _ _
  have hstop := lt_of_lt_of_le hcopy (Nat.min_le_right _ _)
  rw [hsource _ hstart hstop, pure_bind]
  refine Agrees.sub (le_of_lt hcopy) (Agrees.add (by omega) (Agrees.sub (by omega) ?_))
  rw [slice_eq hlen (by omega), pure_bind]
  have hinside : frame ≤ frame + max page base - page ∧
      frame + max page base - page +
        ((image.drop (fileOffset + max page base - base)).take
          (min (page + pageSize) (base + fileSize) - max page base)).length ≤
        frame + pageSize := by
    rw [List.length_take, List.length_drop]
    omega
  unfold CheckedLoader.writePhysicalFrame
  rw [if_pos hinside]
  exact Agrees.ofLoader fun _ _ _ _ => hpage

theorem byte_eq {index : Nat} (h : index < image.length) :
    byte image index = Pure.pure (image.get ⟨index, h⟩) := by
  unfold byte
  rw [List.getElem?_eq_getElem h]
  rfl

/-- `alignDown` on pages. -/
theorem alignDown_page (h : value < 2 ^ 64) :
    alignDown value pageSize = pageSize * (value / pageSize) :=
  and_highMask (k := 12) h (by decide)

/-- The page loop of a block that starts at `first` and has `last` as its last
byte. -/
theorem Agrees.pages {body : Nat → CheckedLoader Unit} {body' : Nat → Loader Unit}
    {first last fuel : Nat} (hfuel : 2 ^ 52 ≤ fuel) (hle : first ≤ last)
    (hlt : last < 2 ^ 64)
    (hbody : ∀ page, Agrees (fun _ => InUserSpace page) (body page) (body' page)) :
    Agrees (fun _ => True)
      (CheckedLoader.pageLoop body (alignDown last pageSize) fuel
        (alignDown first pageSize))
      ((pagesBetween (alignDown first pageSize) (alignDown last pageSize)).forM
        body') := by
  rw [alignDown_page hlt, alignDown_page (lt_of_le_of_lt hle hlt)]
  have hdiv : first / pageSize ≤ last / pageSize := Nat.div_le_div_right hle
  have hcount : last / pageSize < 2 ^ 52 := by
    apply Nat.div_lt_of_lt_mul
    exact lt_of_lt_of_eq hlt (by decide)
  have hpages : last / pageSize - first / pageSize < fuel :=
    lt_of_lt_of_le (lt_of_le_of_lt (Nat.sub_le _ _) hcount) hfuel
  refine Agrees.pageLoop (last / pageSize - first / pageSize) ?_ hpages hbody
  rw [Nat.mul_comm _ pageSize, ← Nat.mul_add, Nat.add_sub_cancel' hdiv]

theorem Agrees.foldlM {σ ι : Type} {P : σ → Prop} {f : σ → ι → CheckedLoader σ}
    {g : σ → ι → Loader σ} {items : List ι}
    (h : ∀ item ∈ items, ∀ state, P state → Agrees P (f state item) (g state item))
    {state : σ} (hstate : P state) :
    Agrees P (items.foldlM f state) (items.foldlM g state) := by
  induction items generalizing state with
  | nil => exact Agrees.pure hstate
  | cons item items ih =>
    rw [List.foldlM_cons, List.foldlM_cons]
    refine Agrees.bind (h item (List.mem_cons_self ..) state hstate) fun next hnext => ?_
    exact ih (fun other hother => h other (List.mem_cons_of_mem _ hother)) hnext

end Parts

/-! ## The headers -/

section Headers

variable {image : List UInt8} {addressSpace entry fuel : Nat}

/-- The file range of an accepted TLS header lies in the image. -/
def TlsInFile (image : List UInt8) (tls : TlsImage) : Prop :=
  tls.fileOffset + tls.fileSize ≤ image.length

/-- The invariant of the header loop. -/
def HeadersRead (image : List UInt8) (state : LoadState) : Prop :=
  ∀ tls, state.tls = some tls → TlsInFile image tls

theorem le_of_not_all {a b limit : Nat}
    (h : ¬ (checkedAdd a b).all (limit < ·) = true) : a + b ≤ limit := by
  unfold checkedAdd at h
  split at h
  · rw [Option.all_some, decide_eq_true_eq] at h
    exact Nat.le_of_not_lt h
  · exact absurd rfl h

theorem Agrees.readTlsHeader {headerOffset : Nat} {state : LoadState}
    (hlen : image.length < 2 ^ 63)
    (hheader : headerOffset + programHeaderSize ≤ image.length) :
    Agrees (HeadersRead image) (CheckedLoader.readTlsHeader image headerOffset state)
      (OpenKernel.readTlsHeader image headerOffset state) := by
  have hsize : programHeaderSize = 56 := rfl
  rw [hsize] at hheader
  unfold CheckedLoader.readTlsHeader OpenKernel.readTlsHeader readU64
  refine Agrees.guard fun _ => ?_
  refine Agrees.field (by omega) (fun _ h => h) fun fileOffset _ => ?_
  refine Agrees.field (by omega) (fun _ h => h) fun fileSize _ => ?_
  refine Agrees.field (by omega) (fun _ h => h) fun memorySize _ => ?_
  refine Agrees.field (by omega) (fun _ h => h) fun align _ => ?_
  refine Agrees.guard fun hvalid => ?_
  refine Agrees.pure fun tls htls => ?_
  cases htls
  exact le_of_not_all fun hall => hvalid (.inr (.inl hall))

theorem Agrees.loadSegment {headerOffset : Nat} {state : LoadState}
    (hfuel : 2 ^ 52 ≤ fuel) (hlen : image.length < 2 ^ 63)
    (hheader : headerOffset + programHeaderSize ≤ image.length)
    (hstate : HeadersRead image state) :
    Agrees (HeadersRead image)
      (CheckedLoader.loadSegment fuel image addressSpace entry headerOffset state)
      (OpenKernel.loadSegment image addressSpace entry headerOffset state) := by
  have hsize : programHeaderSize = 56 := rfl
  have hend : userSpaceEnd < 2 ^ 62 := by decide
  rw [hsize] at hheader
  unfold CheckedLoader.loadSegment OpenKernel.loadSegment readU64 readU32
  refine Agrees.field (by omega) (fun _ h => h) fun flags _ => ?_
  refine Agrees.field (by omega) (fun _ h => h) fun fileOffset _ => ?_
  refine Agrees.field (by omega) (fun _ h => h) fun virtualAddress _ => ?_
  refine Agrees.field (by omega) (fun _ h => h) fun fileSize _ => ?_
  refine Agrees.field (by omega) (fun _ h => h) fun memorySize _ => ?_
  refine Agrees.guard fun hfits => ?_
  refine Agrees.bind (Agrees.orElse _ fun _ => checkedAdd_eq_some) fun fileEnd hfile => ?_
  refine Agrees.bind (Agrees.orElse _ fun _ => checkedAdd_eq_some) fun memoryEnd hmem => ?_
  obtain ⟨rfl, hfileLt⟩ := hfile
  obtain ⟨rfl, hmemLt⟩ := hmem
  refine Agrees.guard fun hvalid => ?_
  -- What the checks leave: a nonempty segment of user space, from the file.
  have hsegment : memorySize ≠ 0 ∧ fileOffset + fileSize ≤ image.length ∧
      virtualAddress + memorySize ≤ userSpaceEnd := by
    refine ⟨fun h => hvalid (.inl h), ?_, ?_⟩
    · exact Nat.le_of_not_lt fun h => hvalid (.inr (.inl h))
    · exact Nat.le_of_not_lt fun h => hvalid (.inr (.inr (.inr h)))
  dsimp only
  refine Agrees.sub (by omega) ?_
  refine Agrees.bind (Agrees.pages hfuel (by omega) (by omega) ?_) fun _ _ => Agrees.pure hstate
  refine Agrees.loadPage hlen hsegment.2.1 (by omega) fun copyStart hle hlt => ?_
  unfold segmentOffset
  rw [add_eq (by omega), pure_bind, sub_eq (by omega)]

theorem Agrees.loadProgramHeader {programHeaderOffset index : Nat} {state : LoadState}
    (hfuel : 2 ^ 52 ≤ fuel) (hlen : image.length < 2 ^ 63)
    (hheader : programHeaderOffset + (index + 1) * programHeaderSize ≤ image.length)
    (hstate : HeadersRead image state) :
    Agrees (HeadersRead image)
      (CheckedLoader.loadProgramHeader fuel image addressSpace entry
        programHeaderOffset state index)
      (OpenKernel.loadProgramHeader image addressSpace entry programHeaderOffset state
        index) := by
  have hsize : programHeaderSize = 56 := rfl
  have hfits : programHeaderOffset + index * programHeaderSize + programHeaderSize ≤
      image.length := by
    rw [Nat.succ_mul] at hheader
    omega
  unfold CheckedLoader.loadProgramHeader OpenKernel.loadProgramHeader readU32
  refine Agrees.mul (by omega) (Agrees.add (by omega) ?_)
  refine Agrees.bind (Agrees.readNumber (by omega)) fun headerType _ => ?_
  refine Agrees.ite (fun _ => Agrees.readTlsHeader hlen hfits) fun _ => ?_
  refine Agrees.ite (fun _ => Agrees.pure hstate) fun _ => ?_
  exact Agrees.loadSegment hfuel hlen hfits hstate

/-- `load_initial_tls`, for a TLS header that was accepted. -/
theorem Agrees.loadInitialTls {slot : Nat} {tls : TlsImage} (hfuel : 2 ^ 52 ≤ fuel)
    (hlen : image.length < 2 ^ 63) (hslot : slot ≤ 8) (htls : TlsInFile image tls) :
    Agrees (fun _ => True)
      (CheckedLoader.loadInitialTls fuel image addressSpace slot tls)
      (OpenKernel.loadInitialTls image addressSpace slot tls) := by
  have hbase : userTlsBase < 2 ^ 62 := by decide
  have htcb : tlsTcbSize = 64 := rfl
  unfold TlsInFile at htls
  unfold CheckedLoader.loadInitialTls OpenKernel.loadInitialTls
  dsimp only
  refine Agrees.sub (by omega) ?_
  refine Agrees.bind (Agrees.orElse _ fun _ => checkedAdd_eq_some) fun padded _ => ?_
  refine Agrees.mul (by omega) (Agrees.add (by omega) ?_)
  refine Agrees.bind (Agrees.orElse _ fun _ => checkedAdd_eq_some) fun fsBase hfs => ?_
  refine Agrees.bind (Agrees.orElse _ fun _ => checkedAdd_eq_some) fun stop hstop => ?_
  obtain ⟨hfsEq, hfsLt⟩ := hfs
  obtain ⟨rfl, hstopLt⟩ := hstop
  refine Agrees.sub (by omega) ?_
  refine Agrees.bind (Agrees.pages hfuel (by omega) (by omega) ?_) fun _ _ => ?_
  · refine Agrees.loadPage hlen htls (by omega) fun copyStart hle hlt => ?_
    unfold tlsOffset
    rw [sub_eq hle, pure_bind, add_eq (by omega), Nat.add_sub_assoc hle]
  · exact Agrees.sub Nat.and_le_left (Agrees.pure trivial)

theorem allHold_pure (checks : List Bool) :
    allHold (checks.map Pure.pure) = Pure.pure (checks.all id) := by
  induction checks with
  | nil => rfl
  | cons check checks ih =>
    rw [List.map_cons, allHold, pure_bind, ih, List.all_cons]
    cases check <;> rfl

/-- A number that lies in the image. -/
theorem readNumber_eq {size offset : Nat} (hlen : image.length < 2 ^ 63)
    (h : offset + size ≤ image.length) :
    ∃ value, readLittleEndian size image offset = some value ∧
      CheckedLoader.readNumber size image offset = Pure.pure value := by
  refine ⟨_, if_pos h, ?_⟩
  unfold CheckedLoader.readNumber
  rw [add_eq (by omega), pure_bind]
  unfold CheckedLoader.orElse readLittleEndian
  rw [if_pos h]
  rfl

/-- The identification checks read inside the image. -/
theorem validHeader_eq (hlen : image.length < 2 ^ 63) :
    CheckedLoader.validHeader image = Pure.pure (OpenKernel.validHeader image) := by
  have hsize : elfHeaderSize = 64 := rfl
  unfold CheckedLoader.validHeader OpenKernel.validHeader
  by_cases hheader : elfHeaderSize ≤ image.length
  · have hfield : ∀ size offset, offset + size ≤ 64 →
        ∃ value, readLittleEndian size image offset = some value ∧
          CheckedLoader.readNumber size image offset = Pure.pure value :=
      fun size offset hfits => readNumber_eq hlen (by omega)
    have hbyte : ∀ index (hindex : index < 64) (expected : UInt8),
        ((· == expected) <$> byte image index : CheckedLoader Bool) =
          Pure.pure (image[index]? == some expected) := by
      intro index hindex expected
      rw [byte_eq (by omega), map_pure, List.getElem?_eq_getElem (by omega)]
      rfl
    obtain ⟨type, htype, htype'⟩ := hfield 2 16 (by decide)
    obtain ⟨machine, hmachine, hmachine'⟩ := hfield 2 18 (by decide)
    obtain ⟨version, hversion, hversion'⟩ := hfield 4 20 (by decide)
    obtain ⟨size, hsize, hsize'⟩ := hfield 2 52 (by decide)
    obtain ⟨entry, hentry, hentry'⟩ := hfield 2 54 (by decide)
    rw [slice_eq hlen (by omega), hbyte 4 (by decide), hbyte 5 (by decide),
      hbyte 6 (by decide), htype', hmachine', hversion', hsize', hentry']
    unfold readU16 readU32
    rw [htype, hmachine, hversion, hsize, hentry]
    simp only [map_pure]
    refine (allHold_pure [_, _, _, _, _, _, _, _, _, _]).trans ?_
    congr 1
    simp [Bool.and_assoc]
  · rw [allHold, decide_eq_false hheader]
    rfl

theorem ofPaging_bind {α β : Type} (x : Paging α) (f : α → Paging β) :
    Loader.ofPaging (x >>= f) = Loader.ofPaging x >>= fun a => Loader.ofPaging (f a) := by
  funext m
  show Loader.ofPaging (EStateM.bind x f) m =
    EStateM.bind (Loader.ofPaging x) (fun a => Loader.ofPaging (f a)) m
  unfold Loader.ofPaging EStateM.bind
  dsimp only
  cases x m <;> rfl

theorem ofPaging_forM {body : Nat → Paging Unit} (pages : List Nat) :
    Loader.ofPaging (pages.forM body) =
      pages.forM fun page => Loader.ofPaging (body page) := by
  induction pages with
  | nil => rfl
  | cons page pages ih =>
    show Loader.ofPaging (body page >>= fun _ => pages.forM body) = _
    rw [ofPaging_bind, forM_cons]
    exact bind_congr fun _ => ih

theorem Agrees.forM {pages : List Nat} {body : Nat → CheckedLoader Unit}
    {body' : Nat → Loader Unit}
    (h : ∀ page ∈ pages, Agrees (fun _ => True) (body page) (body' page)) :
    Agrees (fun _ => True) (pages.forM body) (pages.forM body') := by
  induction pages with
  | nil => exact Agrees.pure trivial
  | cons page pages ih =>
    show Agrees _ (body page >>= fun _ => pages.forM body) _
    rw [forM_cons]
    refine Agrees.bind (h page (List.mem_cons_self ..)) fun _ _ => ?_
    exact ih fun other hother => h other (List.mem_cons_of_mem _ hother)

/-- `allocate_user_stack_in`, for the slot of a process. -/
theorem Agrees.allocateUserStackIn {slot : Nat} (hslot : slot ≤ 8) :
    Agrees (fun stackTop => 8 ≤ stackTop)
      (CheckedLoader.allocateUserStackIn addressSpace slot)
      (.ofPaging (OpenKernel.allocateUserStackIn addressSpace slot)) := by
  have hpages : userStackPages = 4 := rfl
  have hsize : pageSize = 4096 := rfl
  have hend : userSpaceEnd = 2 ^ 47 := by decide
  have hslots : slot * (userStackPages + 1) ≤ 40 := by
    rw [hpages]
    omega
  have hbytes : slot * (userStackPages + 1) * pageSize ≤ 40 * pageSize :=
    Nat.mul_le_mul_right pageSize hslots
  have htop : userStackTop slot = userSpaceEnd - pageSize -
      slot * (userStackPages + 1) * pageSize := rfl
  unfold CheckedLoader.allocateUserStackIn OpenKernel.allocateUserStackIn
  rw [ofPaging_bind, ofPaging_forM]
  refine Agrees.sub (by omega) (Agrees.add (by omega) (Agrees.mul (by omega)
    (Agrees.mul (by omega) (Agrees.sub (by omega) ?_))))
  rw [← htop]
  refine Agrees.bind (Agrees.forM fun page hpage => ?_) fun _ _ => Agrees.pure (by omega)
  have hle := (List.mem_range'_1.mp hpage).2
  have hoffset : page * pageSize ≤ 4 * pageSize := Nat.mul_le_mul_right pageSize (by omega)
  refine Agrees.mul (by omega) (Agrees.sub (by omega) ?_)
  rw [ofPaging_bind]
  refine Agrees.bind Agrees.allocatePhysicalFrame fun frame _ => ?_
  rw [ofPaging_bind]
  refine Agrees.bind (Agrees.zeroPhysicalFrame frame) fun _ _ => ?_
  exact Agrees.mono (Agrees.mapUserPageIn _ _ _ _) fun _ _ => trivial

theorem Agrees.loadUserElfInto {slot : Nat} (hfuel : 2 ^ 52 ≤ fuel)
    (hlen : image.length < 2 ^ 63) (hslot : slot ≤ 8) :
    Agrees (fun _ => True)
      (CheckedLoader.loadUserElfInto fuel image addressSpace slot)
      (OpenKernel.loadUserElfInto image addressSpace slot) := by
  have hsize : programHeaderSize = 56 := rfl
  unfold CheckedLoader.loadUserElfInto OpenKernel.loadUserElfInto readU64 readU16
  rw [validHeader_eq hlen, pure_bind]
  refine Agrees.guard fun _ => ?_
  refine Agrees.bind (Agrees.readNumber (by decide)) fun entry _ => ?_
  refine Agrees.bind (Agrees.readNumber (by decide)) fun programHeaderOffset _ => ?_
  refine Agrees.bind (Agrees.readNumber (by decide)) fun programHeaderCount _ => ?_
  refine Agrees.bind (Agrees.orElse _ fun _ => id) fun tableSize htable => ?_
  refine Agrees.bind (Agrees.orElse _ fun _ => checkedAdd_eq_some) fun tableEnd hend => ?_
  refine Agrees.guard fun hfits => ?_
  have hheaders : programHeaderOffset + programHeaderCount * programHeaderSize ≤
      image.length := by
    obtain rfl := (checkedMul_eq_some htable)
    omega
  refine Agrees.bind (Agrees.foldlM (P := HeadersRead image) ?_ ?_) fun state hstate => ?_
  · intro index hindex state hstate
    refine Agrees.loadProgramHeader hfuel hlen ?_ hstate
    have hle := Nat.mul_le_mul_right programHeaderSize (List.mem_range.mp hindex)
    exact le_trans (Nat.add_le_add_left hle _) hheaders
  · intro tls htls
    cases htls
  refine Agrees.guard fun _ => ?_
  refine Agrees.bind (Agrees.allocateUserStackIn hslot) fun stackTop htop => ?_
  cases htls : state.tls with
  | none => exact Agrees.sub htop (Agrees.pure trivial)
  | some tls =>
    refine Agrees.bind
      (Agrees.loadInitialTls hfuel hlen hslot (hstate tls htls)) fun fsBase _ => ?_
    exact Agrees.sub htop (Agrees.pure trivial)

end Headers

/-! ## Totality -/

/-- The run ends, without a fault, and maps pages of user space only. -/
def Total {α : Type} (x : CheckedLoader α) : Prop :=
  ∀ s, match x s with
    | .ok _ s' => InRange s s'.mapped
    | .error (.error _) s' => InRange s s'.mapped
    | .error (.fault _) _ => False

theorem Agrees.total {α : Type} {P : α → Prop} {x : CheckedLoader α} {y : Loader α}
    (h : Agrees P x y) : Total x := by
  intro s
  have hs := h s
  cases hy : y s.memory with
  | ok a memory =>
    rw [hy] at hs
    obtain ⟨-, mapped, hx, hin⟩ := hs
    rw [hx]
    exact hin
  | error e memory =>
    rw [hy] at hs
    obtain ⟨mapped, hx, hin⟩ := hs
    rw [hx]
    exact hin

/-- On every image, for every memory, the loader and its TLS part end with a
result or an error of theirs; `2 ^ 52` turns suffice for every page loop. -/
theorem elf_loader_total {fuel slot : Nat} (hslot : slot ≤ 8) (hfuel : 2 ^ 52 ≤ fuel)
    (image : ByteSlice) (addressSpace : Nat) :
    Total (loadUserElfInto fuel image.val addressSpace slot) ∧
      ∀ tls, TlsInFile image.val tls →
        Total (loadInitialTls fuel image.val addressSpace slot tls) :=
  ⟨(Agrees.loadUserElfInto hfuel image.property hslot).total,
    fun _ htls => (Agrees.loadInitialTls hfuel image.property hslot htls).total⟩

set_option maxRecDepth 100000 in
/-- An image with a code segment and a TLS segment of eight bytes, loaded as the
process of slot 8. -/
theorem elf_loader_total_tls :
    Total (loadUserElfInto (2 ^ 52) (tlsExecutable 16 16) 0x1000 8) ∧
      Total (loadInitialTls (2 ^ 52) (tlsExecutable 16 16) 0x1000 8 (tlsOf 16 16)) := by
  have hlength : (tlsExecutable 16 16).length < 2 ^ 63 := by decide +kernel
  have hfile : TlsInFile (tlsExecutable 16 16) (tlsOf 16 16) := by
    unfold TlsInFile
    decide +kernel
  obtain ⟨hload, htls⟩ := @elf_loader_total (2 ^ 52) 8 (by decide) le_rfl
    ⟨tlsExecutable 16 16, hlength⟩ 0x1000
  exact ⟨hload, htls _ hfile⟩

end CheckedLoader

end OpenKernel
