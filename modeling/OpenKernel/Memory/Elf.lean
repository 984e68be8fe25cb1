import OpenKernel.Lib.LittleEndian
import OpenKernel.Memory.AddressSpace

/-!
# The ELF loader

The model of `elf.rs`.  The image is an arbitrary byte string.  A number
read from it is a natural number below the bound of its field, and the
checked operations of the source are checked here at 64 bits.

The page loops of the source stop at a last page that they know in advance,
so they run over the list of pages from the first one to it.
-/

namespace OpenKernel

open Lib

def elfHeaderSize : Nat := 64
def programHeaderSize : Nat := 56
def elfMachineX86_64 : Nat := 0x3E
def elfTypeExecutable : Nat := 2
def programHeaderLoad : Nat := 1
def programHeaderTls : Nat := 7
def programFlagExecute : Nat := 1
def programFlagWrite : Nat := 2
def userTlsBase : Nat := 0x0000_3000_0000_0000
def tlsTcbSize : Nat := 64

structure TlsImage where
  fileOffset : Nat
  fileSize : Nat
  memorySize : Nat
  align : Nat
  deriving DecidableEq, Repr

structure LoadedImage where
  entry : Nat
  stackPointer : Nat
  tls : Option TlsImage
  fsBase : Nat
  deriving DecidableEq, Repr

inductive ElfError
  | invalidHeader
  | unsupportedExecutable
  | invalidProgramHeader
  | invalidSegment
  | noExecutableSegment
  | paging (error : PagingError)
  deriving DecidableEq, Repr

abbrev Loader := EStateM ElfError Memory

/-- `From<PagingError>`, which `?` applies. -/
def Loader.ofPaging {α : Type} (x : Paging α) : Loader α := fun m =>
  match x m with
  | .ok a m => .ok a m
  | .error e m => .error (.paging e) m

/-- `ok_or` and the early returns: a value, or stop with an error. -/
def Loader.orElse {α : Type} (x : Option α) (error : ElfError) : Loader α :=
  match x with
  | some a => return a
  | none => throw error

/-! ## Reading the image -/

/-- `bytes.get(offset..offset + size)`, read as a little-endian number. -/
def readLittleEndian (size : Nat) (bytes : List UInt8) (offset : Nat) :
    Option Nat :=
  if offset + size ≤ bytes.length then
    some (((bytes.drop offset).take size).foldr
      (fun byte value => byte.toNat + 256 * value) 0)
  else none

def readU16 : List UInt8 → Nat → Option Nat := readLittleEndian 2
def readU32 : List UInt8 → Nat → Option Nat := readLittleEndian 4
def readU64 : List UInt8 → Nat → Option Nat := readLittleEndian 8

def checkedAdd (a b : Nat) : Option Nat :=
  if a + b < 2 ^ 64 then some (a + b) else none

def checkedMul (a b : Nat) : Option Nat :=
  if a * b < 2 ^ 64 then some (a * b) else none

def IsPowerOfTwo (x : Nat) : Prop := x ≠ 0 ∧ x &&& (x - 1) = 0

instance (x : Nat) : Decidable (IsPowerOfTwo x) :=
  inferInstanceAs (Decidable (_ ∧ _))

/-- `value & !(align - 1)`. -/
def alignDown (value align : Nat) : Nat :=
  value &&& ((2 ^ 64 - 1) ^^^ (align - 1))

/-- The pages that the loop `page = first; …; if page == last { break }`
visits. -/
def pagesBetween (first last : Nat) : List Nat :=
  (List.range ((last - first) / pageSize + 1)).map fun page =>
    first + page * pageSize

/-- The identification checks at the start of `load_user_elf_into`. -/
def validHeader (image : List UInt8) : Bool :=
  elfHeaderSize ≤ image.length && image.take 4 == [0x7F, 0x45, 0x4C, 0x46] &&
    image[4]? == some 2 && image[5]? == some 1 && image[6]? == some 1 &&
    readU16 image 16 == some elfTypeExecutable &&
    readU16 image 18 == some elfMachineX86_64 && readU32 image 20 == some 1 &&
    readU16 image 52 == some elfHeaderSize &&
    readU16 image 54 == some programHeaderSize

/-! ## Loading -/

/-- Fill one page of a segment or of the TLS block: a fresh zeroed frame,
mapped at `page`, with the part of the file that falls into the page.  The
file bytes start at the address `base` and at the offset `fileOffset`. -/
def loadPage (image : List UInt8) (addressSpace base fileOffset fileSize : Nat)
    (flags : PageFlags) (page : Nat) : Loader Unit := do
  let frame ← Loader.ofPaging allocatePhysicalFrame
  modify (·.zeroPhysicalFrame frame)
  Loader.ofPaging (mapUserPageIn addressSpace page frame flags)
  let copyStart := max page base
  let copyEnd := min (page + pageSize) (base + fileSize)
  if copyStart < copyEnd then
    modify (·.writePhysicalFrame (frame + copyStart - page)
      ((image.drop (fileOffset + copyStart - base)).take (copyEnd - copyStart)))

/-- The permissions of a segment from its W and X flags. -/
def segmentFlags (flags : Nat) : PageFlags :=
  match decide (flags &&& programFlagWrite ≠ 0),
    decide (flags &&& programFlagExecute ≠ 0) with
  | false, false => .userReadOnly
  | true, false => .userReadWrite
  | false, true => .userReadExecute
  | true, true => .userReadWriteExecute

/-- What the header loop carries: `entry_is_executable` and `tls`. -/
structure LoadState where
  entryIsExecutable : Bool
  tls : Option TlsImage

/-- The TLS branch of the header loop. -/
def readTlsHeader (image : List UInt8) (headerOffset : Nat)
    (state : LoadState) : Loader LoadState := do
  if state.tls.isSome then throw .invalidProgramHeader
  let fileOffset ← Loader.orElse (readU64 image (headerOffset + 8)) .invalidHeader
  let fileSize ← Loader.orElse (readU64 image (headerOffset + 32)) .invalidHeader
  let memorySize ← Loader.orElse (readU64 image (headerOffset + 40)) .invalidHeader
  let align ← Loader.orElse (readU64 image (headerOffset + 48)) .invalidHeader
  if memorySize < fileSize ∨
      (checkedAdd fileOffset fileSize).all (image.length < ·) ∨
      align ≠ 0 ∧ ¬ IsPowerOfTwo align then
    throw .invalidProgramHeader
  return { state with tls := some { fileOffset, fileSize, memorySize, align } }

/-- The LOAD branch of the header loop. -/
def loadSegment (image : List UInt8) (addressSpace entry headerOffset : Nat)
    (state : LoadState) : Loader LoadState := do
  let flags ← Loader.orElse (readU32 image (headerOffset + 4)) .invalidHeader
  let fileOffset ← Loader.orElse (readU64 image (headerOffset + 8)) .invalidHeader
  let virtualAddress ←
    Loader.orElse (readU64 image (headerOffset + 16)) .invalidHeader
  let fileSize ← Loader.orElse (readU64 image (headerOffset + 32)) .invalidHeader
  let memorySize ← Loader.orElse (readU64 image (headerOffset + 40)) .invalidHeader
  if memorySize < fileSize then throw .invalidSegment
  let fileEnd ← Loader.orElse (checkedAdd fileOffset fileSize) .invalidSegment
  let memoryEnd ←
    Loader.orElse (checkedAdd virtualAddress memorySize) .invalidSegment
  if memorySize = 0 ∨ image.length < fileEnd ∨
      virtualAddress < futureUserSpaceBase ∨ userSpaceEnd < memoryEnd then
    throw .invalidSegment
  let executable :=
    decide (flags &&& programFlagExecute ≠ 0 ∧ virtualAddress ≤ entry ∧
      entry < memoryEnd)
  let firstPage := alignDown virtualAddress pageSize
  let lastPage := alignDown (memoryEnd - 1) pageSize
  (pagesBetween firstPage lastPage).forM
    (loadPage image addressSpace virtualAddress fileOffset fileSize
      (segmentFlags flags))
  return { state with
    entryIsExecutable := state.entryIsExecutable || executable }

/-- One turn of the header loop. -/
def loadProgramHeader (image : List UInt8) (addressSpace entry : Nat)
    (programHeaderOffset : Nat) (state : LoadState) (index : Nat) :
    Loader LoadState := do
  let headerOffset := programHeaderOffset + index * programHeaderSize
  let headerType ← Loader.orElse (readU32 image headerOffset) .invalidHeader
  if headerType = programHeaderTls then
    readTlsHeader image headerOffset state
  else if headerType ≠ programHeaderLoad then
    return state
  else
    loadSegment image addressSpace entry headerOffset state

/-- `load_initial_tls`: the thread pointer of the new block. -/
def loadInitialTls (image : List UInt8) (addressSpace slot : Nat)
    (tls : TlsImage) : Loader Nat := do
  let align := max tls.align 16
  let tlsSize := max tls.memorySize 1
  let padded ← Loader.orElse (checkedAdd tlsSize (align - 1)) .invalidProgramHeader
  let base := userTlsBase + slot * 0x1_0000
  let fsBase ←
    Loader.orElse (checkedAdd base (alignDown padded align)) .invalidProgramHeader
  let stop ← Loader.orElse (checkedAdd fsBase tlsTcbSize) .invalidProgramHeader
  (pagesBetween (alignDown base pageSize) (alignDown (stop - 1) pageSize)).forM
    (loadPage image addressSpace base tls.fileOffset tls.fileSize .userReadWrite)
  return fsBase

/-- `load_user_elf_into`. -/
def loadUserElfInto (image : List UInt8) (addressSpace stackSlot : Nat) :
    Loader LoadedImage := do
  if ¬ validHeader image then throw .invalidHeader
  let entry ← Loader.orElse (readU64 image 24) .invalidHeader
  let programHeaderOffset ← Loader.orElse (readU64 image 32) .invalidHeader
  let programHeaderCount ← Loader.orElse (readU16 image 56) .invalidHeader
  let tableSize ←
    Loader.orElse (checkedMul programHeaderCount programHeaderSize) .invalidHeader
  let tableEnd ←
    Loader.orElse (checkedAdd programHeaderOffset tableSize) .invalidHeader
  if image.length < tableEnd then throw .invalidHeader
  let state ← (List.range programHeaderCount).foldlM
    (loadProgramHeader image addressSpace entry programHeaderOffset)
    { entryIsExecutable := false, tls := none }
  if ¬ state.entryIsExecutable then throw .noExecutableSegment
  let stackTop ← Loader.ofPaging (allocateUserStackIn addressSpace stackSlot)
  let fsBase ←
    match state.tls with
    | some tls => loadInitialTls image addressSpace stackSlot tls
    | none => pure 0
  return { entry, stackPointer := stackTop - 8, tls := state.tls, fsBase }

/-! ## Executable files -/

/-- A program header. -/
def programHeader (type flags fileOffset virtualAddress fileSize memorySize align : Nat) :
    List UInt8 :=
  bytesOf 4 type ++ bytesOf 4 flags ++ bytesOf 8 fileOffset ++
    bytesOf 8 virtualAddress ++ bytesOf 8 0 ++ bytesOf 8 fileSize ++
    bytesOf 8 memorySize ++ bytesOf 8 align

/-- A file with these program headers, which starts at the lowest user
address. -/
def executable (headers : List (List UInt8)) (payload : List UInt8) : List UInt8 :=
  [0x7F, 0x45, 0x4C, 0x46, 2, 1, 1, 0] ++ bytesOf 8 0 ++
    bytesOf 2 elfTypeExecutable ++ bytesOf 2 elfMachineX86_64 ++ bytesOf 4 1 ++
    bytesOf 8 futureUserSpaceBase ++ bytesOf 8 elfHeaderSize ++ bytesOf 8 0 ++
    bytesOf 4 0 ++ bytesOf 2 elfHeaderSize ++ bytesOf 2 programHeaderSize ++
    bytesOf 2 headers.length ++ bytesOf 6 0 ++ headers.flatten ++ payload

/-- A code segment of one byte at this address. -/
def codeHeader (virtualAddress : Nat) : List UInt8 :=
  programHeader programHeaderLoad programFlagExecute elfHeaderSize virtualAddress 1 1 pageSize

/-- An executable with a byte of code and eight bytes of initialised
thread-locals, whose segment has this size and alignment. -/
def tlsExecutable (memorySize align : Nat) : List UInt8 :=
  executable [codeHeader futureUserSpaceBase, programHeader programHeaderTls 0
    (elfHeaderSize + 2 * programHeaderSize) 0 8 memorySize align] [1, 2, 3, 4, 5, 6, 7, 8]

def tlsOf (memorySize align : Nat) : TlsImage :=
  ⟨elfHeaderSize + 2 * programHeaderSize, 8, memorySize, align⟩

end OpenKernel
