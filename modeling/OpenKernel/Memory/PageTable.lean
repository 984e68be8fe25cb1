import OpenKernel.Lib.Put
import OpenKernel.Memory.Frames

/-!
# Page tables

The model of the page-table walks of `paging.rs`.  Physical memory is a
function from the base address of a frame and the index of an eight-byte
word in it to the word: `table_mut` reads a frame as the 512 entries of a
page table, and the direct map makes every frame reachable.

Code that changes memory and can fail is a `Paging` value.  What it changed
before it failed stays changed, as in the source, where each `?` returns in
the middle of a walk.  The translation caches are not modelled.
-/

namespace OpenKernel

open Lib

/-! ## Entries -/

def entryAddressMask : Nat := 0x000F_FFFF_FFFF_F000
def presentBit : Nat := 1 <<< 0
def writableBit : Nat := 1 <<< 1
def userBit : Nat := 1 <<< 2
def hugePageBit : Nat := 1 <<< 7
def noExecuteBit : Nat := 1 <<< 63

/-- `entry & PRESENT != 0`. -/
def Present (entry : Nat) : Prop := entry &&& presentBit ≠ 0

/-- `entry & HUGE_PAGE != 0`. -/
def Huge (entry : Nat) : Prop := entry &&& hugePageBit ≠ 0

/-- `entry & ENTRY_ADDRESS_MASK`. -/
def target (entry : Nat) : Nat := entry &&& entryAddressMask

instance (entry : Nat) : Decidable (Present entry) :=
  inferInstanceAs (Decidable (_ ≠ _))

instance (entry : Nat) : Decidable (Huge entry) :=
  inferInstanceAs (Decidable (_ ≠ _))

inductive PageFlags
  | kernelReadWrite
  | device
  | userReadOnly
  | userReadWrite
  | userReadExecute
  | userReadWriteExecute
  deriving DecidableEq, Repr

/-- `PageFlags::bits`. -/
def PageFlags.bits : PageFlags → Nat
  | kernelReadWrite => presentBit ||| writableBit ||| noExecuteBit
  | device => presentBit ||| writableBit ||| noExecuteBit
  | userReadOnly => presentBit ||| userBit ||| noExecuteBit
  | userReadWrite => presentBit ||| writableBit ||| userBit ||| noExecuteBit
  | userReadExecute => presentBit ||| userBit
  | userReadWriteExecute => presentBit ||| writableBit ||| userBit

inductive PagingError
  | frameAllocationFailed
  | hugePageConflict
  | alreadyMapped
  | invalidUserAddress
  deriving DecidableEq, Repr

/-! ## Memory -/

/-- The machine's memory: the frame allocator, the words of physical memory,
the active address space and the offset of the direct map. -/
structure Memory where
  frames : FrameAllocator
  words : Nat → Nat → Nat
  cr3 : Nat
  physicalMemoryOffset : Nat

abbrev Paging := EStateM PagingError Memory

namespace Memory

/-- Write one word of the frame at `frame`. -/
def writeWord (m : Memory) (frame index value : Nat) : Memory :=
  { m with
    words := put m.words frame
      (put (m.words frame) index value) }

/-- `zero_table` and `zero_physical_frame`: zero all words of a frame. -/
def zeroPhysicalFrame (m : Memory) (frame : Nat) : Memory :=
  { m with words := put m.words frame fun _ => 0 }

/-- `free_physical_frame`. -/
def freePhysicalFrame (m : Memory) (frame : Nat) : Memory :=
  { m with frames := m.frames.free frame }

/-- Store one byte at a physical address. -/
def storeByte (m : Memory) (address : Nat) (byte : UInt8) : Memory :=
  let frame := address / pageSize * pageSize
  let index := address % pageSize / 8
  let shift := 8 * (address % 8)
  let word := m.words frame index
  let cleared := word - (word >>> shift) % 256 * 2 ^ shift
  m.writeWord frame index (cleared + byte.toNat * 2 ^ shift)

/-- `write_physical_frame`. -/
def writePhysicalFrame (m : Memory) (address : Nat) (source : List UInt8) :
    Memory :=
  source.zipIdx.foldl (fun m entry => m.storeByte (address + entry.2) entry.1) m

end Memory

/-- `allocate_physical_frame`, with its failure as an error. -/
def allocatePhysicalFrame : Paging Nat := fun m =>
  match m.frames.allocate with
  | (some frame, frames) => .ok frame { m with frames }
  | (none, frames) => .error .frameAllocationFailed { m with frames }

/-! ## Walks -/

/-- The indices into the tables of levels 4, 3 and 2. -/
def upperIndices (virtualAddress : Nat) : List Nat :=
  [(virtualAddress >>> 39) &&& 0x1FF, (virtualAddress >>> 30) &&& 0x1FF,
    (virtualAddress >>> 21) &&& 0x1FF]

/-- The index into the level 1 table. -/
def leafIndex (virtualAddress : Nat) : Nat :=
  (virtualAddress >>> 12) &&& 0x1FF

/-- One turn of the loop of `map_page_in`: the next table, which is
allocated when the entry is absent. -/
def descend (flags : PageFlags) (table index : Nat) : Paging Nat := do
  let entry := (← get).words table index
  if ¬ Present entry then
    let frame ← allocatePhysicalFrame
    modify (·.writeWord table index
      (frame ||| presentBit ||| writableBit |||
        if flags.bits &&& userBit ≠ 0 then userBit else 0))
    modify (·.zeroPhysicalFrame frame)
    return target ((← get).words table index)
  else if Huge entry then
    throw .hugePageConflict
  else
    return target entry

/-- `map_page_in`. -/
def mapPageIn (addressSpace virtualAddress physicalAddress : Nat)
    (flags : PageFlags) : Paging Unit := do
  let table ← (upperIndices virtualAddress).foldlM (descend flags)
    (target addressSpace)
  if Present ((← get).words table (leafIndex virtualAddress)) then
    throw .alreadyMapped
  else
    modify (·.writeWord table (leafIndex virtualAddress)
      (target physicalAddress ||| flags.bits))

/-- `map_page`: the same walk from the active table. -/
def mapPage (virtualAddress physicalAddress : Nat) (flags : PageFlags) :
    Paging Unit := do
  mapPageIn (← get).cr3 virtualAddress physicalAddress flags

/-- The walk of `unmap_page`: the level 1 table, if every entry on the way
is present and not a huge page. -/
def Memory.walk (m : Memory) : List Nat → Nat → Option Nat
  | [], table => some table
  | index :: rest, table =>
    let entry := m.words table index
    if ¬ Present entry ∨ Huge entry then none else m.walk rest (target entry)

/-- `unmap_page`: the frame that was mapped, if any. -/
def Memory.unmapPage (m : Memory) (virtualAddress : Nat) :
    Option Nat × Memory :=
  match m.walk (upperIndices virtualAddress) (target m.cr3) with
  | none => (none, m)
  | some table =>
    let leaf := m.words table (leafIndex virtualAddress)
    if ¬ Present leaf then (none, m)
    else (some (target leaf), m.writeWord table (leafIndex virtualAddress) 0)

/-- The walk of `is_user_executable` and `is_user_mapped`, which asks for
the user bit at each level. -/
def Memory.userWalk (m : Memory) : List Nat → Nat → Option Nat
  | [], table => some table
  | index :: rest, table =>
    let entry := m.words table index
    if entry &&& (presentBit ||| userBit ||| hugePageBit)
        ≠ presentBit ||| userBit then none
    else m.userWalk rest (target entry)

def futureUserSpaceBase : Nat := 0x0000_0000_4000_0000
def userSpaceEnd : Nat := 0x0000_8000_0000_0000

/-- The leaf entry that the two queries inspect. -/
def Memory.userLeaf (m : Memory) (virtualAddress : Nat) : Option Nat :=
  if virtualAddress < futureUserSpaceBase ∨ userSpaceEnd ≤ virtualAddress then
    none
  else
    (m.userWalk (upperIndices virtualAddress) (target m.cr3)).map fun table =>
      m.words table (leafIndex virtualAddress)

/-- `is_user_executable`. -/
def Memory.isUserExecutable (m : Memory) (virtualAddress : Nat) : Bool :=
  match m.userLeaf virtualAddress with
  | none => false
  | some leaf =>
    leaf &&& (presentBit ||| userBit) == presentBit ||| userBit &&
      leaf &&& noExecuteBit == 0

/-- `is_user_mapped`. -/
def Memory.isUserMapped (m : Memory) (virtualAddress : Nat) : Bool :=
  match m.userLeaf virtualAddress with
  | none => false
  | some leaf =>
    leaf &&& (presentBit ||| userBit) == presentBit ||| userBit

end OpenKernel
