import OpenKernel.Memory.PageTable

/-!
# Address spaces

The rest of `paging.rs`: creating, switching and destroying address spaces,
and the stacks that live at fixed addresses in them.
-/

namespace OpenKernel

open Lib

def deviceWindowBase : Nat := 0xFFFF_FF00_0000_0000
def kernelStackGuardPage : Nat := 0xFFFF_FF10_0000_0000
def kernelStackPages : Nat := 4
def userStackPages : Nat := 4

structure PagingConfig where
  physicalMemoryOffset : Nat
  kernelVirtualBase : Nat
  kernelPhysicalBase : Nat
  kernelSize : Nat

/-! ## Mapping -/

/-- `initialize_virtual_memory`: the boot loader's mappings stay, and the
device window gets its first page. -/
def initializeVirtualMemory (config : PagingConfig) : Paging Unit := do
  modify fun m => { m with physicalMemoryOffset := config.physicalMemoryOffset }
  mapPage deviceWindowBase 0xB8000 .device

/-- The range check of the user mapping functions. -/
def InUserSpace (virtualAddress : Nat) : Prop :=
  futureUserSpaceBase ≤ virtualAddress ∧ virtualAddress < userSpaceEnd

instance (virtualAddress : Nat) : Decidable (InUserSpace virtualAddress) :=
  inferInstanceAs (Decidable (_ ∧ _))

/-- `map_user_page_with_flags`: map a user page in the active space. -/
def mapUserPageWithFlags (virtualAddress physicalAddress : Nat)
    (flags : PageFlags) : Paging Unit :=
  if InUserSpace virtualAddress then
    mapPage virtualAddress physicalAddress flags
  else throw .invalidUserAddress

/-- `map_user_page_in`. -/
def mapUserPageIn (addressSpace virtualAddress physicalAddress : Nat)
    (flags : PageFlags) : Paging Unit :=
  if InUserSpace virtualAddress then
    mapPageIn addressSpace virtualAddress physicalAddress flags
  else throw .invalidUserAddress

/-- `map_device_page`. -/
def mapDevicePage (virtualAddress physicalAddress : Nat) : Paging Unit :=
  if virtualAddress % pageSize ≠ 0 ∨ physicalAddress % pageSize ≠ 0 then
    throw .invalidUserAddress
  else mapPage virtualAddress physicalAddress .device

/-! ## Address spaces -/

/-- The copy loop of `create_user_address_space`: the upper half of the
root table. -/
def Memory.copyKernelHalf (m : Memory) (source destination : Nat) : Memory :=
  { m with
    words := put m.words destination fun index =>
      if 256 ≤ index ∧ index < 512 then m.words source index
      else m.words destination index }

/-- `create_user_address_space`. -/
def createUserAddressSpace : Paging Nat := do
  let frame ← allocatePhysicalFrame
  modify (·.zeroPhysicalFrame frame)
  modify fun m => m.copyKernelHalf (target m.cr3) frame
  return frame

/-- `active_address_space`. -/
def Memory.activeAddressSpace (m : Memory) : Nat := target m.cr3

/-- `switch_address_space`. -/
def Memory.switchAddressSpace (m : Memory) (addressSpace : Nat) : Memory :=
  { m with cr3 := addressSpace }

/-- `release_user_table`: free everything below a table, then the table.
The first argument is the level of the table; no call reaches level 0. -/
def releaseUserTable : Nat → Nat → Memory → Memory
  | 0, _, m => m
  | level + 1, frame, m =>
    ((List.range 512).foldl
      (fun m index =>
        let entry := m.words frame index
        if ¬ Present entry then m
        else
          let child := target entry
          let m :=
            if level = 0 ∨ Huge entry then m.freePhysicalFrame child
            else releaseUserTable level child m
          m.writeWord frame index 0)
      m).freePhysicalFrame frame

/-- `destroy_user_address_space`. -/
def destroyUserAddressSpace (addressSpace : Nat) (m : Memory) : Memory :=
  let root := target addressSpace
  ((List.range 256).foldl
    (fun m index =>
      let entry := m.words root index
      if ¬ Present entry then m
      else (releaseUserTable 3 (target entry) m).writeWord root index 0)
    m).freePhysicalFrame root

/-! ## Stacks -/

/-- The lowest mapped address of a kernel stack; the page below is its
guard page. -/
def kernelStackBase (slot : Nat) : Nat :=
  kernelStackGuardPage + slot * (kernelStackPages + 1) * pageSize + pageSize

/-- `allocate_kernel_stack`: the top of the new stack. -/
def allocateKernelStack (slot : Nat) : Paging Nat := do
  (List.range kernelStackPages).forM fun page => do
    let frame ← allocatePhysicalFrame
    mapPage (kernelStackBase slot + page * pageSize) frame .kernelReadWrite
  return kernelStackBase slot + kernelStackPages * pageSize

/-- The loop that the two release functions share: unmap each page in the
active space and free the frame that was there. -/
def Memory.releasePages (m : Memory) (pages : List Nat) : Memory :=
  pages.foldl
    (fun m page =>
      match m.unmapPage page with
      | (some frame, m) => m.freePhysicalFrame frame
      | (none, m) => m)
    m

/-- The pages of a kernel stack. -/
def kernelStack (slot : Nat) : List Nat :=
  (List.range kernelStackPages).map fun page =>
    kernelStackBase slot + page * pageSize

/-- `release_kernel_stack`. -/
def Memory.releaseKernelStack (m : Memory) (slot : Nat) : Memory :=
  m.releasePages (kernelStack slot)

/-- The top of a user stack.  One page below each stack stays unmapped. -/
def userStackTop (slot : Nat) : Nat :=
  userSpaceEnd - pageSize - slot * (userStackPages + 1) * pageSize

/-- The pages of a user stack, from the top down. -/
def userStack (slot : Nat) : List Nat :=
  (List.range' 1 userStackPages).map fun page =>
    userStackTop slot - page * pageSize

/-- `allocate_user_stack_in`: the top of the new stack. -/
def allocateUserStackIn (addressSpace slot : Nat) : Paging Nat := do
  (List.range' 1 userStackPages).forM fun page => do
    let frame ← allocatePhysicalFrame
    modify (·.zeroPhysicalFrame frame)
    mapUserPageIn addressSpace (userStackTop slot - page * pageSize) frame
      .userReadWrite
  return userStackTop slot

/-- `allocate_user_stack`. -/
def allocateUserStack (slot : Nat) : Paging Nat := do
  allocateUserStackIn (← get).activeAddressSpace slot

/-- `release_user_stack`: in whatever space is active. -/
def Memory.releaseUserStack (m : Memory) (slot : Nat) : Memory :=
  m.releasePages (userStack slot)

/-! ## A bare machine -/

/-- A boot loader's memory: all memory above the first mebibyte is usable, and
the boot page table has its root at `0x1000` and maps the kernel with entry
511. -/
def bareMemory : Memory :=
  { frames :=
      { frameBitmap := { bytes := 2 ^ 256 - 1 }
        allocatedBitmap := { bytes := 0 }
        freeFrames := maxPhysicalFrames - 256 }
    words := fun table index => if table = 0x1000 ∧ index = 511 then 0x2003 else 0
    cr3 := 0x1000
    physicalMemoryOffset := 0 }

/-- A kernel in the upper half. -/
def upperHalfConfig : PagingConfig :=
  { physicalMemoryOffset := 0xFFFF_8000_0000_0000
    kernelVirtualBase := 0xFFFF_FFFF_8000_0000
    kernelPhysicalBase := 0x10_0000
    kernelSize := 0x1000 }

end OpenKernel
