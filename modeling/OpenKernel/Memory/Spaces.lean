import OpenKernel.Lib.Runs
import OpenKernel.Memory.Mapping

/-!
# Address spaces in use

The kernel's use of `paging.rs` as a state machine: address spaces are
created, switched to and destroyed, frames are handed out, mapped, unmapped
and given back, and kernel stacks and device pages come and go, in any order
and with calls that fail midway.

`maps` and `kernelStacks` record what the calls have returned: the pages that are
mapped in each space and the kernel stacks that are allocated.  No step
reads the words of a page table to update them.
-/

namespace OpenKernel

open Lib

structure SpaceState where
  memory : Memory
  /-- the spaces that were created and not destroyed since -/
  live : List Nat
  /-- the frames that were handed out, and neither mapped nor freed since -/
  inHand : List Nat
  /-- the frame and the flags of a page, given its space and its number -/
  maps : Nat → Nat → Option (Nat × PageFlags)
  /-- the slots with an allocated kernel stack -/
  kernelStacks : List Nat

inductive SpaceAction
  /-- `create_user_address_space` -/
  | create
  /-- `switch_address_space` -/
  | switch (space : Nat)
  /-- `allocate_physical_frame` -/
  | allocate
  /-- `free_physical_frame` -/
  | free (frame : Nat)
  /-- `write_physical_frame` and `zero_physical_frame`, one word at a time -/
  | fill (frame index value : Nat)
  /-- `map_user_page_in` -/
  | mapIn (space virtualAddress frame : Nat) (flags : PageFlags)
  /-- `map_page` below the end of user space -/
  | map (virtualAddress frame : Nat) (flags : PageFlags)
  /-- `unmap_page` below the end of user space -/
  | unmap (virtualAddress : Nat)
  /-- `release_user_stack` -/
  | releaseUserStack (slot : Nat)
  /-- a program writes to one of its pages -/
  | store (space virtualAddress index value : Nat)
  /-- `allocate_kernel_stack` -/
  | allocateKernelStack (slot : Nat)
  /-- `release_kernel_stack` -/
  | releaseKernelStack (slot : Nat)
  /-- `map_device_page` -/
  | mapDevice (virtualAddress physicalAddress : Nat)
  /-- `destroy_user_address_space` -/
  | destroy (space : Nat)

/-- The stack of the slot lies behind the window's root entry. -/
def StackInWindow (slot : Nat) : Prop :=
  kernelStackBase slot + kernelStackPages * pageSize ≤ windowEnd

instance (slot : Nat) : Decidable (StackInWindow slot) :=
  inferInstanceAs (Decidable (_ ≤ _))

/-- A device page of the window. -/
def InDeviceWindow (virtualAddress : Nat) : Prop :=
  deviceWindowBase ≤ virtualAddress ∧ virtualAddress < kernelStackGuardPage

instance (virtualAddress : Nat) : Decidable (InDeviceWindow virtualAddress) :=
  inferInstanceAs (Decidable (_ ∧ _))

namespace SpaceState

/-- The record of a mapped page. -/
def record (maps : Nat → Nat → Option (Nat × PageFlags)) (space virtualAddress : Nat)
    (page : Option (Nat × PageFlags)) : Nat → Nat → Option (Nat × PageFlags) :=
  put maps space (put (maps space) (virtualAddress / pageSize) page)

/-- One call or program step.  The root table that the kernel was booted with
is `boot`; it has no user pages.  A space that is active is not destroyed. -/
def step (boot : Nat) (s : SpaceState) : SpaceAction → Option SpaceState
  | .create =>
    match createUserAddressSpace s.memory with
    | .ok space memory =>
      some { s with memory, live := space :: s.live, maps := put s.maps space fun _ => none }
    | .error _ memory => some { s with memory }
  | .switch space =>
    if space = boot ∨ space ∈ s.live then
      some { s with memory := s.memory.switchAddressSpace space }
    else none
  | .allocate =>
    match allocatePhysicalFrame s.memory with
    | .ok frame memory => some { s with memory, inHand := frame :: s.inHand }
    | .error _ memory => some { s with memory }
  | .free frame =>
    if frame ∈ s.inHand then
      some { s with
        memory := s.memory.freePhysicalFrame frame
        inHand := s.inHand.filter (· ≠ frame) }
    else none
  | .fill frame index value =>
    if frame ∈ s.inHand then
      some { s with memory := s.memory.writeWord frame index value }
    else none
  | .mapIn space virtualAddress frame flags =>
    if space ∈ s.live ∧ frame ∈ s.inHand then
      match mapUserPageIn space virtualAddress frame flags s.memory with
      | .ok _ memory =>
        some { s with
          memory
          inHand := s.inHand.filter (· ≠ frame)
          maps := record s.maps space virtualAddress (some (frame, flags)) }
      | .error _ memory => some { s with memory }
    else none
  | .map virtualAddress frame flags =>
    let space := s.memory.activeAddressSpace
    if space ∈ s.live ∧ frame ∈ s.inHand ∧ virtualAddress < userSpaceEnd then
      match mapPage virtualAddress frame flags s.memory with
      | .ok _ memory =>
        some { s with
          memory
          inHand := s.inHand.filter (· ≠ frame)
          maps := record s.maps space virtualAddress (some (frame, flags)) }
      | .error _ memory => some { s with memory }
    else none
  | .unmap virtualAddress =>
    let space := s.memory.activeAddressSpace
    if space ∈ s.live ∧ virtualAddress < userSpaceEnd then
      match s.memory.unmapPage virtualAddress with
      | (some frame, memory) =>
        some { s with
          memory
          inHand := frame :: s.inHand
          maps := record s.maps space virtualAddress none }
      | (none, memory) => some { s with memory }
    else none
  | .releaseUserStack slot =>
    let space := s.memory.activeAddressSpace
    if space ∈ s.live then
      some { s with
        memory := s.memory.releaseUserStack slot
        maps := (userStack slot).foldl (fun maps page => record maps space page none) s.maps }
    else none
  | .store space virtualAddress index value =>
    match s.maps space (virtualAddress / pageSize) with
    | some (frame, _) =>
      if space ∈ s.live then
        some { s with memory := s.memory.writeWord frame index value }
      else none
    | none => none
  | .allocateKernelStack slot =>
    if StackInWindow slot then
      match OpenKernel.allocateKernelStack slot s.memory with
      | .ok _ memory => some { s with memory, kernelStacks := slot :: s.kernelStacks }
      | .error _ memory => some { s with memory }
    else none
  | .releaseKernelStack slot =>
    if StackInWindow slot then
      some { s with
        memory := s.memory.releaseKernelStack slot
        kernelStacks := s.kernelStacks.filter (· ≠ slot) }
    else none
  | .mapDevice virtualAddress physicalAddress =>
    if InDeviceWindow virtualAddress then
      match mapDevicePage virtualAddress physicalAddress s.memory with
      | .ok _ memory => some { s with memory }
      | .error _ memory => some { s with memory }
    else none
  | .destroy space =>
    if space ∈ s.live ∧ space ≠ s.memory.activeAddressSpace then
      some { s with
        memory := destroyUserAddressSpace space s.memory
        live := s.live.filter (· ≠ space) }
    else none

end SpaceState

end OpenKernel
