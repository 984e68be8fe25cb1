import OpenKernel.Lib.LittleEndian
import OpenKernel.Memory.AddressSpace

/-!
# The memory management unit

What the processor does with a page table: the walk that turns a virtual
address into a physical one.  `paging.rs` never computes it, but the kernel
relies on it each time it dereferences a virtual address.  The walk knows
the large pages of levels 3 and 2, which boot loaders use.
-/

namespace OpenKernel

open Lib

/-- The base of the page that a large-page entry maps, when a page of that
level spans `2 ^ shift` bytes. -/
def largePageBase (entry shift : Nat) : Nat :=
  target entry / 2 ^ shift * 2 ^ shift

/-- The walk below the root: the remaining levels are given by the lowest
address bit of their index.  A set size bit in a root entry is reserved and
faults. -/
def Memory.translateFrom (m : Memory) (virtualAddress : Nat) :
    List Nat → Nat → Option Nat
  | [], _ => none
  | [shift], table =>
    let entry := m.words table ((virtualAddress >>> shift) &&& 0x1FF)
    if Present entry then some (target entry + virtualAddress % 2 ^ shift)
    else none
  | shift :: rest, table =>
    let entry := m.words table ((virtualAddress >>> shift) &&& 0x1FF)
    if ¬ Present entry then none
    else if ¬ Huge entry then
      m.translateFrom virtualAddress rest (target entry)
    else if shift = 39 then none
    else some (largePageBase entry shift + virtualAddress % 2 ^ shift)

/-- The physical address that `virtualAddress` has in an address space. -/
def Memory.translateIn (m : Memory) (addressSpace virtualAddress : Nat) :
    Option Nat :=
  m.translateFrom virtualAddress [39, 30, 21, 12] (target addressSpace)

/-- The translation in the active address space. -/
def Memory.translate (m : Memory) (virtualAddress : Nat) : Option Nat :=
  m.translateIn m.cr3 virtualAddress

/-- Store bytes at a virtual address; `none` is a page fault. -/
def Memory.storeBytes (m : Memory) (virtualAddress : Nat) :
    List UInt8 → Option Memory
  | [] => some m
  | byte :: bytes =>
    match m.translate virtualAddress with
    | none => none
    | some address =>
      (m.storeByte address byte).storeBytes (virtualAddress + 1) bytes

/-- `u64::to_le_bytes`. -/
def littleEndianBytes (value : Nat) : List UInt8 :=
  bytesOf 8 value

/-- `write_volatile` of a `u64`, whose address is a multiple of eight. -/
def Memory.storeWord (m : Memory) (virtualAddress value : Nat) :
    Option Memory :=
  (m.translate virtualAddress).map fun address =>
    m.writeWord (address / pageSize * pageSize) (address % pageSize / 8) value

end OpenKernel
