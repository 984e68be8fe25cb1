import Mathlib.Algebra.Group.Nat.Defs
import OpenKernel.Lib.Copying

/-!
# The memory routines of the runtime

`memcpy` and `memmove` of `openkernel-rt`, which every program is linked
with.  `memmove` copies upwards when the destination is not above the source,
and downwards otherwise, so that neither loop loads a byte that it has stored
to (`memmove_moves`).
-/

namespace OpenKernel

open Lib

/-- `add` of a pointer to bytes. -/
def pointerAdd (pointer index : Nat) : Nat := (pointer + index) % 2 ^ 64

/-- The bytes that a program can address. -/
abbrev ProgramBytes := Accessed Nat UInt8

/-- The body of the loops, for these indices. -/
def copyBytes (dst src : Nat) (indices : List Nat) (m : ProgramBytes) : ProgramBytes :=
  m.copyAll (pointerAdd dst) (pointerAdd src) indices

def memcpy (dst src len : Nat) (m : ProgramBytes) : Nat × ProgramBytes :=
  (dst, copyBytes dst src (List.range len) m)

def memmove (dst src len : Nat) (m : ProgramBytes) : Nat × ProgramBytes :=
  if dst ≤ src then memcpy dst src len m
  else (dst, copyBytes dst src (List.range len).reverse m)

/-- The bytes have been moved, and the destination is returned. -/
structure Moved (dst src len : Nat) (bytes : Nat → UInt8) (result : Nat × ProgramBytes) : Prop where
  returned : result.1 = dst
  moved : ∀ i < len, result.2.contents (dst + i) = bytes (src + i)
  others : ∀ address, address < dst ∨ dst + len ≤ address →
    result.2.contents address = bytes address
  loadsFirst : LoadsFirst result.2.accesses

section Loops

variable {dst src len : Nat} {indices : List Nat}

theorem pointerAdd_eq {pointer index : Nat} (h : pointer + len ≤ 2 ^ 64) (hindex : index < len) :
    pointerAdd pointer index = pointer + index :=
  Nat.mod_eq_of_lt (by omega)

/-- A loop over all indices, in an order in which it stores to no byte that it
has yet to load, moves the bytes. -/
theorem copyBytes_moved (hdst : dst + len ≤ 2 ^ 64) (hsrc : src + len ≤ 2 ^ 64)
    (hindices : ∀ i, i ∈ indices ↔ i < len)
    (horder : indices.Pairwise fun j i => src + i ≠ dst + j) (bytes : Nat → UInt8) :
    Moved dst src len bytes (dst, copyBytes dst src indices (.fresh bytes)) := by
  have htarget : ∀ i ∈ indices, pointerAdd dst i = dst + i := by
    intro i hi
    exact pointerAdd_eq hdst ((hindices i).mp hi)
  have hsource : ∀ i ∈ indices, pointerAdd src i = src + i := by
    intro i hi
    exact pointerAdd_eq hsrc ((hindices i).mp hi)
  have horder' : indices.Pairwise fun j i => pointerAdd src i ≠ pointerAdd dst j := by
    refine horder.imp_of_mem fun {j i} hj hi hne => ?_
    rwa [htarget j hj, hsource i hi]
  constructor
  · rfl
  · intro i hi
    have hmem := (hindices i).mpr hi
    have hcopied := Accessed.contents_copyAll (m := .fresh bytes) horder'
      (fun i hi j hj heq => by
        rw [htarget i hi, htarget j hj] at heq
        omega) hmem
    rw [htarget i hmem, hsource i hmem] at hcopied
    exact hcopied
  · intro address haddress
    refine Accessed.contents_copyAll_other fun i hi => ?_
    have hlt := (hindices i).mp hi
    rw [htarget i hi]
    omega
  · exact Accessed.loadsFirst_copyAll horder'

theorem memcpy_moved (hdst : dst + len ≤ 2 ^ 64) (hsrc : src + len ≤ 2 ^ 64) (hle : dst ≤ src)
    (bytes : Nat → UInt8) : Moved dst src len bytes (memcpy dst src len (.fresh bytes)) := by
  refine copyBytes_moved hdst hsrc (fun i => List.mem_range) ?_ bytes
  exact List.pairwise_lt_range.imp fun {j i} hlt => by omega

end Loops

/-- `memmove` moves the bytes however the two ranges overlap, and so does the
`memcpy` that it calls. -/
theorem memmove_moves {dst src len : Nat} (hdst : dst + len ≤ 2 ^ 64) (hsrc : src + len ≤ 2 ^ 64)
    (bytes : Nat → UInt8) :
    Moved dst src len bytes (memmove dst src len (.fresh bytes)) ∧
      (dst ≤ src → LoadsFirst (memcpy dst src len (.fresh bytes)).2.accesses) := by
  refine ⟨?_, fun hle => (memcpy_moved hdst hsrc hle bytes).loadsFirst⟩
  unfold memmove
  by_cases hle : dst ≤ src
  · rw [if_pos hle]
    exact memcpy_moved hdst hsrc hle bytes
  · rw [if_neg hle]
    refine copyBytes_moved hdst hsrc (fun i => by simp) ?_ bytes
    exact List.pairwise_reverse.mpr (List.pairwise_lt_range.imp fun {i j} hlt => by omega)

/-- Four bytes one place up, at the end of the address space. -/
theorem memmove_moves_up :
    Moved (2 ^ 64 - 4) (2 ^ 64 - 5) 4 UInt8.ofNat
      (memmove (2 ^ 64 - 4) (2 ^ 64 - 5) 4 (.fresh UInt8.ofNat)) :=
  (memmove_moves (by decide) (by decide) UInt8.ofNat).1

end OpenKernel
