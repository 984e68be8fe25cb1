import Mathlib.Logic.Basic

/-!
# Writing one place of a table

A table is a function from the index.  `put` is the non-dependent case of
`Function.update`: no cast stands in the way when the kernel evaluates a
table that was written many times.
-/

namespace OpenKernel.Lib

variable {α : Type}

/-- `f` with the value `v` at `i`. -/
def put (f : Nat → α) (i : Nat) (v : α) : Nat → α :=
  fun j => if j = i then v else f j

theorem put_apply (f : Nat → α) (i : Nat) (v : α) (j : Nat) :
    put f i v j = if j = i then v else f j := rfl

@[simp] theorem put_same (f : Nat → α) (i : Nat) (v : α) :
    put f i v i = v := if_pos rfl

@[simp] theorem put_other {f : Nat → α} {i j : Nat} {v : α} (h : j ≠ i) :
    put f i v j = f j := if_neg h

@[simp] theorem put_put (f : Nat → α) (i : Nat) (v w : α) :
    put (put f i v) i w = put f i w := by
  funext j
  by_cases h : j = i <;> simp [h]

@[simp] theorem put_self (f : Nat → α) (i : Nat) : put f i (f i) = f := by
  funext j
  by_cases h : j = i
  · rw [h, put_same]
  · rw [put_other h]

end OpenKernel.Lib
