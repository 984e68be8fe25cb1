import Mathlib.Data.List.Range
import Mathlib.Data.Nat.ModEq
import OpenKernel.Lib.Put

/-!
# Bounded ring buffers

A ring of `capacity` slots with a head and a count, as C-like code writes a
bounded queue.  `Ring.contents` reads the ring as a list, oldest entry
first.  The two laws are the ones every user of a ring needs: a push into a
ring that is not full appends one entry (`contents_push`), and a pop removes
the first one (`contents_pop`).

The bounds of the head and of the count are fields of the structure, so no
client re-proves them.
-/

namespace OpenKernel.Lib

/-- A bounded queue in an array of `capacity` slots.  The live entries are
the `count` slots from `head` on, modulo the capacity. -/
structure Ring (α : Type) (capacity : Nat) where
  slots : Nat → α
  head : Nat
  count : Nat
  head_lt : head < capacity
  count_le : count ≤ capacity

namespace Ring

variable {α : Type} {capacity : Nat}

/-- The live entries, oldest first. -/
def contents (r : Ring α capacity) : List α :=
  (List.range r.count).map fun i => r.slots ((r.head + i) % capacity)

/-- Append an entry.  A full ring drops it. -/
def push (r : Ring α capacity) (x : α) : Ring α capacity :=
  if h : r.count = capacity then r
  else
    { slots := put r.slots ((r.head + r.count) % capacity) x
      head := r.head
      count := r.count + 1
      head_lt := r.head_lt
      count_le := by have := r.count_le; omega }

/-- Remove the oldest entry. -/
def pop (r : Ring α capacity) : Option α × Ring α capacity :=
  if r.count = 0 then (none, r)
  else
    (some (r.slots r.head),
      { slots := r.slots
        head := (r.head + 1) % capacity
        count := r.count - 1
        head_lt := Nat.mod_lt _ (by have := r.head_lt; omega)
        count_le := by have := r.count_le; omega })

@[simp] theorem length_contents (r : Ring α capacity) :
    r.contents.length = r.count := by
  simp [contents]

theorem contents_eq_nil_iff (r : Ring α capacity) :
    r.contents = [] ↔ r.count = 0 := by
  rw [← List.length_eq_zero_iff, length_contents]

/-- Two positions of one ring that are less than a capacity apart are
different slots. -/
theorem slot_ne {head i j : Nat} (hij : i < j) (hj : j < capacity) :
    (head + i) % capacity ≠ (head + j) % capacity := by
  intro h
  have hmod : Nat.ModEq capacity i j := Nat.ModEq.add_left_cancel' head h
  have := hmod.eq_of_lt_of_lt (by omega) hj
  omega

theorem push_of_full (r : Ring α capacity) (x : α) (h : r.count = capacity) :
    r.push x = r := by
  simp [push, h]

/-- A push into a ring with room appends the entry. -/
theorem contents_push (r : Ring α capacity) (x : α)
    (h : r.count ≠ capacity) :
    (r.push x).contents = r.contents ++ [x] := by
  have hle := r.count_le
  simp only [push, h, dite_false, contents, List.range_succ, List.map_append,
    List.map_cons, List.map_nil, put_same]
  congr 1
  refine List.map_congr_left fun i hi => ?_
  rw [List.mem_range] at hi
  exact put_other (slot_ne hi (by omega))

theorem pop_of_empty (r : Ring α capacity) (h : r.contents = []) :
    r.pop = (none, r) := by
  rw [contents_eq_nil_iff] at h
  simp [pop, h]

/-- A pop from a ring that holds something returns the oldest entry and
keeps the rest. -/
theorem contents_pop (r : Ring α capacity) {x : α} {rest : List α}
    (h : r.contents = x :: rest) :
    r.pop.1 = some x ∧ r.pop.2.contents = rest := by
  have hcount : r.count ≠ 0 := by
    intro h0
    rw [(contents_eq_nil_iff r).mpr h0] at h
    cases h
  have hsplit : r.contents =
      r.slots r.head :: (List.range (r.count - 1)).map fun i =>
        r.slots ((r.head + (i + 1)) % capacity) := by
    rw [contents, ← Nat.sub_one_add_one hcount, List.range_succ_eq_map,
      List.map_cons, List.map_map, Nat.add_zero, Nat.mod_eq_of_lt r.head_lt]
    rfl
  rw [hsplit] at h
  obtain ⟨rfl, rfl⟩ := List.cons.inj h
  rw [pop, if_neg hcount]
  refine ⟨rfl, ?_⟩
  rw [contents]
  refine List.map_congr_left fun i _ => ?_
  dsimp only
  rw [Nat.mod_add_mod, Nat.add_assoc, Nat.add_comm 1 i]

/-! ## Several entries at once -/

/-- Push entries until the ring is full.  The number counts the pushes that
found room. -/
def fill : List α → Ring α capacity → Nat × Ring α capacity
  | [], r => (0, r)
  | x :: xs, r =>
    if r.count = capacity then (0, r)
    else
      let (n, r) := fill xs (r.push x)
      (n + 1, r)

/-- Pop until `n` entries are out or the ring is empty. -/
def drain : Nat → Ring α capacity → List α × Ring α capacity
  | 0, r => ([], r)
  | n + 1, r =>
    match r.pop with
    | (none, r) => ([], r)
    | (some x, r) =>
      let (xs, r) := drain n r
      (x :: xs, r)

theorem count_push (r : Ring α capacity) (x : α) (h : r.count ≠ capacity) :
    (r.push x).count = r.count + 1 := by
  simp [push, h]

/-- As many entries go in as there is room for. -/
theorem fill_fst (xs : List α) (r : Ring α capacity) :
    (fill xs r).1 = min xs.length (capacity - r.count) := by
  induction xs generalizing r with
  | nil => simp [fill]
  | cons x xs ih =>
    have hle := r.count_le
    by_cases hfull : r.count = capacity
    · simp [fill, hfull]
    · simp only [fill, if_neg hfull, List.length_cons]
      rw [ih, count_push r x hfull]
      omega

/-- The entries that go in are the first ones, behind what was there. -/
theorem contents_fill (xs : List α) (r : Ring α capacity) :
    (fill xs r).2.contents = r.contents ++ xs.take (fill xs r).1 := by
  induction xs generalizing r with
  | nil => simp [fill]
  | cons x xs ih =>
    by_cases hfull : r.count = capacity
    · simp [fill, hfull]
    · simp only [fill, if_neg hfull, List.take_succ_cons]
      rw [ih, contents_push r x hfull, List.append_assoc, List.singleton_append]

/-- What comes out are the oldest entries. -/
theorem drain_fst (n : Nat) (r : Ring α capacity) :
    (drain n r).1 = r.contents.take n := by
  induction n generalizing r with
  | zero => simp [drain]
  | succ n ih =>
    cases hr : r.contents with
    | nil => simp [drain, pop_of_empty r hr]
    | cons x rest =>
      obtain ⟨hx, hrest⟩ := contents_pop r hr
      rw [drain, ← Prod.eta r.pop, hx]
      simp only [List.take_succ_cons]
      rw [ih, hrest]

theorem contents_drain (n : Nat) (r : Ring α capacity) :
    (drain n r).2.contents = r.contents.drop n := by
  induction n generalizing r with
  | zero => simp [drain]
  | succ n ih =>
    cases hr : r.contents with
    | nil => simp [drain, pop_of_empty r hr, hr]
    | cons x rest =>
      obtain ⟨hx, hrest⟩ := contents_pop r hr
      rw [drain, ← Prod.eta r.pop, hx]
      simp only [List.drop_succ_cons]
      rw [ih, hrest]

end Ring

end OpenKernel.Lib
