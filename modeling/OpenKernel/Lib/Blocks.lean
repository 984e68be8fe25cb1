import Mathlib.Algebra.GroupWithZero.Nat
import Mathlib.Data.List.Basic

/-!
# Blocks in a flat memory

A block is a list of values from an address on.  Blocks that keep apart from
each other can be written in any number, and each is found where it was
written.
-/

namespace OpenKernel.Lib

variable {β : Type}

abbrev Block (β : Type) := Nat × List β

namespace Block

/-- The addresses of the block. -/
def Covers (b : Block β) (a : Nat) : Prop := b.1 ≤ a ∧ a < b.1 + b.2.length

/-- One of the two ends before the other begins. -/
def Apart (b b' : Block β) : Prop := b.1 + b.2.length ≤ b'.1 ∨ b'.1 + b'.2.length ≤ b.1

def write (f : Nat → β) (b : Block β) : Nat → β :=
  fun a => if b.1 ≤ a then b.2[a - b.1]?.getD (f a) else f a

def writeAll (f : Nat → β) (bs : List (Block β)) : Nat → β := bs.foldl write f

variable {f : Nat → β} {b b' : Block β} {bs : List (Block β)} {a i : Nat}

theorem write_at (hi : i < b.2.length) : some (write f b (b.1 + i)) = b.2[i]? := by
  unfold write
  rw [if_pos (Nat.le_add_right _ _), Nat.add_sub_cancel_left, List.getElem?_eq_getElem hi]
  rfl

theorem write_other (h : ¬ b.Covers a) : write f b a = f a := by
  unfold write
  by_cases hle : b.1 ≤ a
  · have hend : b.2.length ≤ a - b.1 := Nat.le_of_not_lt fun hlt => h ⟨hle, by omega⟩
    rw [if_pos hle, List.getElem?_eq_none_iff.mpr hend, Option.getD_none]
  · rw [if_neg hle]

/-- The first value of a block, and then the rest. -/
theorem write_cons (value : β) (values : List β) :
    write f (a, value :: values) =
      write (fun c => if c = a then value else f c) (a + 1, values) := by
  funext c
  unfold write
  dsimp only
  by_cases hle : a + 1 ≤ c
  · rw [if_pos (by omega), if_pos hle, if_neg (by omega),
      show c - a = c - (a + 1) + 1 by omega, List.getElem?_cons_succ]
  · rw [if_neg hle]
    by_cases hsame : c = a
    · rw [if_pos (by omega), if_pos hsame, hsame, Nat.sub_self]
      rfl
    · rw [if_neg (by omega), if_neg hsame]

/-- The values from an address on. -/
def read (f : Nat → β) (start count : Nat) : List β := (List.range' start count).map f

@[simp] theorem length_read (f : Nat → β) (start count : Nat) :
    (read f start count).length = count := by
  simp [read]

/-- A block is read back as it was written. -/
theorem read_write_same : read (write f b) b.1 b.2.length = b.2 := by
  apply List.ext_getElem?
  intro i
  by_cases hi : i < b.2.length
  · rw [← write_at hi, read, List.getElem?_map, List.getElem?_range' hi, Nat.one_mul,
      Option.map_some]
  · rw [List.getElem?_eq_none (by simp; omega), List.getElem?_eq_none (by omega)]

/-- Nothing else changes. -/
theorem read_write_apart {start count : Nat}
    (h : b.1 + b.2.length ≤ start ∨ start + count ≤ b.1) :
    read (write f b) start count = read f start count := by
  apply List.map_congr_left
  intro c hc
  have hrange := List.mem_range'_1.mp hc
  apply write_other
  intro hcovers
  have hlow := hcovers.1
  have hhigh := hcovers.2
  omega

theorem Apart.symm (h : Apart b b') : Apart b' b := h.elim .inr .inl

theorem writeAll_other (h : ∀ b ∈ bs, ¬ b.Covers a) : writeAll f bs a = f a := by
  induction bs generalizing f with
  | nil => rfl
  | cons b bs ih =>
    show writeAll (write f b) bs a = f a
    rw [ih fun b' hb' => h b' (by simp [hb']), write_other (h b (by simp))]

/-- Every block is there. -/
theorem writeAll_at (hbs : bs.Pairwise Apart) (hb : b ∈ bs) (hi : i < b.2.length) :
    some (writeAll f bs (b.1 + i)) = b.2[i]? := by
  induction bs generalizing f with
  | nil => cases hb
  | cons first bs ih =>
    obtain ⟨hfirst, hbs⟩ := List.pairwise_cons.mp hbs
    show some (writeAll (write f first) bs (b.1 + i)) = _
    rcases List.mem_cons.mp hb with rfl | hb
    · rw [writeAll_other, write_at hi]
      rintro b' hb' ⟨hlow, hhigh⟩
      rcases hfirst b' hb' with hapart | hapart
      · omega
      · omega
    · exact ih hbs hb

theorem writeAll_append (bs bs' : List (Block β)) :
    writeAll f (bs ++ bs') = writeAll (writeAll f bs) bs' := List.foldl_append

/-! ## Blocks that grow downwards -/

/-- The lists one below the other, the first one ending at `top`. -/
def downFrom (top : Nat) : List (List β) → List (Block β)
  | [] => []
  | values :: rest => (top - values.length, values) :: downFrom (top - values.length) rest

/-- The length of all the lists. -/
def total (lists : List (List β)) : Nat := (lists.map List.length).sum

variable {top : Nat} {lists : List (List β)}

@[simp] theorem total_nil : total ([] : List (List β)) = 0 := rfl

@[simp] theorem total_cons (values : List β) (rest : List (List β)) :
    total (values :: rest) = values.length + total rest := List.sum_cons

@[simp] theorem length_downFrom : (downFrom top lists).length = lists.length := by
  induction lists generalizing top with
  | nil => rfl
  | cons values rest ih => simp [downFrom, ih]

/-- The last block ends the area. -/
theorem getLastD_downFrom (hlists : lists ≠ []) (default : Nat) :
    ((downFrom top lists).map (·.1)).getLastD default = top - total lists := by
  have hlast : ∀ (rest : List (List β)) (top : Nat),
      ((downFrom top rest).map (·.1)).getLastD top = top - total rest := by
    intro rest
    induction rest with
    | nil => intro top; rfl
    | cons values rest ih =>
      intro top
      rw [downFrom, List.map_cons, List.getLastD_cons, ih, total_cons, Nat.sub_sub]
  cases lists with
  | nil => exact absurd rfl hlists
  | cons values rest =>
    rw [downFrom, List.map_cons, List.getLastD_cons, hlast, total_cons, Nat.sub_sub]

/-- The blocks lie between `top` and the end of the last one. -/
theorem downFrom_bounds (hfit : total lists ≤ top) (hb : b ∈ downFrom top lists) :
    top - total lists ≤ b.1 ∧ b.1 + b.2.length ≤ top := by
  induction lists generalizing top with
  | nil => cases hb
  | cons values rest ih =>
    rw [total_cons] at hfit ⊢
    rcases List.mem_cons.mp hb with rfl | hb
    · constructor
      · omega
      · exact Nat.le_of_eq (Nat.sub_add_cancel (by omega))
    · have hrest := ih (by omega) hb
      omega

theorem downFrom_apart (hfit : total lists ≤ top) : (downFrom top lists).Pairwise Apart := by
  induction lists generalizing top with
  | nil => exact List.Pairwise.nil
  | cons values rest ih =>
    rw [total_cons] at hfit
    refine List.Pairwise.cons (fun b hb => .inr ?_) (ih (by omega))
    exact (downFrom_bounds (by omega) hb).2

/-- What holds of every block relates the addresses to the lists. -/
theorem forall₂_downFrom {P : Nat → List β → Prop}
    (h : ∀ b ∈ downFrom top lists, b.2 ∈ lists → P b.1 b.2) :
    List.Forall₂ P ((downFrom top lists).map (·.1)) lists := by
  induction lists generalizing top with
  | nil => exact .nil
  | cons values rest ih =>
    refine .cons (h (top - values.length, values) (by simp [downFrom]) (by simp)) (ih ?_)
    exact fun b hb hmem => h b (by simp [downFrom, hb]) (by simp [hmem])

/-- The block of a list, which begins behind the lists up to it. -/
theorem downFrom_getElem? (hi : i < lists.length) :
    (downFrom top lists)[i]? = some (top - total (lists.take (i + 1)), lists[i]) := by
  induction lists generalizing top i with
  | nil => cases hi
  | cons values rest ih =>
    cases i with
    | zero => simp [downFrom]
    | succ i =>
      rw [List.length_cons] at hi
      rw [downFrom, List.getElem?_cons_succ, ih (Nat.lt_of_succ_lt_succ hi)]
      simp [Nat.sub_sub]

end Block

end OpenKernel.Lib
