import Mathlib.Data.List.Induction
import OpenKernel.Lib.History

/-!
# Copying inside one memory

A loop over indices loads one place and stores to another, and a place that it
has stored to may be one that it has yet to load.  As long as it is not, the
targets end up with what the sources held at the beginning.
-/

namespace OpenKernel.Lib

/-- One access to a memory. -/
inductive Access (α : Type)
  | load (place : α)
  | store (place : α)
  deriving DecidableEq

/-- A memory and the accesses to it so far. -/
structure Accessed (α β : Type) where
  contents : α → β
  accesses : List (Access α)

/-- No load comes after a store to its place. -/
def LoadsFirst {α : Type} (accesses : List (Access α)) : Prop :=
  Sound (fun access before => ∀ place, access = .load place → .store place ∉ before) accesses

namespace Accessed

variable {α β ι : Type}

/-- A memory that has not been accessed. -/
def fresh (contents : α → β) : Accessed α β := ⟨contents, []⟩

def load (m : Accessed α β) (place : α) : β × Accessed α β :=
  (m.contents place, { m with accesses := .load place :: m.accesses })

variable [DecidableEq α]

def store (m : Accessed α β) (place : α) (value : β) : Accessed α β :=
  { contents := fun other => if other = place then value else m.contents other
    accesses := .store place :: m.accesses }

/-- The turn of the loop for one index. -/
def copy (target source : ι → α) (m : Accessed α β) (i : ι) : Accessed α β :=
  let (value, m) := m.load (source i)
  m.store (target i) value

/-- The loop. -/
def copyAll (target source : ι → α) (indices : List ι) (m : Accessed α β) : Accessed α β :=
  indices.foldl (copy target source) m

section Loop

variable {target source : ι → α} {indices : List ι} {i : ι} {f : α → β} {m : Accessed α β}

theorem copyAll_concat :
    copyAll target source (indices ++ [i]) m =
      (copyAll target source indices m).copy target source i :=
  List.foldl_append

theorem contents_copy (place : α) :
    (m.copy target source i).contents place =
      if place = target i then m.contents (source i) else m.contents place := rfl

theorem accesses_copy :
    (m.copy target source i).accesses = .store (target i) :: .load (source i) :: m.accesses := rfl

/-- Places that are no targets keep their contents. -/
theorem contents_copyAll_other {place : α} (h : ∀ i ∈ indices, place ≠ target i) :
    (copyAll target source indices m).contents place = m.contents place := by
  induction indices using List.reverseRecOn with
  | nil => rfl
  | append_singleton indices i ih =>
    rw [copyAll_concat, contents_copy, if_neg (h i (by simp))]
    exact ih fun j hj => h j (by simp [hj])

/-- The loop stores to its targets only. -/
theorem store_mem_copyAll {place : α}
    (h : .store place ∈ (copyAll target source indices (fresh f)).accesses) :
    ∃ i ∈ indices, place = target i := by
  induction indices using List.reverseRecOn with
  | nil => cases h
  | append_singleton indices i ih =>
    rw [copyAll_concat, accesses_copy, List.mem_cons, List.mem_cons] at h
    rcases h with hnew | hload | hold
    · exact ⟨i, by simp, Access.store.inj hnew⟩
    · cases hload
    · obtain ⟨j, hj, hplace⟩ := ih hold
      exact ⟨j, by simp [hj], hplace⟩

/-- The indices come in an order in which no target is a source that comes
later. -/
theorem loadsFirst_copyAll (horder : indices.Pairwise fun j i => source i ≠ target j) :
    LoadsFirst (copyAll target source indices (fresh f)).accesses := by
  induction indices using List.reverseRecOn with
  | nil => exact trivial
  | append_singleton indices i ih =>
    obtain ⟨hbefore, -, hlast⟩ := List.pairwise_append.mp horder
    rw [copyAll_concat, accesses_copy]
    refine ⟨fun _ heq => (nomatch heq), ?_, ih hbefore⟩
    rintro place hplace hstore
    obtain rfl := Access.load.inj hplace
    obtain ⟨j, hj, htarget⟩ := store_mem_copyAll hstore
    exact hlast j hj i (by simp) htarget

/-- Every target ends up with what its source held at the beginning. -/
theorem contents_copyAll (horder : indices.Pairwise fun j i => source i ≠ target j)
    (hinjective : ∀ i ∈ indices, ∀ j ∈ indices, target i = target j → i = j)
    (hi : i ∈ indices) :
    (copyAll target source indices m).contents (target i) = m.contents (source i) := by
  induction indices using List.reverseRecOn with
  | nil => cases hi
  | append_singleton indices last ih =>
    obtain ⟨hbefore, -, hlast⟩ := List.pairwise_append.mp horder
    rw [copyAll_concat, contents_copy]
    by_cases hsame : target i = target last
    · obtain rfl : i = last := hinjective i hi last (by simp) hsame
      rw [if_pos rfl]
      exact contents_copyAll_other fun j hj => hlast j hj i (by simp)
    · rw [if_neg hsame]
      have hmem : i ∈ indices := by
        rcases List.mem_append.mp hi with hmem | hmem
        · exact hmem
        · rw [List.mem_singleton.mp hmem] at hsame
          exact absurd rfl hsame
      exact ih hbefore (fun j hj k hk => hinjective j (by simp [hj]) k (by simp [hk])) hmem

end Loop

end Accessed

end OpenKernel.Lib
