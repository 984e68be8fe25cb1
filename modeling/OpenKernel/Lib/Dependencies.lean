import Mathlib.Data.Fintype.Card
import Mathlib.Data.List.Nodup
import Mathlib.Data.Set.Finite.Basic
import Mathlib.Logic.Relation

/-!
# Dependencies

What a list that is sorted by a relation promises, and which elements can be
sorted at all.

* `Precedes l a b`: `a` stands before `b` in the list.
* `Grounded r declared a`: whatever `a` reaches is declared and lies on no
  cycle.  Where only finitely many elements are declared, the grounded ones
  allow an induction over what they depend on.
-/

namespace OpenKernel.Lib

open Relation

variable {α β : Type}

/-! ## Before -/

def Precedes (l : List α) (a b : α) : Prop := [a, b].Sublist l

namespace Precedes

variable {l : List α} {a b c x : α}

theorem cons_iff : Precedes (x :: l) a b ↔ Precedes l a b ∨ a = x ∧ b ∈ l := by
  unfold Precedes
  rw [List.sublist_cons_iff]
  refine or_congr_right ⟨?_, ?_⟩
  · rintro ⟨rest, heq, hrest⟩
    obtain ⟨rfl, rfl⟩ := List.cons.inj heq
    exact ⟨rfl, List.singleton_sublist.mp hrest⟩
  · rintro ⟨rfl, hb⟩
    exact ⟨[b], rfl, List.singleton_sublist.mpr hb⟩

theorem left_mem (h : Precedes l a b) : a ∈ l := h.subset (by simp)

theorem right_mem (h : Precedes l a b) : b ∈ l := h.subset (by simp)

theorem append_right (h : Precedes l a b) (l' : List α) : Precedes (l ++ l') a b :=
  h.trans (List.sublist_append_left l l')

theorem append (ha : a ∈ l) {l' : List α} (hb : b ∈ l') : Precedes (l ++ l') a b :=
  (List.singleton_sublist.mpr ha).append (List.singleton_sublist.mpr hb)

theorem reverse (h : Precedes l a b) : Precedes l.reverse b a :=
  List.Sublist.reverse h

theorem filterMap (h : Precedes l a b) {f : α → Option β} {a' b' : β} (ha : f a = some a')
    (hb : f b = some b') : Precedes (l.filterMap f) a' b' := by
  have hmapped := List.Sublist.filterMap f h
  rwa [List.filterMap_cons_some ha, List.filterMap_cons_some hb] at hmapped

theorem irrefl (hl : l.Nodup) : ¬ Precedes l a a := by
  intro h
  exact absurd (hl.sublist h) (by simp)

theorem trans (hl : l.Nodup) (hab : Precedes l a b) (hbc : Precedes l b c) :
    Precedes l a c := by
  induction l with
  | nil => cases hab
  | cons x l ih =>
    obtain ⟨hx, hl⟩ := List.nodup_cons.mp hl
    rw [cons_iff] at hab hbc ⊢
    have hb : b ∈ l := hab.elim (·.right_mem) (·.2)
    rcases hbc with hbc | ⟨rfl, -⟩
    · rcases hab with hab | ⟨rfl, -⟩
      · exact .inl (ih hl hab hbc)
      · exact .inr ⟨rfl, hbc.right_mem⟩
    · exact absurd hb hx

end Precedes

/-! ## Grounded elements -/

def Grounded (r : α → α → Prop) (declared : α → Prop) (a : α) : Prop :=
  ∀ b, ReflTransGen r a b → declared b ∧ ¬ TransGen r b b

namespace Grounded

variable {r : α → α → Prop} {declared : α → Prop} {a b : α}

theorem declared_self (h : Grounded r declared a) : declared a := (h a .refl).1

theorem step (h : Grounded r declared a) (hab : r a b) : Grounded r declared b :=
  fun c hbc => h c (hbc.head hab)

theorem trans (h : Grounded r declared a) (hab : TransGen r a b) : Grounded r declared b :=
  fun c hbc => h c (hab.to_reflTransGen.trans hbc)

/-- Induction over the dependencies of a grounded element. -/
theorem induction {p : α → Prop} (hfinite : Set.Finite {b | declared b})
    (hstep : ∀ b, Grounded r declared b → (∀ c, r b c → p c) → p b)
    (h : Grounded r declared a) : p a := by
  have hbelow : Finite {b // Grounded r declared b} :=
    (Set.Finite.subset hfinite fun b hb => Grounded.declared_self hb).to_subtype
  let below (c b : {b // Grounded r declared b}) : Prop := TransGen r b.1 c.1
  have htrans : IsTrans _ below := ⟨fun _ _ _ hba hcb => hcb.trans hba⟩
  have hirrefl : Std.Irrefl below := ⟨fun b hb => (b.2 b.1 .refl).2 hb⟩
  have hwf : WellFounded below := Finite.wellFounded_of_trans_of_irrefl below
  have hall : ∀ b : {b // Grounded r declared b}, p b.1 := by
    intro b
    induction b using hwf.induction with
    | h b ih =>
      exact hstep b.1 b.2 fun c hc => ih ⟨c, b.2.step hc⟩ (.single hc)
  exact hall ⟨a, h⟩

end Grounded

end OpenKernel.Lib
