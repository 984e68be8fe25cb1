import Mathlib.Data.Finset.Basic
import OpenKernel.Lib.History

/-!
# Pools

A pool of items, some of them available and the others held by clients.  A
client takes an available item, which the pool chooses, and gives items
back.  `Pool.Run p₀ h p` says that the calls of the history `h`, with their
results, lead from `p₀` to `p`.

The facts that every user of a pool relies on:

* no item appears or disappears (`Run.items`);
* an item is held since it was taken and until it is given back
  (`Run.held_iff`);
* nothing is taken twice without being given back in between
  (`Run.sound`).
-/

namespace OpenKernel.Lib

variable {α : Type}

inductive PoolCall (α : Type)
  | take
  | give (item : α)

/-- A call with its result, the item that was taken. -/
abbrev PoolEvent (α : Type) := PoolCall α × Option α

namespace PoolEvent

def IsTake (x : α) (e : PoolEvent α) : Prop := e = (.take, some x)

def IsGive (x : α) (e : PoolEvent α) : Prop := e = (.give x, none)

/-- The item was taken and not given back since. -/
def Held (h : List (PoolEvent α)) (x : α) : Prop := Since (IsTake x) (IsGive x) h

end PoolEvent

structure Pool (α : Type) [DecidableEq α] where
  available : Finset α
  held : Finset α
  disjoint : Disjoint available held

namespace Pool

open PoolEvent

variable [DecidableEq α]

/-- The item `x` is taken. -/
def take (p : Pool α) (x : α) : Pool α where
  available := p.available.erase x
  held := insert x p.held
  disjoint := by
    rw [Finset.disjoint_left]
    intro y hy hheld
    obtain ⟨hne, hav⟩ := Finset.mem_erase.mp hy
    rcases Finset.mem_insert.mp hheld with heq | hheld
    · exact hne heq
    · exact Finset.disjoint_left.mp p.disjoint hav hheld

/-- The item `x` is given back.  Only a held item can be. -/
def give (p : Pool α) (x : α) : Pool α :=
  if x ∈ p.held then
    { available := insert x p.available
      held := p.held.erase x
      disjoint := by
        rw [Finset.disjoint_left]
        intro y hy hheld
        obtain ⟨hne, hheld⟩ := Finset.mem_erase.mp hheld
        rcases Finset.mem_insert.mp hy with heq | hav
        · exact hne heq
        · exact Finset.disjoint_left.mp p.disjoint hav hheld }
  else p

/-- The states that a history of calls leads to. -/
inductive Run (p₀ : Pool α) : List (PoolEvent α) → Pool α → Prop
  | start : Run p₀ [] p₀
  | took {h : List (PoolEvent α)} {p : Pool α} {x : α} (run : Run p₀ h p)
      (hx : x ∈ p.available) : Run p₀ ((.take, some x) :: h) (p.take x)
  | refused {h : List (PoolEvent α)} {p : Pool α} (run : Run p₀ h p)
      (hempty : p.available = ∅) : Run p₀ ((.take, none) :: h) p
  | gave {h : List (PoolEvent α)} {p : Pool α} (x : α) (run : Run p₀ h p) :
      Run p₀ ((.give x, none) :: h) (p.give x)

variable {p₀ p : Pool α} {h : List (PoolEvent α)}

theorem mem_items_take (p : Pool α) {x : α} (hx : x ∈ p.available) (y : α) :
    (y ∈ (p.take x).available ∨ y ∈ (p.take x).held) ↔
      (y ∈ p.available ∨ y ∈ p.held) := by
  show y ∈ p.available.erase x ∨ y ∈ insert x p.held ↔ _
  rw [Finset.mem_erase, Finset.mem_insert]
  by_cases hyx : y = x
  · subst hyx
    simp [hx]
  · simp [hyx]

theorem mem_items_give (p : Pool α) (x y : α) :
    (y ∈ (p.give x).available ∨ y ∈ (p.give x).held) ↔
      (y ∈ p.available ∨ y ∈ p.held) := by
  unfold give
  split
  · rename_i hx
    show y ∈ insert x p.available ∨ y ∈ p.held.erase x ↔ _
    rw [Finset.mem_erase, Finset.mem_insert]
    by_cases hyx : y = x
    · subst hyx
      simp [hx]
    · simp [hyx]
  · exact Iff.rfl

/-- The items of a pool stay the same. -/
theorem Run.items (hrun : Run p₀ h p) (y : α) :
    (y ∈ p.available ∨ y ∈ p.held) ↔ (y ∈ p₀.available ∨ y ∈ p₀.held) := by
  induction hrun with
  | start => exact Iff.rfl
  | took run hx ih => rw [mem_items_take _ hx, ih]
  | refused run hempty ih => exact ih
  | gave x run ih => rw [mem_items_give, ih]

theorem mem_held_give (p : Pool α) (x y : α) :
    y ∈ (p.give x).held ↔ y ≠ x ∧ y ∈ p.held := by
  unfold give
  split
  · exact Finset.mem_erase
  · rename_i hx
    constructor
    · intro hy
      refine ⟨?_, hy⟩
      rintro rfl
      exact hx hy
    · exact fun hy => hy.2

/-- What is held can be read off the history. -/
theorem Run.held_iff (hrun : Run p₀ h p) (hstart : p₀.held = ∅) (y : α) :
    y ∈ p.held ↔ Held h y := by
  induction hrun with
  | start =>
    rw [hstart]
    exact ⟨fun hy => absurd hy (Finset.notMem_empty y), False.elim⟩
  | @took h p x run hx ih =>
    show y ∈ insert x p.held ↔ IsTake y (.take, some x) ∨
      (¬ IsGive y (.take, some x) ∧ Since (IsTake y) (IsGive y) h)
    rw [Finset.mem_insert, ih]
    have htake : IsTake y (.take, some x) ↔ y = x := by
      simp [IsTake, eq_comm]
    have hgive : ¬ IsGive y (.take, some x) := by simp [IsGive]
    rw [htake, and_iff_right hgive]
    rfl
  | @refused h p run hempty ih =>
    rw [ih]
    have htake : ¬ IsTake y (.take, none) := by simp [IsTake]
    have hgive : ¬ IsGive y (.take, none) := by simp [IsGive]
    exact ⟨fun hy => .inr ⟨hgive, hy⟩, fun hy => hy.elim (absurd · htake) (·.2)⟩
  | @gave h p x run ih =>
    rw [mem_held_give, ih]
    have htake : ¬ IsTake y (.give x, none) := by simp [IsTake]
    have hgive : IsGive y (.give x, none) ↔ y = x := by
      simp [IsGive, eq_comm]
    constructor
    · exact fun hy => .inr ⟨fun hbad => hy.1 (hgive.mp hbad), hy.2⟩
    · rintro (hy | ⟨hbad, hy⟩)
      · exact absurd hy htake
      · exact ⟨fun heq => hbad (hgive.mpr heq), hy⟩

/-- An item that is taken was there from the start, and nobody held it. -/
theorem Run.sound (hrun : Run p₀ h p) (hstart : p₀.held = ∅) :
    Sound (fun e earlier => ∀ x, IsTake x e →
      x ∈ p₀.available ∧ ¬ Held earlier x) h := by
  induction hrun with
  | start => trivial
  | @took h p x run hx ih =>
    refine Sound.cons ?_ ih
    intro y hy
    obtain rfl : x = y := Option.some.inj (Prod.mk.inj hy).2
    have hnot : x ∉ p.held := Finset.disjoint_left.mp p.disjoint hx
    constructor
    · have hitem := (run.items x).mp (.inl hx)
      rw [hstart] at hitem
      exact hitem.resolve_right (Finset.notMem_empty x)
    · rw [← run.held_iff hstart]
      exact hnot
  | @refused h p run hempty ih =>
    refine Sound.cons ?_ ih
    intro y hy
    cases (Prod.mk.inj hy).2
  | @gave h p x run ih =>
    refine Sound.cons ?_ ih
    intro y hy
    cases (Prod.mk.inj hy).2

end Pool

end OpenKernel.Lib
