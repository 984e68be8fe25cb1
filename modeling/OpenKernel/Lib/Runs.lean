import Mathlib.Logic.Basic

/-!
# Runs of a transition system

A system is a partial step function over labelled actions.  `Run step guard`
is the relation "some sequence of steps leads from one state to another, and
every step meets `guard` in the state before it".  An unguarded run uses the
guard `Always`.

`Run.invariant` is the only induction over runs: a predicate that each
guarded step keeps holds at the end of a run as soon as it holds at its
start.
-/

namespace OpenKernel.Lib

variable {σ α : Type}

/-- The guard that every step meets. -/
def Always : σ → α → Prop := fun _ _ => True

/-- The states that guarded runs of `step` lead to. -/
inductive Run (step : σ → α → Option σ) (guard : σ → α → Prop) (s : σ) :
    σ → Prop
  | refl : Run step guard s s
  | step {t u : σ} (a : α) (run : Run step guard s t) (meets : guard t a)
      (next : step t a = some u) : Run step guard s u

namespace Run

variable {step : σ → α → Option σ} {guard : σ → α → Prop} {s t : σ}

/-- The invariant rule. -/
theorem invariant (Inv : σ → Prop)
    (hstep : ∀ t a u, Inv t → guard t a → step t a = some u → Inv u)
    (hrun : Run step guard s t) (hs : Inv s) : Inv t := by
  induction hrun with
  | refl => exact hs
  | step a _ hguard hnext ih => exact hstep _ a _ ih hguard hnext

/-- A weaker guard allows more runs. -/
theorem mono {guard' : σ → α → Prop}
    (hg : ∀ t a, guard t a → guard' t a) (hrun : Run step guard s t) :
    Run step guard' s t := by
  induction hrun with
  | refl => exact .refl
  | step a _ hguard hnext ih => exact .step a ih (hg _ a hguard) hnext

theorem trans {u : σ} (hst : Run step guard s t)
    (htu : Run step guard t u) : Run step guard s u := by
  induction htu with
  | refl => exact hst
  | step a _ hguard hnext ih => exact .step a ih hguard hnext

end Run

/-- The state after a list of actions, when each of them is possible and
meets the guard. -/
def exec (step : σ → α → Option σ) (guard : σ → α → Prop)
    [∀ s a, Decidable (guard s a)] : List α → σ → Option σ
  | [], s => some s
  | a :: as, s =>
    if guard s a then (step s a).bind (exec step guard as) else none

/-- Executing a list of actions is a run. -/
theorem run_of_exec {step : σ → α → Option σ} {guard : σ → α → Prop}
    [∀ s a, Decidable (guard s a)] {as : List α} {s t : σ}
    (h : exec step guard as s = some t) : Run step guard s t := by
  induction as generalizing s with
  | nil =>
    obtain rfl : s = t := by simpa [exec] using h
    exact .refl
  | cons a as ih =>
    rw [exec] at h
    split at h
    · rename_i hguard
      obtain ⟨u, hu, hrest⟩ := Option.bind_eq_some_iff.mp h
      exact (Run.step a .refl hguard hu).trans (ih hrest)
    · cases h

section Exec

variable {step : σ → α → Option σ} {guard : σ → α → Prop} [∀ s a, Decidable (guard s a)]
  {as : List α} {s t u : σ} {a : α} {n : Nat}

theorem exec_append (as bs : List α) (s : σ) :
    exec step guard (as ++ bs) s = (exec step guard as s).bind (exec step guard bs) := by
  induction as generalizing s with
  | nil => rfl
  | cons a as ih =>
    rw [List.cons_append, exec, exec]
    split
    · rw [Option.bind_assoc]
      exact congrArg _ (funext ih)
    · rfl

/-- One action more. -/
theorem exec_take_succ (h : exec step guard (as.take n) s = some t) (ha : as[n]? = some a)
    (hguard : guard t a) (hnext : step t a = some u) :
    exec step guard (as.take (n + 1)) s = some u := by
  rw [List.take_add_one, exec_append, h, ha]
  show exec step guard [a] t = some u
  rw [exec, if_pos hguard, hnext]
  rfl

/-- The last action, if the list goes that far. -/
theorem exec_take_cases (h : exec step guard (as.take (n + 1)) s = some u) :
    exec step guard (as.take n) s = some u ∨
      ∃ t a, exec step guard (as.take n) s = some t ∧ as[n]? = some a ∧ guard t a ∧
        step t a = some u := by
  rw [List.take_add_one, exec_append] at h
  obtain ⟨t, ht, hlast⟩ := Option.bind_eq_some_iff.mp h
  cases ha : as[n]? with
  | none =>
    rw [ha] at hlast
    obtain rfl := Option.some.inj hlast
    exact .inl ht
  | some a =>
    rw [ha] at hlast
    change exec step guard [a] t = some u at hlast
    rw [exec] at hlast
    split at hlast
    · rename_i hguard
      obtain ⟨v, hv, hdone⟩ := Option.bind_eq_some_iff.mp hlast
      obtain rfl := Option.some.inj hdone
      exact .inr ⟨t, a, ht, rfl, hguard, hv⟩
    · cases hlast

section Guards

variable {guard' : σ → α → Prop} [∀ s a, Decidable (guard' s a)]

/-- Under a weaker guard a list of actions does the same. -/
theorem exec_mono (hg : ∀ s a, guard s a → guard' s a) (h : exec step guard as s = some t) :
    exec step guard' as s = some t := by
  induction as generalizing s with
  | nil => exact h
  | cons a as ih =>
    rw [exec] at h ⊢
    split at h
    · rename_i hguard
      obtain ⟨u, hu, hrest⟩ := Option.bind_eq_some_iff.mp h
      rw [if_pos (hg s a hguard), hu]
      exact ih hrest
    · cases h

/-- Each action of a list that is executed meets the guard where it comes. -/
theorem exec_guard (h : exec step guard as s = some u)
    (hbefore : exec step guard' (as.take n) s = some t) (ha : as[n]? = some a) : guard t a := by
  induction as generalizing s n with
  | nil => cases ha
  | cons b as ih =>
    rw [exec] at h
    split at h
    · rename_i hguard
      obtain ⟨v, hv, hrest⟩ := Option.bind_eq_some_iff.mp h
      cases n with
      | zero =>
        obtain rfl := Option.some.inj hbefore
        obtain rfl := Option.some.inj ha
        exact hguard
      | succ n =>
        rw [List.take_succ_cons, exec] at hbefore
        split at hbefore
        · rw [hv] at hbefore
          exact ih hrest hbefore ha
        · cases hbefore
    · cases h

end Guards

end Exec

instance (s : σ) (a : α) : Decidable (Always s a) :=
  inferInstanceAs (Decidable True)

end OpenKernel.Lib
