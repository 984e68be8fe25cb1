import Mathlib.Logic.Basic

/-!
# Rules for stateful code that can fail

Code that changes a state and can stop with an error is a value of
`EStateM`.  An error keeps the changes made before it, as an early return
does in the code that is modelled.

`Spec pre x post fail` is the partial-correctness statement of such code:
from a state that meets `pre` it ends with a result in `post`, or with an
error in `fail`.  There is one rule for each way to build code; a proof about
a function follows the function's own text.
-/

namespace OpenKernel.Lib

variable {ε σ α β : Type}

/-- From `pre`, `x` ends in `post` or fails in `fail`. -/
def Spec (pre : σ → Prop) (x : EStateM ε σ α) (post : α → σ → Prop)
    (fail : ε → σ → Prop) : Prop :=
  ∀ s, pre s →
    match x s with
    | .ok a t => post a t
    | .error e t => fail e t

/-- `x` keeps `inv` whether it returns or fails. -/
abbrev Keeps (inv : σ → Prop) (x : EStateM ε σ α) : Prop :=
  Spec inv x (fun _ => inv) (fun _ => inv)

namespace Spec

variable {pre pre' : σ → Prop} {x : EStateM ε σ α}
  {post post' : α → σ → Prop} {fail fail' : ε → σ → Prop}

/-- What a successful end says. -/
theorem ok {s t : σ} {a : α} (h : Spec pre x post fail) (hs : pre s)
    (hx : x s = .ok a t) : post a t := by
  have := h s hs
  rwa [hx] at this

/-- What a failing end says. -/
theorem error {s t : σ} {e : ε} (h : Spec pre x post fail) (hs : pre s)
    (hx : x s = .error e t) : fail e t := by
  have := h s hs
  rwa [hx] at this

theorem conseq (h : Spec pre x post fail) (hpre : ∀ s, pre' s → pre s)
    (hpost : ∀ a t, post a t → post' a t)
    (hfail : ∀ e t, fail e t → fail' e t) : Spec pre' x post' fail' := by
  intro s hs
  have hx := h s (hpre s hs)
  cases hxs : x s with
  | ok a t =>
    rw [hxs] at hx
    exact hpost a t hx
  | error e t =>
    rw [hxs] at hx
    exact hfail e t hx

theorem mono_fail (h : Spec pre x post fail)
    (hfail : ∀ e t, fail e t → fail' e t) : Spec pre x post fail' :=
  h.conseq (fun _ hs => hs) (fun _ _ ht => ht) hfail

/-- A statement about each state that meets the precondition. -/
theorem each (h : ∀ s, pre s → Spec (· = s) x post fail) : Spec pre x post fail :=
  fun s hs => h s hs s rfl

/-- Two statements about one piece of code. -/
theorem and (h : Spec pre x post fail) (h' : Spec pre' x post' fail') :
    Spec (fun s => pre s ∧ pre' s) x (fun a t => post a t ∧ post' a t)
      (fun e t => fail e t ∧ fail' e t) := by
  rintro s ⟨hs, hs'⟩
  have h1 := h s hs
  have h2 := h' s hs'
  cases hx : x s with
  | ok a t =>
    rw [hx] at h1 h2
    exact ⟨h1, h2⟩
  | error e t =>
    rw [hx] at h1 h2
    exact ⟨h1, h2⟩

theorem pure {a : α} (h : ∀ s, pre s → post a s) :
    Spec pre (Pure.pure a) post fail :=
  fun s hs => h s hs

theorem throw {e : ε} (h : ∀ s, pre s → fail e s) :
    Spec pre (MonadExcept.throw e) post fail :=
  fun s hs => h s hs

theorem get {post : σ → σ → Prop} (h : ∀ s, pre s → post s s) :
    Spec pre (MonadState.get : EStateM ε σ σ) post fail :=
  fun s hs => h s hs

/-- Reading the state, when what follows needs the value that was read. -/
theorem bind_get {f : σ → EStateM ε σ β} {post : β → σ → Prop}
    (h : ∀ s, pre s → Spec (· = s) (f s) post fail) :
    Spec pre (MonadState.get >>= f) post fail :=
  fun s hs => h s hs s rfl

/-- Reading the state, when it is enough that the value met `pre`. -/
theorem bind_read {f : σ → EStateM ε σ β} {post : β → σ → Prop}
    (h : ∀ s, pre s → Spec pre (f s) post fail) :
    Spec pre (MonadState.get >>= f) post fail :=
  fun s hs => h s hs s hs

/-- A part of the precondition that does not mention the state. -/
theorem and_pre {p : Prop} (h : p → Spec pre x post fail) :
    Spec (fun s => p ∧ pre s) x post fail :=
  fun s hs => h hs.1 s hs.2

theorem update {f : σ → σ} {post : PUnit → σ → Prop}
    (h : ∀ s, pre s → post ⟨⟩ (f s)) :
    Spec pre (modify f : EStateM ε σ PUnit) post fail :=
  fun s hs => h s hs

theorem bind {f : α → EStateM ε σ β} {mid : α → σ → Prop}
    {post : β → σ → Prop} (hx : Spec pre x mid fail)
    (hf : ∀ a, Spec (mid a) (f a) post fail) :
    Spec pre (x >>= f) post fail := by
  intro s hs
  have h1 := hx s hs
  show match EStateM.bind x f s with
    | .ok a t => post a t
    | .error e t => fail e t
  unfold EStateM.bind
  cases hxs : x s with
  | ok a t =>
    rw [hxs] at h1
    exact hf a t h1
  | error e t =>
    rw [hxs] at h1
    exact h1

/-- Nothing runs after an error. -/
theorem bind_throw {e : ε} {f : α → EStateM ε σ β} {post : β → σ → Prop}
    (h : ∀ s, pre s → fail e s) :
    Spec pre (MonadExcept.throw e >>= f) post fail :=
  fun s hs => h s hs

/-- A case split on a condition that the state does not decide. -/
theorem ite {c : Prop} [Decidable c] {y : EStateM ε σ α}
    (hx : c → Spec pre x post fail) (hy : ¬ c → Spec pre y post fail) :
    Spec pre (if c then x else y) post fail := by
  split
  · exact hx ‹_›
  · exact hy ‹_›

/-- The loop rule: an invariant that the body keeps for each element, and
that holds again when the body fails. -/
theorem forM {xs : List β} {f : β → EStateM ε σ PUnit}
    (h : ∀ b ∈ xs, Spec pre (f b) (fun _ => pre) fail) :
    Spec pre (xs.forM f) (fun _ => pre) fail := by
  induction xs with
  | nil => exact pure fun _ hs => hs
  | cons b xs ih =>
    exact bind (h b (by simp)) fun _ => ih fun b' hb' => h b' (by simp [hb'])

/-- The same rule for a loop that carries a value. -/
theorem foldlM {xs : List β} {f : α → β → EStateM ε σ α}
    (h : ∀ a, ∀ b ∈ xs, Spec pre (f a b) (fun _ => pre) fail) (a : α) :
    Spec pre (xs.foldlM f a) (fun _ => pre) fail := by
  induction xs generalizing a with
  | nil => exact pure fun _ hs => hs
  | cons b xs ih =>
    rw [List.foldlM_cons]
    exact bind (h a b (by simp)) fun a' => ih (fun c b' hb' => h c b' (by simp [hb'])) a'

end Spec

end OpenKernel.Lib
