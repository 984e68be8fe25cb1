import Mathlib.Data.List.Basic

/-!
# Loops that fold

A loop in a state monad whose body asks an environment and updates an
accumulator.  The environment consists of what the answers depend on, its
`view`, and of the rest, which the questions may change.

* `Reads view w x a`: in an environment with the view `w` the computation `x`
  returns `a` and leaves accumulator and view alone.
* `Folds view w x f`: there `x` applies `f` to the accumulator and leaves the
  view alone.
-/

namespace OpenKernel.Lib

variable {σ ε ω α β : Type} (view : ε → ω) (w : ω)

/-- The computation returns `a` and changes no more than the rest of the
environment. -/
def Reads (x : StateM (σ × ε) α) (a : α) : Prop :=
  ∀ s e, view e = w → ∃ e', view e' = w ∧ x (s, e) = (a, (s, e'))

/-- The computation applies `f` to the accumulator. -/
def Folds (x : StateM (σ × ε) Unit) (f : σ → σ) : Prop :=
  ∀ s e, view e = w → ∃ e', view e' = w ∧ x (s, e) = ((), (f s, e'))

variable {view w}

theorem Reads.pure (a : α) : Reads view w (pure a : StateM (σ × ε) α) a :=
  fun _ e he => ⟨e, he, rfl⟩

theorem Reads.bind {x : StateM (σ × ε) α} {a : α} {k : α → StateM (σ × ε) β} {b : β}
    (hx : Reads view w x a) (hk : Reads view w (k a) b) : Reads view w (x >>= k) b := by
  intro s e he
  obtain ⟨e₁, he₁, hx⟩ := hx s e he
  obtain ⟨e₂, he₂, hk⟩ := hk s e₁ he₁
  refine ⟨e₂, he₂, ?_⟩
  show (let r := x (s, e); k r.1 r.2) = _
  rw [hx]
  exact hk

theorem Folds.pure : Folds view w (pure () : StateM (σ × ε) Unit) id :=
  fun _ e he => ⟨e, he, rfl⟩

/-- An update of the accumulator alone. -/
theorem Folds.modify (f : σ → σ) :
    Folds view w (modify fun se => (f se.1, se.2) : StateM (σ × ε) Unit) f :=
  fun _ e he => ⟨e, he, rfl⟩

/-- A body that asks before it updates. -/
theorem Reads.ask {x : StateM (σ × ε) α} {a : α} {k : α → StateM (σ × ε) Unit} {f : σ → σ}
    (hx : Reads view w x a) (hk : Folds view w (k a) f) : Folds view w (x >>= k) f := by
  intro s e he
  obtain ⟨e₁, he₁, hx⟩ := hx s e he
  obtain ⟨e₂, he₂, hk⟩ := hk s e₁ he₁
  refine ⟨e₂, he₂, ?_⟩
  show (let r := x (s, e); k r.1 r.2) = _
  rw [hx]
  exact hk

/-- One update after the other. -/
theorem Folds.bind {x y : StateM (σ × ε) Unit} {f g : σ → σ} (hx : Folds view w x f)
    (hy : Folds view w y g) : Folds view w (x >>= fun _ => y) fun s => g (f s) := by
  intro s e he
  obtain ⟨e₁, he₁, hx⟩ := hx s e he
  obtain ⟨e₂, he₂, hy⟩ := hy (f s) e₁ he₁
  refine ⟨e₂, he₂, ?_⟩
  show (let r := x (s, e); y r.2) = _
  rw [hx]
  exact hy

/-- A body that looks at the accumulator first. -/
theorem Folds.get {k : σ × ε → StateM (σ × ε) Unit} {f : σ → σ}
    (hk : ∀ s e, view e = w → ∃ g, Folds view w (k (s, e)) g ∧ g s = f s) :
    Folds view w (MonadState.get >>= k) f := by
  intro s e he
  obtain ⟨g, hg, hgs⟩ := hk s e he
  obtain ⟨e', he', hx⟩ := hg s e he
  rw [hgs] at hx
  exact ⟨e', he', hx⟩

theorem Folds.congr {x : StateM (σ × ε) Unit} {f g : σ → σ} (hx : Folds view w x f)
    (hfg : ∀ s, f s = g s) : Folds view w x g := by
  rw [← show f = g from funext hfg]
  exact hx

/-- A loop over a list folds what each turn folds. -/
theorem Folds.forM {as : List α} {x : α → StateM (σ × ε) Unit} {f : α → σ → σ}
    (hx : ∀ a ∈ as, Folds view w (x a) (f a)) :
    Folds view w (as.forM x) fun s => as.foldl (fun s a => f a s) s := by
  induction as with
  | nil => exact Folds.pure
  | cons a as ih =>
    exact (hx a List.mem_cons_self).bind (ih fun b hb => hx b (List.mem_cons_of_mem a hb))

/-- A loop that keeps the first value found is a search. -/
theorem foldl_orElse (g : α → Option β) (as : List α) (s : Option β) :
    as.foldl (fun s a => if s.isNone then g a else s) s = s.or (as.findSome? g) := by
  induction as generalizing s with
  | nil => simp
  | cons a as ih =>
    rw [List.foldl_cons, ih, List.findSome?_cons]
    cases s with
    | none => cases g a <;> rfl
    | some b => rfl

end OpenKernel.Lib
