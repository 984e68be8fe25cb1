import Mathlib.Data.List.Basic
import Mathlib.Logic.Function.Basic

/-!
# Radix trees in a heap

A node of a radix tree is a row of entries, and an entry may refer to
another node of the heap.  A tree has a fixed depth: the entries of its last
level refer to items, which have no entries that matter.

Nothing in the heap says which tree a node belongs to.  A placing does: it
gives each node its owner and the path that leads to it from the owner's root,
the last index first.  `Forest` says that the heap agrees with a placing.
Since a node has one place, no two entries of a forest refer to the same
node.

* `grow` links a blank node to an inner entry, and changes no lookup.
* `fill` and `clear` write an entry of the last level, and change the lookup
  of its path only.
* `plant` starts a new tree, and `fell` takes a whole tree out.
-/

namespace OpenKernel.Lib

variable {O F I E : Type}

/-- How the entries of a heap read, and which of them belong to a tree. -/
structure Radix (O F I E : Type) where
  /-- what an entry refers to -/
  ref : E → Option F
  /-- the entry can be followed -/
  isOpen : E → Bool
  /-- the number of levels -/
  depth : O → Nat
  /-- whether the tree extends over this entry of the node on this path -/
  inside : O → List I → I → Prop

namespace Radix

variable (R : Radix O F I E)

/-- The node behind an entry of an inner node. -/
def follow (e : E) : Option F :=
  if R.isOpen e then R.ref e else none

theorem ref_of_follow {e : E} {g : F} (h : R.follow e = some g) :
    R.ref e = some g := by
  unfold follow at h
  split at h
  · exact h
  · cases h

/-- The node that a list of indices leads to. -/
def walk (heap : F → I → E) : List I → F → Option F
  | [], f => some f
  | i :: is, f => (R.follow (heap f i)).bind (walk heap is)

theorem walk_append (heap : F → I → E) (is js : List I) (f : F) :
    R.walk heap (is ++ js) f = (R.walk heap is f).bind (R.walk heap js) := by
  induction is generalizing f with
  | nil => rfl
  | cons i is ih =>
    show (R.follow (heap f i)).bind (R.walk heap (is ++ js)) =
      ((R.follow (heap f i)).bind (R.walk heap is)).bind (R.walk heap js)
    cases R.follow (heap f i) with
    | none => rfl
    | some g => exact ih g

/-- The entry of the last level on a path, if it refers to something. -/
def entry (heap : F → I → E) (is : List I) (last : I) (f : F) : Option E :=
  (R.walk heap is f).bind fun t =>
    if (R.ref (heap t last)).isSome then some (heap t last) else none

/-- The indices stay inside the tree. -/
def Within (o : O) : List I → List I → Prop
  | _, [] => True
  | path, i :: is => R.inside o path i ∧ Within o (i :: path) is

/-- The heap agrees with the placing. -/
structure Forest (places : F → Option (O × List I)) (heap : F → I → E) :
    Prop where
  child : ∀ {f o path i g}, places f = some (o, path) →
    path.length < R.depth o → R.inside o path i → R.ref (heap f i) = some g →
      places g = some (o, i :: path)
  opens : ∀ {f o path i g}, places f = some (o, path) →
    path.length + 1 < R.depth o → R.inside o path i →
      R.ref (heap f i) = some g → R.isOpen (heap f i) = true
  parent : ∀ {g o i path}, places g = some (o, i :: path) →
    path.length < R.depth o ∧ R.inside o path i ∧
      ∃ f, places f = some (o, path) ∧ R.ref (heap f i) = some g
  root : ∀ {f f' o}, places f = some (o, []) → places f' = some (o, []) → f = f'

variable {R} {places : F → Option (O × List I)} {heap heap' : F → I → E}
  {o : O} {path : List I} {f g t : F} {i : I}

namespace Forest

/-- Different nodes have different places. -/
theorem unique (h : R.Forest places heap) {g' : F}
    (hg : places g = some (o, path)) (hg' : places g' = some (o, path)) :
    g = g' := by
  induction path generalizing g g' with
  | nil => exact h.root hg hg'
  | cons i path ih =>
    obtain ⟨-, -, f, hf, href⟩ := h.parent hg
    obtain ⟨-, -, f', hf', href'⟩ := h.parent hg'
    rw [ih hf hf', href'] at href
    exact (Option.some.inj href).symm

theorem length_le (h : R.Forest places heap) (hg : places g = some (o, path)) :
    path.length ≤ R.depth o := by
  cases path with
  | nil => exact Nat.zero_le _
  | cons i path => exact (h.parent hg).1

/-- No two entries of a forest refer to the same node. -/
theorem ref_inj (h : R.Forest places heap) {f' : F} {o' : O} {path' : List I}
    {i' : I} (hf : places f = some (o, path)) (hlt : path.length < R.depth o)
    (hi : R.inside o path i) (href : R.ref (heap f i) = some g)
    (hf' : places f' = some (o', path')) (hlt' : path'.length < R.depth o')
    (hi' : R.inside o' path' i') (href' : R.ref (heap f' i') = some g) :
    f = f' ∧ i = i' := by
  have hg := h.child hf hlt hi href
  have hg' := h.child hf' hlt' hi' href'
  rw [hg] at hg'
  obtain ⟨rfl, hpath⟩ := Prod.mk.inj (Option.some.inj hg')
  obtain ⟨rfl, rfl⟩ := List.cons.inj hpath
  exact ⟨h.unique hf hf', rfl⟩

/-- A walk leads to the node whose place continues the start's. -/
theorem walk_place (h : R.Forest places heap) {is : List I}
    (hf : places f = some (o, path)) (hlen : path.length + is.length ≤ R.depth o)
    (hin : R.Within o path is) (hw : R.walk heap is f = some t) :
    places t = some (o, is.reverse ++ path) := by
  induction is generalizing f path with
  | nil =>
    obtain rfl := Option.some.inj hw
    exact hf
  | cons i is ih =>
    obtain ⟨hi, hrest⟩ := hin
    rw [List.length_cons] at hlen
    obtain ⟨g, hg, hw⟩ := Option.bind_eq_some_iff.mp hw
    have hplace := h.child hf (by omega) hi (R.ref_of_follow hg)
    have := ih hplace (by rw [List.length_cons]; omega) hrest hw
    rw [this, List.reverse_cons, List.append_assoc]
    rfl

/-- What a present inner entry leads to. -/
theorem follow_eq (h : R.Forest places heap) (hf : places f = some (o, path))
    (hlen : path.length + 1 < R.depth o) (hi : R.inside o path i) :
    R.follow (heap f i) = R.ref (heap f i) := by
  unfold follow
  cases hr : R.ref (heap f i) with
  | none => exact ite_self none
  | some g => exact if_pos (h.opens hf hlen hi hr)

end Forest

/-! ## A new inner node -/

/-- The entry `i` of `t`, which referred to nothing, is linked to the blank
node `g`. -/
structure Grown (R : Radix O F I E) (heap heap' : F → I → E) (t : F) (i : I)
    (g : F) : Prop where
  other : ∀ f, f ≠ t → f ≠ g → heap' f = heap f
  row : ∀ j, j ≠ i → heap' t j = heap t j
  absent : R.ref (heap t i) = none
  link : R.ref (heap' t i) = some g
  opens : R.isOpen (heap' t i) = true
  blank : ∀ j, R.ref (heap' g j) = none

namespace Grown

theorem follow_link (hg : R.Grown heap heap' t i g) :
    R.follow (heap' t i) = some g := by
  unfold follow
  rw [if_pos hg.opens, hg.link]

theorem follow_absent (hg : R.Grown heap heap' t i g) :
    R.follow (heap t i) = none := by
  unfold follow
  rw [hg.absent]
  exact ite_self none

theorem follow_blank (hg : R.Grown heap heap' t i g) (j : I) :
    R.follow (heap' g j) = none := by
  unfold follow
  rw [hg.blank]
  exact ite_self none

/-- A walk from the new node stays there. -/
theorem walk_blank (hg : R.Grown heap heap' t i g) {is : List I} {u : F}
    (hw : R.walk heap' is g = some u) : is = [] ∧ u = g := by
  cases is with
  | nil => exact ⟨rfl, (Option.some.inj hw).symm⟩
  | cons j is =>
    obtain ⟨v, hv, -⟩ := Option.bind_eq_some_iff.mp hw
    rw [hg.follow_blank] at hv
    cases hv

end Grown

/-- The forest with the new node. -/
theorem Forest.grow [DecidableEq F] (h : R.Forest places heap) (hg : R.Grown heap heap' t i g)
    (ht : places t = some (o, path)) (hlen : path.length + 1 < R.depth o)
    (hi : R.inside o path i) (hfresh : places g = none) :
    R.Forest (Function.update places g (some (o, i :: path))) heap' := by
  have htg : t ≠ g := by
    rintro rfl
    rw [hfresh] at ht
    cases ht
  have hplaced : ∀ {f x}, places f = some x →
      Function.update places g (some (o, i :: path)) f = some x := by
    intro f x hf
    rw [Function.update_of_ne, hf]
    rintro rfl
    rw [hfresh] at hf
    cases hf
  have hcases : ∀ {f x}, Function.update places g (some (o, i :: path)) f = some x →
      f = g ∧ x = (o, i :: path) ∨ f ≠ g ∧ places f = some x := by
    intro f x hf
    by_cases hfg : f = g
    · rw [hfg, Function.update_self] at hf
      exact .inl ⟨hfg, (Option.some.inj hf).symm⟩
    · rw [Function.update_of_ne hfg] at hf
      exact .inr ⟨hfg, hf⟩
  -- An old node has the old entries, but for the new link.
  have hentry : ∀ {f x j}, f ≠ g → R.ref (heap' f j) = some x →
      f = t ∧ j = i ∧ x = g ∨ heap' f j = heap f j ∧ R.ref (heap f j) = some x := by
    classical
    intro f x j hfg hx
    by_cases hft : f = t
    · by_cases hji : j = i
      · rw [hft, hji, hg.link] at hx
        exact .inl ⟨hft, hji, (Option.some.inj hx).symm⟩
      · rw [hft, hg.row j hji] at hx
        exact .inr ⟨by rw [hft, hg.row j hji], by rw [hft]; exact hx⟩
    · rw [hg.other f hft hfg] at hx
      exact .inr ⟨by rw [hg.other f hft hfg], hx⟩
  refine ⟨fun hf hlt hin hr => ?_, fun hf hlt hin hr => ?_, fun hf => ?_, fun hf hf' => ?_⟩
  · rcases hcases hf with ⟨rfl, -⟩ | ⟨hne, hold⟩
    · rw [hg.blank] at hr
      cases hr
    · rcases hentry hne hr with ⟨rfl, rfl, rfl⟩ | ⟨-, hr⟩
      · have hsame := Option.some.inj (ht.symm.trans hold)
        obtain ⟨rfl, rfl⟩ := Prod.mk.inj hsame
        exact Function.update_self _ _ _
      · exact hplaced (h.child hold hlt hin hr)
  · rcases hcases hf with ⟨rfl, -⟩ | ⟨hne, hf⟩
    · rw [hg.blank] at hr
      cases hr
    · rcases hentry hne hr with ⟨rfl, rfl, rfl⟩ | ⟨heq, hr⟩
      · exact hg.opens
      · rw [heq]
        exact h.opens hf hlt hin hr
  · rcases hcases hf with ⟨rfl, heq⟩ | ⟨hne, hf⟩
    · obtain ⟨rfl, hpath⟩ := Prod.mk.inj heq
      obtain ⟨rfl, rfl⟩ := List.cons.inj hpath
      exact ⟨by omega, hi, t, hplaced ht, hg.link⟩
    · obtain ⟨hlt, hin, u, hu, hr⟩ := h.parent hf
      refine ⟨hlt, hin, u, hplaced hu, ?_⟩
      by_cases hut : u = t
      · rw [hut] at hr ⊢
        rw [hg.row _ fun hj => ?_]
        · exact hr
        · rw [hj, hg.absent] at hr
          cases hr
      · rw [hg.other u hut fun heq => ?_]
        · exact hr
        · rw [heq, hfresh] at hu
          cases hu
  · rcases hcases hf with ⟨-, heq⟩ | ⟨-, hf⟩
    · cases (Prod.mk.inj heq).2
    · rcases hcases hf' with ⟨-, heq⟩ | ⟨-, hf'⟩
      · cases (Prod.mk.inj heq).2
      · exact h.root hf hf'

/-- Old walks go on, and new ones end at the new node. -/
theorem Forest.walk_grow (h : R.Forest places heap)
    (hg : R.Grown heap heap' t i g) (hfresh : places g = none) {is : List I}
    (hf : places f = some (o, path)) (hlen : path.length + is.length ≤ R.depth o)
    (hin : R.Within o path is) :
    R.walk heap' is f = R.walk heap is f ∨
      R.walk heap' is f = some g ∧ R.walk heap is f = none := by
  induction is generalizing f path with
  | nil => exact .inl rfl
  | cons j is ih =>
    obtain ⟨hj, hrest⟩ := hin
    rw [List.length_cons] at hlen
    have hfg : f ≠ g := by
      rintro rfl
      rw [hfresh] at hf
      cases hf
    unfold walk
    classical
    by_cases hhit : f = t ∧ j = i
    · obtain ⟨rfl, rfl⟩ := hhit
      rw [hg.follow_link, hg.follow_absent]
      show R.walk heap' is g = none ∨ R.walk heap' is g = some g ∧ none = none
      cases hw : R.walk heap' is g with
      | none => exact .inl rfl
      | some u => exact .inr ⟨by rw [(hg.walk_blank hw).2], rfl⟩
    · have hsame : heap' f j = heap f j := by
        by_cases hft : f = t
        · rw [hft]
          exact hg.row j fun hji => hhit ⟨hft, hji⟩
        · rw [hg.other f hft hfg]
      rw [hsame]
      cases hfollow : R.follow (heap f j) with
      | none => exact .inl rfl
      | some u =>
        have href := R.ref_of_follow hfollow
        exact ih (h.child hf (by omega) hj href)
          (by rw [List.length_cons]; omega) hrest

/-- A new inner node changes no lookup. -/
theorem Forest.entry_grow (h : R.Forest places heap)
    (hg : R.Grown heap heap' t i g) (ht : places t = some (o, path))
    (hlen : path.length + 1 < R.depth o) (hfresh : places g = none)
    {o' : O} {path' is : List I} (hf : places f = some (o', path'))
    (hdepth : path'.length + is.length + 1 = R.depth o')
    (hin : R.Within o' path' is) (last : I) :
    R.entry heap' is last f = R.entry heap is last f := by
  unfold entry
  rcases h.walk_grow hg hfresh hf (by omega) hin with hw | ⟨hw, hw'⟩
  · rw [hw]
    cases hu : R.walk heap is f with
    | none => rfl
    | some u =>
      have hplace := h.walk_place hf (by omega) hin hu
      have hut : u ≠ t := by
        rintro rfl
        rw [ht] at hplace
        obtain ⟨rfl, rfl⟩ := Prod.mk.inj (Option.some.inj hplace)
        rw [List.length_append, List.length_reverse] at hlen
        omega
      have hug : u ≠ g := by
        rintro rfl
        rw [hfresh] at hplace
        cases hplace
      show (if (R.ref (heap' u last)).isSome then some (heap' u last) else none) =
        if (R.ref (heap u last)).isSome then some (heap u last) else none
      rw [hg.other u hut hug]
  · rw [hw, hw']
    show (if (R.ref (heap' g last)).isSome then some (heap' g last) else none) = none
    rw [hg.blank]
    rfl

/-! ## Writing the last level -/

/-- The entry `last` of `t` has changed. -/
structure Wrote (heap heap' : F → I → E) (t : F) (last : I) : Prop where
  other : ∀ f, f ≠ t → heap' f = heap f
  row : ∀ j, j ≠ last → heap' t j = heap t j

section Write

variable {last : I} {p : F}

theorem Wrote.eq_or (hw : Wrote heap heap' t last) (f : F) (j : I) :
    f = t ∧ j = last ∨ heap' f j = heap f j := by
  classical
  by_cases hft : f = t
  · by_cases hj : j = last
    · exact .inl ⟨hft, hj⟩
    · rw [hft]
      exact .inr (hw.row j hj)
  · rw [hw.other f hft]
    exact .inr rfl

/-- Walks do not read the last level. -/
theorem Forest.walk_wrote (h : R.Forest places heap) (hw : Wrote heap heap' t last)
    (ht : places t = some (o, path)) (hlen : path.length + 1 = R.depth o)
    {o' : O} {path' is : List I} (hf : places f = some (o', path'))
    (hdepth : path'.length + is.length + 1 ≤ R.depth o')
    (hin : R.Within o' path' is) : R.walk heap' is f = R.walk heap is f := by
  induction is generalizing f path' with
  | nil => rfl
  | cons j is ih =>
    obtain ⟨hj, hrest⟩ := hin
    rw [List.length_cons] at hdepth
    have hft : f ≠ t := by
      rintro rfl
      rw [ht] at hf
      obtain ⟨rfl, rfl⟩ := Prod.mk.inj (Option.some.inj hf)
      omega
    unfold walk
    rw [hw.other f hft]
    cases hfollow : R.follow (heap f j) with
    | none => rfl
    | some u =>
      have href := R.ref_of_follow hfollow
      exact ih (h.child hf (by omega) hj href) (by rw [List.length_cons]; omega) hrest

/-- The lookup that ends at the written entry reads it. -/
theorem Forest.entry_wrote_self (h : R.Forest places heap)
    (hw : Wrote heap heap' t last) (ht : places t = some (o, path))
    (hlen : path.length + 1 = R.depth o) {o' : O} {path' is : List I}
    (hf : places f = some (o', path'))
    (hdepth : path'.length + is.length + 1 = R.depth o')
    (hin : R.Within o' path' is) (hwalk : R.walk heap is f = some t) :
    R.entry heap' is last f =
      if (R.ref (heap' t last)).isSome then some (heap' t last) else none := by
  unfold entry
  rw [h.walk_wrote hw ht hlen hf (by omega) hin, hwalk]
  rfl

/-- Every other lookup stays. -/
theorem Forest.entry_wrote_other (h : R.Forest places heap)
    (hw : Wrote heap heap' t last) (ht : places t = some (o, path))
    (hlen : path.length + 1 = R.depth o) {o' : O} {path' is : List I}
    (hf : places f = some (o', path'))
    (hdepth : path'.length + is.length + 1 = R.depth o')
    (hin : R.Within o' path' is) {j : I}
    (hne : ¬ (o' = o ∧ is.reverse ++ path' = path ∧ j = last)) :
    R.entry heap' is j f = R.entry heap is j f := by
  unfold entry
  rw [h.walk_wrote hw ht hlen hf (by omega) hin]
  cases hu : R.walk heap is f with
  | none => rfl
  | some u =>
    have hplace := h.walk_place hf (by omega) hin hu
    show (if (R.ref (heap' u j)).isSome then some (heap' u j) else none) =
      if (R.ref (heap u j)).isSome then some (heap u j) else none
    rcases hw.eq_or u j with ⟨rfl, rfl⟩ | hsame
    · rw [ht] at hplace
      obtain ⟨rfl, rfl⟩ := Prod.mk.inj (Option.some.inj hplace)
      exact absurd ⟨rfl, rfl, rfl⟩ hne
    · rw [hsame]

/-- An entry of the last level gets an item that has no place yet. -/
theorem Forest.fill [DecidableEq F] (h : R.Forest places heap) (hw : Wrote heap heap' t last)
    (ht : places t = some (o, path)) (hlen : path.length + 1 = R.depth o)
    (hi : R.inside o path last) (habsent : R.ref (heap t last) = none)
    (href : R.ref (heap' t last) = some p) (hfresh : places p = none) :
    R.Forest (Function.update places p (some (o, last :: path))) heap' := by
  have hplaced : ∀ {f x}, places f = some x →
      Function.update places p (some (o, last :: path)) f = some x := by
    intro f x hf
    rw [Function.update_of_ne, hf]
    rintro rfl
    rw [hfresh] at hf
    cases hf
  have hcases : ∀ {f x},
      Function.update places p (some (o, last :: path)) f = some x →
        f = p ∧ x = (o, last :: path) ∨ places f = some x := by
    intro f x hf
    by_cases hfp : f = p
    · rw [hfp, Function.update_self] at hf
      exact .inl ⟨hfp, (Option.some.inj hf).symm⟩
    · rw [Function.update_of_ne hfp] at hf
      exact .inr hf
  refine ⟨?_, ?_, ?_, fun hf hf' => ?_⟩
  · intro f o' path' j u hf hlt hin hr
    rcases hcases hf with ⟨-, heq⟩ | hold
    · obtain ⟨rfl, rfl⟩ := Prod.mk.inj heq
      rw [List.length_cons] at hlt
      omega
    · rcases hw.eq_or f j with ⟨rfl, rfl⟩ | hsame
      · rw [ht] at hold
        obtain ⟨rfl, rfl⟩ := Prod.mk.inj (Option.some.inj hold)
        rw [href] at hr
        rw [← Option.some.inj hr]
        exact Function.update_self _ _ _
      · rw [hsame] at hr
        exact hplaced (h.child hold hlt hin hr)
  · intro f o' path' j u hf hlt hin hr
    rcases hcases hf with ⟨-, heq⟩ | hold
    · obtain ⟨rfl, rfl⟩ := Prod.mk.inj heq
      rw [List.length_cons] at hlt
      omega
    · have hft : f ≠ t := by
        rintro rfl
        rw [ht] at hold
        obtain ⟨rfl, rfl⟩ := Prod.mk.inj (Option.some.inj hold)
        omega
      rw [hw.other f hft] at hr ⊢
      exact h.opens hold hlt hin hr
  · intro x o' j path' hf
    rcases hcases hf with ⟨rfl, heq⟩ | hf
    · obtain ⟨rfl, hpath⟩ := Prod.mk.inj heq
      obtain ⟨rfl, rfl⟩ := List.cons.inj hpath
      exact ⟨by omega, hi, t, hplaced ht, href⟩
    · obtain ⟨hlt, hin, u, hu, hr⟩ := h.parent hf
      refine ⟨hlt, hin, u, hplaced hu, ?_⟩
      rcases hw.eq_or u j with ⟨rfl, rfl⟩ | hsame
      · rw [habsent] at hr
        cases hr
      · rw [hsame]
        exact hr
  · rcases hcases hf with ⟨-, heq⟩ | hf
    · cases (Prod.mk.inj heq).2
    · rcases hcases hf' with ⟨-, heq⟩ | hf'
      · cases (Prod.mk.inj heq).2
      · exact h.root hf hf'

/-- An entry of the last level loses its item. -/
theorem Forest.clear [DecidableEq F] (h : R.Forest places heap) (hw : Wrote heap heap' t last)
    (ht : places t = some (o, path)) (hlen : path.length + 1 = R.depth o)
    (hi : R.inside o path last) (href : R.ref (heap t last) = some p)
    (habsent : R.ref (heap' t last) = none) :
    R.Forest (Function.update places p none) heap' := by
  have hp := h.child ht (by omega) hi href
  have hcases : ∀ {f x}, Function.update places p none f = some x →
      f ≠ p ∧ places f = some x := by
    intro f x hf
    by_cases hfp : f = p
    · rw [hfp, Function.update_self] at hf
      cases hf
    · rw [Function.update_of_ne hfp] at hf
      exact ⟨hfp, hf⟩
  refine ⟨?_, ?_, ?_, fun hf hf' => ?_⟩
  · intro f o' path' j u hf hlt hin hr
    obtain ⟨-, hold⟩ := hcases hf
    rcases hw.eq_or f j with ⟨rfl, rfl⟩ | hsame
    · rw [habsent] at hr
      cases hr
    · rw [hsame] at hr
      rw [Function.update_of_ne, h.child hold hlt hin hr]
      rintro rfl
      obtain ⟨rfl, rfl⟩ := h.ref_inj hold hlt hin hr ht (by omega) hi href
      rw [hsame, href] at habsent
      cases habsent
  · intro f o' path' j u hf hlt hin hr
    obtain ⟨-, hf⟩ := hcases hf
    have hft : f ≠ t := by
      rintro rfl
      rw [ht] at hf
      obtain ⟨rfl, rfl⟩ := Prod.mk.inj (Option.some.inj hf)
      omega
    rw [hw.other f hft] at hr ⊢
    exact h.opens hf hlt hin hr
  · intro x o' j path' hf
    obtain ⟨hne, hf⟩ := hcases hf
    obtain ⟨hlt, hin, u, hu, hr⟩ := h.parent hf
    refine ⟨hlt, hin, u, ?_, ?_⟩
    · rw [Function.update_of_ne, hu]
      rintro rfl
      rw [hp] at hu
      obtain ⟨rfl, rfl⟩ := Prod.mk.inj (Option.some.inj hu)
      rw [List.length_cons] at hlt
      omega
    · rcases hw.eq_or u j with ⟨rfl, rfl⟩ | hsame
      · rw [href] at hr
        exact absurd (Option.some.inj hr).symm hne
      · rw [hsame]
        exact hr
  · exact h.root (hcases hf).2 (hcases hf').2

end Write

/-! ## Whole trees -/

/-- A forest depends on the entries inside its trees only. -/
theorem Forest.congr (h : R.Forest places heap)
    (hsame : ∀ f o path i, places f = some (o, path) → path.length < R.depth o →
      R.inside o path i → heap' f i = heap f i) : R.Forest places heap' := by
  refine ⟨fun hf hlt hin hr => ?_, fun hf hlt hin hr => ?_, fun hg => ?_, h.root⟩
  · rw [hsame _ _ _ _ hf hlt hin] at hr
    exact h.child hf hlt hin hr
  · rw [hsame _ _ _ _ hf (by omega) hin] at hr ⊢
    exact h.opens hf hlt hin hr
  · obtain ⟨hlt, hin, u, hu, hr⟩ := h.parent hg
    exact ⟨hlt, hin, u, hu, by rw [hsame _ _ _ _ hu hlt hin]; exact hr⟩

/-- A walk depends on the entries inside its tree only. -/
theorem Forest.walk_congr (h : R.Forest places heap) {is : List I}
    (hsame : ∀ f path i, places f = some (o, path) → path.length < R.depth o →
      R.inside o path i → heap' f i = heap f i)
    (hf : places f = some (o, path)) (hlen : path.length + is.length ≤ R.depth o)
    (hin : R.Within o path is) : R.walk heap' is f = R.walk heap is f := by
  induction is generalizing f path with
  | nil => rfl
  | cons i is ih =>
    obtain ⟨hi, hrest⟩ := hin
    rw [List.length_cons] at hlen
    unfold walk
    rw [hsame f path i hf (by omega) hi]
    cases hfollow : R.follow (heap f i) with
    | none => rfl
    | some u =>
      have href := R.ref_of_follow hfollow
      exact ih (h.child hf (by omega) hi href) (by rw [List.length_cons]; omega) hrest

/-- Every tree has a root. -/
theorem Forest.exists_root (h : R.Forest places heap)
    (hg : places g = some (o, path)) : ∃ r, places r = some (o, []) := by
  induction path generalizing g with
  | nil => exact ⟨g, hg⟩
  | cons i path ih =>
    obtain ⟨-, -, f, hf, -⟩ := h.parent hg
    exact ih hf

/-- The walk from the root along the path of a node that is not a leaf. -/
theorem Forest.walk_to (h : R.Forest places heap) (hf : places f = some (o, []))
    (hg : places g = some (o, path)) (hlen : path.length < R.depth o) :
    R.walk heap path.reverse f = some g := by
  induction path generalizing g with
  | nil =>
    rw [h.root hf hg]
    rfl
  | cons i path ih =>
    rw [List.length_cons] at hlen
    obtain ⟨-, hi, u, hu, href⟩ := h.parent hg
    rw [List.reverse_cons, walk_append, ih hu (by omega), Option.bind_some]
    show (R.follow (heap u i)).bind _ = _
    rw [h.follow_eq hu hlen hi, href]
    rfl

/-- A node keeps its place in any forest over the same heap that has the same
roots. -/
theorem Forest.place_of_roots {places' : F → Option (O × List I)}
    (h : R.Forest places heap) (h' : R.Forest places' heap)
    (hroots : ∀ f o, places f = some (o, []) → places' f = some (o, []))
    (hg : places g = some (o, path)) : places' g = some (o, path) := by
  induction path generalizing g with
  | nil => exact hroots g o hg
  | cons i path ih =>
    obtain ⟨hlen, hi, f, hf, href⟩ := h.parent hg
    exact h'.child (ih hf) hlen hi href

/-- The roots determine the placing. -/
theorem Forest.places_eq {places' : F → Option (O × List I)} (h : R.Forest places heap)
    (h' : R.Forest places' heap)
    (hroots : ∀ f o, places f = some (o, []) ↔ places' f = some (o, [])) :
    places = places' := by
  funext f
  refine Option.ext fun x => ⟨fun hf => ?_, fun hf => ?_⟩
  · exact h.place_of_roots h' (fun f o => (hroots f o).mp) hf
  · exact h'.place_of_roots h (fun f o => (hroots f o).mpr) hf

/-- A blank node becomes the root of a new tree. -/
theorem Forest.plant [DecidableEq F] (h : R.Forest places heap)
    (hother : ∀ f, f ≠ g → heap' f = heap f)
    (hblank : ∀ i, R.inside o [] i → R.ref (heap' g i) = none)
    (hfresh : places g = none) (hnew : ∀ f, places f ≠ some (o, [])) :
    R.Forest (Function.update places g (some (o, []))) heap' := by
  have hplaced : ∀ {f x}, places f = some x →
      f ≠ g ∧ Function.update places g (some (o, [])) f = some x := by
    intro f x hf
    have hfg : f ≠ g := by
      rintro rfl
      rw [hfresh] at hf
      cases hf
    exact ⟨hfg, by rw [Function.update_of_ne hfg, hf]⟩
  have hcases : ∀ {f x}, Function.update places g (some (o, [])) f = some x →
      f = g ∧ x = (o, []) ∨ f ≠ g ∧ places f = some x := by
    intro f x hf
    by_cases hfg : f = g
    · rw [hfg, Function.update_self] at hf
      exact .inl ⟨hfg, (Option.some.inj hf).symm⟩
    · rw [Function.update_of_ne hfg] at hf
      exact .inr ⟨hfg, hf⟩
  refine ⟨?_, ?_, ?_, ?_⟩
  · intro f o' path' j u hf hlt hin hr
    rcases hcases hf with ⟨rfl, heq⟩ | ⟨hne, hold⟩
    · obtain ⟨rfl, rfl⟩ := Prod.mk.inj heq
      rw [hblank j hin] at hr
      cases hr
    · rw [hother f hne] at hr
      exact (hplaced (h.child hold hlt hin hr)).2
  · intro f o' path' j u hf hlt hin hr
    rcases hcases hf with ⟨rfl, heq⟩ | ⟨hne, hold⟩
    · obtain ⟨rfl, rfl⟩ := Prod.mk.inj heq
      rw [hblank j hin] at hr
      cases hr
    · rw [hother f hne] at hr ⊢
      exact h.opens hold hlt hin hr
  · intro x o' j path' hx
    rcases hcases hx with ⟨-, heq⟩ | ⟨-, hold⟩
    · cases (Prod.mk.inj heq).2
    · obtain ⟨hlt, hin, u, hu, hr⟩ := h.parent hold
      obtain ⟨hug, hu'⟩ := hplaced hu
      exact ⟨hlt, hin, u, hu', by rw [hother u hug]; exact hr⟩
  · intro f f' o' hf hf'
    rcases hcases hf with ⟨hfg, heq⟩ | ⟨-, hold⟩
    · obtain ⟨rfl, -⟩ := Prod.mk.inj heq
      rcases hcases hf' with ⟨hfg', -⟩ | ⟨-, hold'⟩
      · rw [hfg, hfg']
      · exact absurd hold' (hnew f')
    · rcases hcases hf' with ⟨-, heq⟩ | ⟨-, hold'⟩
      · obtain ⟨rfl, -⟩ := Prod.mk.inj heq
        exact absurd hold (hnew f)
      · exact h.root hold hold'

/-- A whole tree is taken out of the forest. -/
theorem Forest.fell {places' : F → Option (O × List I)} (h : R.Forest places heap)
    (hkeep : ∀ f o' path', places' f = some (o', path') ↔
      o' ≠ o ∧ places f = some (o', path'))
    (hsame : ∀ f o' path' i, places f = some (o', path') → o' ≠ o →
      R.inside o' path' i → heap' f i = heap f i) :
    R.Forest places' heap' := by
  refine ⟨?_, ?_, ?_, ?_⟩
  · intro f o' path' j u hf hlt hin hr
    obtain ⟨hne, hold⟩ := (hkeep f o' path').mp hf
    rw [hsame f o' path' j hold hne hin] at hr
    exact (hkeep _ _ _).mpr ⟨hne, h.child hold hlt hin hr⟩
  · intro f o' path' j u hf hlt hin hr
    obtain ⟨hne, hold⟩ := (hkeep f o' path').mp hf
    rw [hsame f o' path' j hold hne hin] at hr ⊢
    exact h.opens hold hlt hin hr
  · intro x o' j path' hx
    obtain ⟨hne, hold⟩ := (hkeep x o' (j :: path')).mp hx
    obtain ⟨hlt, hin, u, hu, hr⟩ := h.parent hold
    refine ⟨hlt, hin, u, (hkeep _ _ _).mpr ⟨hne, hu⟩, ?_⟩
    rw [hsame u o' path' j hu hne hin]
    exact hr
  · intro f f' o' hf hf'
    exact h.root ((hkeep _ _ _).mp hf).2 ((hkeep _ _ _).mp hf').2

end Radix

end OpenKernel.Lib
