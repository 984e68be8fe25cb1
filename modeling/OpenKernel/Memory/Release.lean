import OpenKernel.Memory.Ownership

/-!
# Releasing a tree

`release_user_table` walks the tree below a table and frees every frame of
it.  While it runs, the tables that it has not reached yet are as they were,
so the proof keeps the words of the forest fixed and counts which frames are
gone: `Released` says that exactly the frames of a set have been freed and
that no other frame has changed.
-/

namespace OpenKernel

open Lib

/-- The frames of a tree from the node on `path` down. -/
def Below (places : Places) (o : Owner) (path : List Nat) (f : Nat) : Prop :=
  ∃ rest, places f = some (o, rest ++ path)

/-- Exactly the frames in `gone` have been freed, and no other has changed. -/
structure Released (gone : Nat → Prop) (m m' : Memory) : Prop where
  words : ∀ f, ¬ gone f → m'.words f = m.words f
  freed : ∀ f, gone f → m'.frames.IsFree f ∧ ¬ m'.frames.IsAllocated f
  frames : ∀ f, ¬ gone f →
    (m'.frames.IsFree f ↔ m.frames.IsFree f) ∧
      (m'.frames.IsAllocated f ↔ m.frames.IsAllocated f)
  cr3 : m'.cr3 = m.cr3
  offset : m'.physicalMemoryOffset = m.physicalMemoryOffset

namespace Released

variable {gone gone' : Nat → Prop} {m m' m'' : Memory} {frame : Nat}

theorem congr (h : Released gone m m') (hiff : ∀ f, gone' f ↔ gone f) :
    Released gone' m m' where
  words f hf := h.words f (mt (hiff f).mpr hf)
  freed f hf := h.freed f ((hiff f).mp hf)
  frames f hf := h.frames f (mt (hiff f).mpr hf)
  cr3 := h.cr3
  offset := h.offset

/-- Nothing is released. -/
theorem none (h : ∀ f, ¬ gone f) : Released gone m m where
  words _ _ := rfl
  freed f hf := absurd hf (h f)
  frames _ _ := ⟨Iff.rfl, Iff.rfl⟩
  cr3 := rfl
  offset := rfl

/-- One frame is given back. -/
theorem freePhysicalFrame (h : m.frames.IsAllocated frame) :
    Released (· = frame) m (m.freePhysicalFrame frame) where
  words _ _ := rfl
  freed f hf := by
    rw [hf]
    exact FrameAllocator.isFree_free_self h
  frames _ hf := FrameAllocator.free_other hf
  cr3 := rfl
  offset := rfl

/-- Two releases of different frames, one after the other. -/
theorem trans (h : Released gone m m') (h' : Released gone' m' m'')
    (hdisjoint : ∀ f, gone f → ¬ gone' f) :
    Released (fun f => gone f ∨ gone' f) m m'' where
  words f hf := by
    rw [not_or] at hf
    exact (h'.words f hf.2).trans (h.words f hf.1)
  freed f hf := by
    rcases hf with hf | hf
    · have hfree := h.freed f hf
      have hsame := h'.frames f (hdisjoint f hf)
      exact ⟨hsame.1.mpr hfree.1, mt hsame.2.mp hfree.2⟩
    · exact h'.freed f hf
  frames f hf := by
    rw [not_or] at hf
    have h₁ := h.frames f hf.1
    have h₂ := h'.frames f hf.2
    exact ⟨h₂.1.trans h₁.1, h₂.2.trans h₁.2⟩
  cr3 := h'.cr3.trans h.cr3
  offset := h'.offset.trans h.offset

end Released

/-! ## The entries of one table -/

section Table

variable {places : Places} {heap : Nat → Nat → Nat} {o : Owner}
  {path : List Nat} {frame : Nat}

theorem below_disjoint {i j : Nat} (hij : i ≠ j) {f : Nat}
    (hi : Below places o (i :: path) f) : ¬ Below places o (j :: path) f := by
  rintro ⟨rest', hj⟩
  obtain ⟨rest, hi⟩ := hi
  rw [hi] at hj
  have hpath := (Prod.mk.inj (Option.some.inj hj)).2
  have htail := (List.append_inj' hpath rfl).2
  exact hij (List.cons.inj htail).1

theorem not_below_child (hframe : places frame = some (o, path)) (i : Nat) :
    ¬ Below places o (i :: path) frame := by
  rintro ⟨rest, hf⟩
  rw [hframe] at hf
  have hpath := (Prod.mk.inj (Option.some.inj hf)).2
  have hlen := congrArg List.length hpath
  rw [List.length_append, List.length_cons] at hlen
  omega

/-- What lies below an entry hangs on it. -/
theorem inside_of_below (hforest : pageTree.Forest places heap) {i f : Nat}
    (hf : Below places o (i :: path) f) : pageTree.inside o path i := by
  obtain ⟨rest, hf⟩ := hf
  induction rest generalizing f with
  | nil => exact (hforest.parent hf).2.1
  | cons j rest ih =>
    obtain ⟨-, -, u, hu, -⟩ := hforest.parent hf
    exact ih hu

/-- What lies below a table is the table and what lies below its entries. -/
theorem below_iff (hforest : pageTree.Forest places heap)
    (hframe : places frame = some (o, path)) (f : Nat) :
    Below places o path f ↔
      f = frame ∨ ∃ i, pageTree.inside o path i ∧ Below places o (i :: path) f := by
  constructor
  · rintro ⟨rest, hf⟩
    rcases List.eq_nil_or_concat rest with rfl | ⟨front, i, rfl⟩
    · exact .inl (hforest.unique hf hframe)
    · have hbelow : Below places o (i :: path) f :=
        ⟨front, by rw [hf, List.concat_eq_append, List.append_assoc]; rfl⟩
      exact .inr ⟨i, inside_of_below hforest hbelow, hbelow⟩
  · rintro (rfl | ⟨i, -, rest, hf⟩)
    · exact ⟨[], hframe⟩
    · exact ⟨rest ++ [i], by rw [hf, List.append_assoc]; rfl⟩

/-- Nothing lies below an absent entry. -/
theorem not_below_of_absent (hforest : pageTree.Forest places heap)
    (hframe : places frame = some (o, path)) {i : Nat}
    (habsent : ¬ Present (heap frame i)) (f : Nat) :
    ¬ Below places o (i :: path) f := by
  rintro ⟨rest, hf⟩
  induction rest generalizing f with
  | nil =>
    obtain ⟨-, -, u, hu, hr⟩ := hforest.parent hf
    rw [hforest.unique hu hframe] at hr
    exact habsent (ref_eq_some hr).1
  | cons j rest ih =>
    obtain ⟨-, -, u, hu, -⟩ := hforest.parent hf
    exact ih u hu

/-- The state of the loop over the entries of a table, before entry `n`. -/
structure Clearing (places : Places) (o : Owner) (path : List Nat)
    (frame n : Nat) (m m' : Memory) : Prop where
  released : Released (fun f => ∃ i, i < n ∧ Below places o (i :: path) f) m
    { m' with words := put m'.words frame (m.words frame) }
  row : ∀ i, n ≤ i → m'.words frame i = m.words frame i

end Table

namespace Clearing

variable {places : Places} {heap : Nat → Nat → Nat} {o : Owner}
  {path : List Nat} {frame n : Nat} {m m' m'' : Memory}

theorem start : Clearing places o path frame 0 m m where
  released := by
    rw [put_self]
    exact .none fun f hf => Nat.not_lt_zero _ hf.choose_spec.1
  row _ _ := rfl

/-- A frame that the loop has not reached is as it was. -/
theorem words_of_later (h : Clearing places o path frame n m m')
    (hframe : places frame = some (o, path)) {f : Nat}
    (hf : Below places o (n :: path) f) : m'.words f = m.words f := by
  have hne : f ≠ frame := by
    rintro rfl
    exact not_below_child hframe n hf
  have hgone : ¬ ∃ i, i < n ∧ Below places o (i :: path) f := by
    rintro ⟨i, hlt, hi⟩
    exact below_disjoint (Nat.ne_of_lt hlt) hi hf
  have hsame : put m'.words frame (m.words frame) f = m.words f :=
    h.released.words f hgone
  rwa [put_other hne] at hsame

theorem frames_of_later (h : Clearing places o path frame n m m') {f : Nat}
    (hf : Below places o (n :: path) f) :
    m'.frames.IsAllocated f ↔ m.frames.IsAllocated f := by
  refine (h.released.frames f ?_).2
  rintro ⟨i, hlt, hi⟩
  exact below_disjoint (Nat.ne_of_lt hlt) hi hf

/-- The loop passes an absent entry. -/
theorem skip (h : Clearing places o path frame n m m')
    (hnone : ∀ f, ¬ Below places o (n :: path) f) :
    Clearing places o path frame (n + 1) m m' where
  released := by
    refine h.released.congr fun f => ⟨?_, ?_⟩
    · rintro ⟨i, hlt, hi⟩
      rcases Nat.lt_or_eq_of_le (Nat.le_of_lt_succ hlt) with hlt | rfl
      · exact ⟨i, hlt, hi⟩
      · exact absurd hi (hnone f)
    · rintro ⟨i, hlt, hi⟩
      exact ⟨i, Nat.lt_succ_of_lt hlt, hi⟩
  row i hi := h.row i (Nat.le_of_succ_le hi)

/-- The loop releases what lies below a present entry and clears it. -/
theorem clear (h : Clearing places o path frame n m m')
    (hframe : places frame = some (o, path))
    (hrel : Released (Below places o (n :: path)) m' m'') :
    Clearing places o path frame (n + 1) m (m''.writeWord frame n 0) where
  released := by
    have hwords : ∀ f, ¬ Below places o (n :: path) f →
        put (m''.writeWord frame n 0).words frame (m.words frame) f =
          put m'.words frame (m.words frame) f := by
      intro f hf
      by_cases hff : f = frame
      · rw [hff, put_same, put_same]
      · rw [put_other hff, put_other hff]
        exact (put_other hff).trans (hrel.words f hf)
    have hnext : Released (Below places o (n :: path))
        { m' with words := put m'.words frame (m.words frame) }
        { m''.writeWord frame n 0 with
          words := put (m''.writeWord frame n 0).words frame (m.words frame) } :=
      ⟨hwords, hrel.freed, hrel.frames, hrel.cr3, hrel.offset⟩
    refine (h.released.trans hnext ?_).congr fun f => ⟨?_, ?_⟩
    · rintro f ⟨i, hlt, hi⟩
      exact below_disjoint (Nat.ne_of_lt hlt) hi
    · rintro ⟨i, hlt, hi⟩
      rcases Nat.lt_or_eq_of_le (Nat.le_of_lt_succ hlt) with hlt | rfl
      · exact .inl ⟨i, hlt, hi⟩
      · exact .inr hi
    · rintro (⟨i, hlt, hi⟩ | hn)
      · exact ⟨i, Nat.lt_succ_of_lt hlt, hi⟩
      · exact ⟨n, Nat.lt_succ_self n, hn⟩
  row i hi := by
    show put m''.words frame _ frame i = _
    rw [put_same, put_other (by omega),
      hrel.words frame (not_below_child hframe n)]
    exact h.row i (by omega)

/-- The loop rule. -/
theorem loop {body : Memory → Nat → Memory}
    (hbody : ∀ i m', i < n → Clearing places o path frame i m m' →
      Clearing places o path frame (i + 1) m (body m' i)) :
    Clearing places o path frame n m ((List.range n).foldl body m) := by
  induction n with
  | zero => exact start
  | succ n ih =>
    rw [List.range_succ, List.foldl_append]
    exact hbody n _ (Nat.lt_succ_self n) (ih fun i m' hi => hbody i m' (by omega))

/-- After the loop the table itself is given back. -/
theorem finish (h : Clearing places o path frame n m m')
    (hforest : pageTree.Forest places heap)
    (hframe : places frame = some (o, path))
    (hall : ∀ i, pageTree.inside o path i → i < n)
    (hheld : m.frames.IsAllocated frame) :
    Released (Below places o path) m (m'.freePhysicalFrame frame) := by
  have hheld' : m'.frames.IsAllocated frame := by
    refine (h.released.frames frame ?_).2.mpr hheld
    rintro ⟨i, -, hi⟩
    exact not_below_child hframe i hi
  have hlast := Released.freePhysicalFrame
    (m := { m' with words := put m'.words frame (m.words frame) }) hheld'
  have hboth := h.released.trans hlast fun f hf hff => by
    obtain ⟨i, -, hi⟩ := hf
    rw [hff] at hi
    exact not_below_child hframe i hi
  have hgone : ∀ f, Below places o path f ↔
      (∃ i, i < n ∧ Below places o (i :: path) f) ∨ f = frame := by
    intro f
    rw [below_iff hforest hframe]
    constructor
    · rintro (rfl | ⟨i, hi, hf⟩)
      · exact .inr rfl
      · exact .inl ⟨i, hall i hi, hf⟩
    · rintro (⟨i, -, hf⟩ | rfl)
      · exact .inr ⟨i, inside_of_below hforest hf, hf⟩
      · exact .inl rfl
  have hend := hboth.congr hgone
  refine ⟨fun f hf => ?_, hend.freed, hend.frames, hend.cr3, hend.offset⟩
  have hne : f ≠ frame := by
    rintro rfl
    exact hf ⟨[], hframe⟩
  have hsame : put m'.words frame (m.words frame) f = m.words f := hend.words f hf
  rwa [put_other hne] at hsame

end Clearing

/-! ## The release functions -/

section Release

variable {places : Places} {heap : Nat → Nat → Nat} {o : Owner}
  {path : List Nat} {frame : Nat} {m m' : Memory}

/-- The part of a tree that a release is about to walk is as the forest says,
and its frames can be given back. -/
def Intact (places : Places) (heap : Nat → Nat → Nat) (o : Owner)
    (path : List Nat) (m : Memory) : Prop :=
  ∀ f, Below places o path f → m.words f = heap f ∧ m.frames.IsAllocated f

/-- What lies below the entry that the loop has reached is still intact. -/
theorem Clearing.intact {n : Nat} (h : Clearing places o path frame n m m')
    (hforest : pageTree.Forest places heap)
    (hframe : places frame = some (o, path)) (hm : Intact places heap o path m) :
    Intact places heap o (n :: path) m' := by
  intro f hf
  have hm := hm f ((below_iff hforest hframe f).mpr
    (.inr ⟨n, inside_of_below hforest hf, hf⟩))
  constructor
  · rw [h.words_of_later hframe hf, hm.1]
  · exact (h.frames_of_later hf).mpr hm.2

/-- `release_user_table` frees the tree below its table and nothing else. -/
theorem releaseUserTable_released (hforest : pageTree.Forest places heap)
    (hinside : ∀ path i, path ≠ [] → (pageTree.inside o path i ↔ i < 512))
    (level : Nat) (hframe : places frame = some (o, path)) (hpath : path ≠ [])
    (hlevel : path.length + (level + 1) = pageTree.depth o)
    (hm : Intact places heap o path m) :
    Released (Below places o path) m (releaseUserTable (level + 1) frame m) := by
  induction level generalizing frame path m with
  | zero =>
    unfold releaseUserTable
    refine Clearing.finish (Clearing.loop ?_) hforest hframe
      (fun i => (hinside path i hpath).mp) (hm frame ⟨[], hframe⟩).2
    intro i m' hi hc
    have hrow : m'.words frame i = heap frame i := by
      rw [hc.row i le_rfl, (hm frame ⟨[], hframe⟩).1]
    dsimp only
    rw [hrow]
    by_cases hp : Present (heap frame i)
    · rw [if_neg (not_not.mpr hp), if_pos (.inl rfl)]
      have hin := (hinside path i hpath).mpr hi
      have hchild := hforest.child hframe (by omega) hin (ref_eq hp)
      have hheld := (hc.intact hforest hframe hm _ ⟨[], hchild⟩).2
      -- A page has nothing below it.
      refine hc.clear hframe ((Released.freePhysicalFrame hheld).congr fun f => ⟨?_, ?_⟩)
      · rintro ⟨rest, hf⟩
        have hle := hforest.length_le hf
        rw [List.length_append, List.length_cons] at hle
        obtain rfl := List.length_eq_zero_iff.mp (show rest.length = 0 by omega)
        exact hforest.unique hf hchild
      · rintro rfl
        exact ⟨[], hchild⟩
    · rw [if_pos hp]
      exact hc.skip (not_below_of_absent hforest hframe hp)
  | succ level ih =>
    unfold releaseUserTable
    refine Clearing.finish (Clearing.loop ?_) hforest hframe
      (fun i => (hinside path i hpath).mp) (hm frame ⟨[], hframe⟩).2
    intro i m' hi hc
    have hrow : m'.words frame i = heap frame i := by
      rw [hc.row i le_rfl, (hm frame ⟨[], hframe⟩).1]
    dsimp only
    rw [hrow]
    by_cases hp : Present (heap frame i)
    · have hin := (hinside path i hpath).mpr hi
      have hopen := isOpen_eq_true.mp (hforest.opens hframe (by omega) hin (ref_eq hp))
      rw [if_neg (not_not.mpr hp), if_neg (not_or.mpr ⟨Nat.succ_ne_zero level, hopen⟩)]
      have hchild := hforest.child hframe (by omega) hin (ref_eq hp)
      exact hc.clear hframe (ih hchild (List.cons_ne_nil i path)
        (by rw [List.length_cons]; omega) (hc.intact hforest hframe hm))
    · rw [if_pos hp]
      exact hc.skip (not_below_of_absent hforest hframe hp)

end Release

theorem inside_space {root i : Nat} {path : List Nat} (hpath : path ≠ []) :
    pageTree.inside (.space root) path i ↔ i < 512 :=
  ⟨fun h => h.1, fun h => ⟨h, fun heq => absurd heq hpath⟩⟩

/-- The loop of `destroy_user_address_space`. -/
theorem destroyUserAddressSpace_clearing {places : Places} {root : Nat} {m : Memory}
    (h : Owned places m) (hroot : places root = some (.space root, [])) :
    ∃ m', Clearing places (.space root) [] root 256 m m' ∧
      destroyUserAddressSpace root m = m'.freePhysicalFrame root := by
  have hm : Intact places m.words (.space root) [] m :=
    fun f ⟨rest, hf⟩ => ⟨rfl, h.allocated f root _ hf⟩
  unfold destroyUserAddressSpace
  dsimp only
  rw [h.aligned root _ hroot]
  refine ⟨_, Clearing.loop ?_, rfl⟩
  intro i m' hi hc
  have hrow : m'.words root i = m.words root i := hc.row i le_rfl
  rw [hrow]
  by_cases hp : Present (m.words root i)
  · have hin : pageTree.inside (.space root) [] i := ⟨by omega, fun _ => hi⟩
    have hchild := h.forest.child hroot (Nat.zero_lt_succ 3) hin (ref_eq hp)
    rw [if_neg (not_not.mpr hp)]
    exact hc.clear hroot (releaseUserTable_released h.forest
      (fun path i hpath => inside_space hpath) 2 hchild (List.cons_ne_nil i [])
      rfl (hc.intact h.forest hroot hm))
  · rw [if_pos hp]
    exact hc.skip (not_below_of_absent h.forest hroot hp)

/-- `destroy_user_address_space` frees the tree of its space and nothing
else. -/
theorem destroyUserAddressSpace_released {places : Places} {root : Nat} {m : Memory}
    (h : Owned places m) (hroot : places root = some (.space root, [])) :
    Released (Below places (.space root) []) m (destroyUserAddressSpace root m) := by
  obtain ⟨m', hc, heq⟩ := destroyUserAddressSpace_clearing h hroot
  rw [heq]
  exact hc.finish h.forest hroot (fun i hi => hi.2 rfl) (h.allocated root root [] hroot)

/-- It leaves the kernel half of the root table alone. -/
theorem destroyUserAddressSpace_upper {places : Places} {root : Nat} {m : Memory}
    (h : Owned places m) (hroot : places root = some (.space root, [])) {i : Nat}
    (hi : 256 ≤ i) : (destroyUserAddressSpace root m).words root i = m.words root i := by
  obtain ⟨m', hc, heq⟩ := destroyUserAddressSpace_clearing h hroot
  rw [heq]
  exact hc.row i hi

end OpenKernel
