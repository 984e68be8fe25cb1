import OpenKernel.Lib.Radix
import OpenKernel.Memory.Entries

/-!
# Who owns a frame

The page tables of all address spaces as a forest of radix trees.  A tree
belongs to an address space and covers the lower half of its root table, or
it is the window: the tables behind the root entry that all address spaces
share for device pages and kernel stacks.  A placing says for each frame
which tree it belongs to and where.

`Owned` is the invariant: the memory is such a forest, and no frame of it is
free.  `Grows` says what a walk that allocates tables may change, and the
theorems about `descend` say that it changes no more.
-/

namespace OpenKernel

open Lib

/-- The trees of the forest. -/
inductive Owner
  /-- the lower half of the address space with this root table -/
  | space (root : Nat)
  | window
  deriving DecidableEq

/-- The first entry of the window's root table that leads to kernel
stacks. -/
def firstStackEntry : Nat := (kernelStackGuardPage >>> 30) &&& 0x1FF

/-- Page tables as radix trees.  The pages of the device half of the window
are not frames of the kernel's, so they are not inside. -/
def pageTree : Radix Owner Nat Nat Nat where
  ref entry := if Present entry then some (target entry) else none
  isOpen entry := !decide (Huge entry)
  depth
    | .space _ => 4
    | .window => 3
  inside
    | .space _, path, index => index < 512 ∧ (path = [] → index < 256)
    | .window, path, index =>
      index < 512 ∧ ∀ second first, path = [second, first] → firstStackEntry ≤ first

theorem ref_eq {entry : Nat} (h : Present entry) :
    pageTree.ref entry = some (target entry) := if_pos h

theorem ref_eq_none {entry : Nat} (h : ¬ Present entry) :
    pageTree.ref entry = none := if_neg h

theorem ref_eq_some {entry frame : Nat} (h : pageTree.ref entry = some frame) :
    Present entry ∧ target entry = frame := by
  by_cases hp : Present entry
  · rw [ref_eq hp] at h
    exact ⟨hp, Option.some.inj h⟩
  · rw [ref_eq_none hp] at h
    cases h

theorem isOpen_eq_true {entry : Nat} :
    pageTree.isOpen entry = true ↔ ¬ Huge entry := by
  show (!decide (Huge entry)) = true ↔ _
  simp

/-- The walk of `unmap_page` is the walk of the trees. -/
theorem walk_eq (m : Memory) (indices : List Nat) (table : Nat) :
    m.walk indices table = pageTree.walk m.words indices table := by
  induction indices generalizing table with
  | nil => rfl
  | cons index rest ih =>
    unfold Memory.walk Radix.walk Radix.follow
    dsimp only
    by_cases hp : Present (m.words table index)
    · by_cases hh : Huge (m.words table index)
      · rw [if_pos (.inr hh), if_neg (by rw [isOpen_eq_true]; exact not_not.mpr hh)]
        rfl
      · rw [if_neg (by rintro (h | h) <;> contradiction),
          if_pos (isOpen_eq_true.mpr hh), ref_eq hp]
        exact ih _
    · rw [if_pos (.inl hp), ref_eq_none hp, ite_self]
      rfl

/-! ## The invariant -/

abbrev Places := Nat → Option (Owner × List Nat)

/-- The page tables are a forest of frames that cannot be handed out. -/
structure Owned (places : Places) (m : Memory) : Prop where
  forest : pageTree.Forest places m.words
  notFree : ∀ f x, places f = some x → ¬ m.frames.IsFree f
  allocated : ∀ f r path, places f = some (.space r, path) → m.frames.IsAllocated f
  aligned : ∀ f x, places f = some x → target f = f

/-- What a walk in the tree of `owner` that allocates tables with `flags` may
change. -/
structure Grows (flags : PageFlags) (owner : Owner) (places : Places) (m : Memory)
    (places' : Places) (m' : Memory) : Prop where
  kept : ∀ f x, places f = some x → places' f = some x
  roots : ∀ f o, places' f = some (o, []) → places f = some (o, [])
  fresh : ∀ f, places f = none → places' f ≠ none →
    m.frames.IsFree f ∧ m'.frames.IsAllocated f
  frames : ∀ f, places' f = none →
    (m'.frames.IsFree f ↔ m.frames.IsFree f) ∧
      (m'.frames.IsAllocated f ↔ m.frames.IsAllocated f)
  held : ∀ f, m.frames.IsAllocated f → m'.frames.IsAllocated f
  words : ∀ f, places' f = none → m'.words f = m.words f
  outside : ∀ f o path i, places f = some (o, path) →
    ¬ pageTree.inside o path i → m'.words f i = m.words f i
  walks : ∀ f o path is t, places f = some (o, path) →
    path.length + is.length ≤ pageTree.depth o → pageTree.Within o path is →
      pageTree.walk m.words is f = some t → pageTree.walk m'.words is f = some t
  entries : ∀ f o path is last, places f = some (o, path) →
    path.length + is.length + 1 = pageTree.depth o → pageTree.Within o path is →
      pageTree.entry m'.words is last f = pageTree.entry m.words is last f
  links : ∀ f o path i, places' f = some (o, path) → path.length + 1 < pageTree.depth o →
    pageTree.inside o path i → Present (m'.words f i) →
      places f = some (o, path) ∧ m'.words f i = m.words f i ∨
        o = owner ∧ (flags.bits &&& userBit ≠ 0 →
          m'.words f i &&& (presentBit ||| userBit ||| hugePageBit) =
            presentBit ||| userBit)
  cr3 : m'.cr3 = m.cr3
  offset : m'.physicalMemoryOffset = m.physicalMemoryOffset

namespace Grows

variable {flags : PageFlags} {owner : Owner} {places places' places'' : Places}
  {m m' m'' : Memory}

theorem refl : Grows flags owner places m places m where
  kept _ _ h := h
  roots _ _ h := h
  fresh _ h h' := absurd h h'
  frames _ _ := ⟨Iff.rfl, Iff.rfl⟩
  held _ h := h
  words _ _ := rfl
  outside _ _ _ _ _ _ := rfl
  walks _ _ _ _ _ _ _ _ h := h
  entries _ _ _ _ _ _ _ _ := rfl
  links _ _ _ _ h _ _ _ := .inl ⟨h, rfl⟩
  cr3 := rfl
  offset := rfl

theorem none_of_none (h : Grows flags owner places m places' m') {f : Nat}
    (hf : places' f = none) : places f = none := by
  cases hp : places f with
  | none => rfl
  | some x =>
    rw [h.kept f x hp] at hf
    cases hf

theorem trans (h : Grows flags owner places m places' m')
    (h' : Grows flags owner places' m' places'' m'') :
    Grows flags owner places m places'' m'' where
  kept f x hf := h'.kept f x (h.kept f x hf)
  roots f o hf := h.roots f o (h'.roots f o hf)
  fresh f hnone hsome := by
    cases hp : places' f with
    | none =>
      have := h'.fresh f hp hsome
      exact ⟨((h.frames f hp).1).mp this.1, this.2⟩
    | some x =>
      have hf := h.fresh f hnone (by rw [hp]; exact Option.some_ne_none x)
      exact ⟨hf.1, h'.held f hf.2⟩
  frames f hf := by
    have hmid := h'.none_of_none hf
    exact ⟨(h'.frames f hf).1.trans (h.frames f hmid).1,
      (h'.frames f hf).2.trans (h.frames f hmid).2⟩
  held f hf := h'.held f (h.held f hf)
  words f hf := (h'.words f hf).trans (h.words f (h'.none_of_none hf))
  outside f o path i hf hi :=
    (h'.outside f o path i (h.kept f _ hf) hi).trans (h.outside f o path i hf hi)
  walks f o path is t hf hlen hin hw :=
    h'.walks f o path is t (h.kept f _ hf) hlen hin (h.walks f o path is t hf hlen hin hw)
  entries f o path is last hf hlen hin :=
    (h'.entries f o path is last (h.kept f _ hf) hlen hin).trans
      (h.entries f o path is last hf hlen hin)
  links f o path i hf hlen hin hp := by
    rcases h'.links f o path i hf hlen hin hp with ⟨hf', heq⟩ | hnew
    · rw [heq] at hp ⊢
      rcases h.links f o path i hf' hlen hin hp with ⟨hf, hsame⟩ | hnew
      · exact .inl ⟨hf, hsame⟩
      · exact .inr hnew
    · exact .inr hnew
  cr3 := h'.cr3.trans h.cr3
  offset := h'.offset.trans h.offset

end Grows

/-! ## One step of a walk -/

section Descend

variable {flags : PageFlags} {places : Places} {m m' : Memory}
  {table index frame : Nat} {o : Owner} {path : List Nat}

/-- The memory after `descend` has linked a new table. -/
def Memory.linked (m : Memory) (frames : FrameAllocator) (flags : PageFlags)
    (table index frame : Nat) : Memory :=
  (({ m with frames }).writeWord table index
    (frame ||| linkBits flags)).zeroPhysicalFrame frame

theorem descend_of_present (hp : Present (m.words table index))
    (hh : ¬ Huge (m.words table index)) :
    descend flags table index m = .ok (target (m.words table index)) m := by
  show (if ¬ Present (m.words table index) then _
    else if Huge (m.words table index) then _ else _ : Paging Nat) m = _
  rw [if_neg (not_not.mpr hp), if_neg hh]
  rfl

theorem descend_of_absent (flags : PageFlags) (hp : ¬ Present (m.words table index)) :
    descend flags table index m =
      match m.frames.allocate with
      | (some frame, frames) =>
        .ok (target ((m.linked frames flags table index frame).words table index))
          (m.linked frames flags table index frame)
      | (none, _) => .error .frameAllocationFailed m := by
  show (if ¬ Present (m.words table index) then _
    else if Huge (m.words table index) then _ else _ : Paging Nat) m = _
  rw [if_pos hp]
  show EStateM.bind allocatePhysicalFrame _ m = _
  unfold EStateM.bind allocatePhysicalFrame
  cases hx : m.frames.allocate with
  | mk result frames =>
    cases result with
    | none => rw [FrameAllocator.allocate_none hx]
    | some frame =>
      dsimp only [Memory.linked]
      rw [← link_eq frame flags]
      rfl

theorem linked_words (m : Memory) (frames : FrameAllocator) (f : Nat) :
    (m.linked frames flags table index frame).words f =
      if f = frame then fun _ => 0
      else if f = table then
        put (m.words table) index (frame ||| linkBits flags)
      else m.words f := rfl

/-- The new table is a new node of the forest. -/
theorem grown_linked (flags : PageFlags) (frames : FrameAllocator) (hne : table ≠ frame)
    (hframe : target frame = frame) (hp : ¬ Present (m.words table index)) :
    pageTree.Grown m.words (m.linked frames flags table index frame).words
      table index frame := by
  have htable : (m.linked frames flags table index frame).words table =
      put (m.words table) index (frame ||| linkBits flags) := by
    rw [linked_words, if_neg hne, if_pos rfl]
  refine ⟨?_, ?_, ref_eq_none hp, ?_, ?_, ?_⟩
  · intro f hft hfg
    rw [linked_words, if_neg hfg, if_neg hft]
  · intro j hj
    rw [htable, put_other hj]
  · rw [htable, put_same, ref_eq (present_link hframe flags), target_link hframe]
  · rw [htable, put_same]
    exact isOpen_eq_true.mpr (not_huge_link hframe flags)
  · intro j
    rw [linked_words, if_pos rfl]
    exact ref_eq_none not_present_zero

namespace Owned

variable (h : Owned places m) (ht : places table = some (o, path))
include h

theorem none_of_free (hf : m.frames.IsFree frame) : places frame = none := by
  cases hp : places frame with
  | none => rfl
  | some x => exact absurd hf (h.notFree frame x hp)

include ht

/-- A new table keeps the invariant and changes no more than a walk may. -/
theorem link (flags : PageFlags) {frames : FrameAllocator} (hlen : path.length + 1 < pageTree.depth o)
    (hin : pageTree.inside o path index) (hp : ¬ Present (m.words table index))
    (halloc : m.frames.allocate = (some frame, frames)) :
    Owned (Function.update places frame (some (o, index :: path)))
        (m.linked frames flags table index frame) ∧
      Grows flags o places m (Function.update places frame (some (o, index :: path)))
        (m.linked frames flags table index frame) := by
  obtain ⟨hfree, hall, hnot, hothers⟩ := FrameAllocator.allocate_some halloc
  have hfresh := h.none_of_free hfree
  have hne : table ≠ frame := by
    intro heq
    rw [heq, hfresh] at ht
    cases ht
  have hgrown := grown_linked flags frames hne hfree.target_eq hp
  have hplaced : ∀ f x, Function.update places frame (some (o, index :: path)) f = some x →
      f = frame ∧ x = (o, index :: path) ∨ f ≠ frame ∧ places f = some x := by
    intro f x hf
    by_cases hff : f = frame
    · rw [hff, Function.update_self] at hf
      exact .inl ⟨hff, (Option.some.inj hf).symm⟩
    · rw [Function.update_of_ne hff] at hf
      exact .inr ⟨hff, hf⟩
  have hnone : ∀ f, Function.update places frame (some (o, index :: path)) f = none →
      f ≠ frame := by
    rintro f hf rfl
    rw [Function.update_self] at hf
    cases hf
  constructor
  · refine ⟨h.forest.grow hgrown ht hlen hin hfresh, ?_, ?_, ?_⟩
    · intro f x hf
      rcases hplaced f x hf with ⟨rfl, -⟩ | ⟨hff, hold⟩
      · exact hnot
      · exact fun hbad => h.notFree f x hold ((hothers f hff).1.mp hbad)
    · intro f r path' hf
      rcases hplaced f _ hf with ⟨rfl, -⟩ | ⟨hff, hold⟩
      · exact hall
      · exact (hothers f hff).2.mpr (h.allocated f r path' hold)
    · intro f x hf
      rcases hplaced f x hf with ⟨rfl, -⟩ | ⟨hff, hold⟩
      · exact hfree.target_eq
      · exact h.aligned f x hold
  · constructor
    · intro f x hf
      rw [Function.update_of_ne, hf]
      rintro rfl
      rw [hfresh] at hf
      cases hf
    · intro f o' hf
      rcases hplaced f _ hf with ⟨-, heq⟩ | ⟨-, hold⟩
      · cases (Prod.mk.inj heq).2
      · exact hold
    · intro f hf hsome
      have hff : f = frame := by
        by_contra hff
        rw [Function.update_of_ne hff, hf] at hsome
        exact hsome rfl
      rw [hff]
      exact ⟨hfree, hall⟩
    · intro f hf
      exact hothers f (hnone f hf)
    · intro f hf
      by_cases hff : f = frame
      · rw [hff]
        exact hall
      · exact (hothers f hff).2.mpr hf
    · intro f hf
      have hff := hnone f hf
      rw [Function.update_of_ne hff] at hf
      rw [linked_words, if_neg hff, if_neg]
      rintro rfl
      rw [ht] at hf
      cases hf
    · intro f o' path' i hf hi
      have hff : f ≠ frame := by
        rintro rfl
        rw [hfresh] at hf
        cases hf
      rw [linked_words, if_neg hff]
      split
      · rename_i hft
        subst hft
        rw [ht] at hf
        obtain ⟨rfl, rfl⟩ := Prod.mk.inj (Option.some.inj hf)
        rw [put_other]
        rintro rfl
        exact hi hin
      · rfl
    · intro f o' path' is t hf hdepth hwithin hw
      rcases h.forest.walk_grow hgrown hfresh hf hdepth hwithin with hsame | ⟨-, hnew⟩
      · rw [hsame, hw]
      · rw [hnew] at hw
        cases hw
    · intro f o' path' is last hf hdepth hwithin
      exact h.forest.entry_grow hgrown ht hlen hfresh hf hdepth hwithin last
    · intro f o' path' i hf hdepth hi hpresent
      rcases hplaced f _ hf with ⟨rfl, -⟩ | ⟨hff, hold⟩
      · rw [linked_words, if_pos rfl] at hpresent
        exact absurd hpresent not_present_zero
      · rw [linked_words, if_neg hff] at hpresent ⊢
        by_cases hhit : f = table ∧ i = index
        · obtain ⟨rfl, rfl⟩ := hhit
          rw [if_pos rfl, put_same]
          rw [ht] at hold
          obtain ⟨rfl, rfl⟩ := Prod.mk.inj (Option.some.inj hold)
          exact .inr ⟨rfl, user_link hfree.target_eq flags⟩
        · refine .inl ⟨hold, ?_⟩
          split
          · rename_i hft
            subst hft
            rw [put_other fun hi => hhit ⟨rfl, hi⟩]
          · rfl
    · rfl
    · rfl

/-- `descend` from a table of the forest leads to the next one, or no frame
is left for it. -/
theorem descend (flags : PageFlags) (hlen : path.length + 1 < pageTree.depth o)
    (hin : pageTree.inside o path index) :
    match OpenKernel.descend flags table index m with
    | .ok next m' => ∃ places', Owned places' m' ∧
        Grows flags o places m places' m' ∧ places' next = some (o, index :: path) ∧
        pageTree.follow (m'.words table index) = some next
    | .error e m' => m' = m ∧ e = .frameAllocationFailed ∧
        m.frames.allocate.1 = none ∧ ¬ Present (m.words table index) := by
  by_cases hp : Present (m.words table index)
  · have hopen := h.forest.opens ht hlen hin (ref_eq hp)
    rw [descend_of_present hp (isOpen_eq_true.mp hopen)]
    refine ⟨places, h, .refl, h.forest.child ht (by omega) hin (ref_eq hp), ?_⟩
    rw [h.forest.follow_eq ht hlen hin, ref_eq hp]
  · rw [descend_of_absent flags hp]
    cases hx : m.frames.allocate with
    | mk result frames =>
      cases result with
      | none => exact ⟨rfl, rfl, rfl, hp⟩
      | some frame =>
        obtain ⟨hfree, -⟩ := FrameAllocator.allocate_some hx
        have hfresh := h.none_of_free hfree
        have hne : table ≠ frame := by
          intro heq
          rw [heq, hfresh] at ht
          cases ht
        have hgrown := grown_linked flags frames hne hfree.target_eq hp
        obtain ⟨howned, hgrows⟩ := h.link ht flags hlen hin hp hx
        have hnext : target ((m.linked frames flags table index frame).words table index) =
            frame := (ref_eq_some hgrown.link).2
        refine ⟨_, howned, hgrows, ?_, ?_⟩
        · rw [hnext, Function.update_self]
        · rw [hnext, hgrown.follow_link]

end Owned

end Descend

/-! ## Whole walks -/

section Walk

variable {flags : PageFlags} {places : Places} {m m' : Memory}
  {table frame page last : Nat} {o : Owner} {path : List Nat}

/-- A walk through tables of the forest reaches the last one, or no frame is
left for a missing table. -/
theorem Owned.descends (h : Owned places m) (ht : places table = some (o, path))
    (flags : PageFlags) {is : List Nat} (hlen : path.length + is.length < pageTree.depth o)
    (hin : pageTree.Within o path is) :
    match is.foldlM (OpenKernel.descend flags) table m with
    | .ok next m' => ∃ places', Owned places' m' ∧
        Grows flags o places m places' m' ∧
        places' next = some (o, is.reverse ++ path) ∧
        pageTree.walk m'.words is table = some next
    | .error e m' => e = .frameAllocationFailed ∧ m'.frames.allocate.1 = none ∧
        pageTree.walk m.words is table = none ∧
        ∃ places', Owned places' m' ∧ Grows flags o places m places' m' := by
  induction is generalizing table path places m with
  | nil => exact ⟨places, h, .refl, ht, rfl⟩
  | cons index rest ih =>
    obtain ⟨hindex, hrest⟩ := hin
    rw [List.length_cons] at hlen
    have hstep := h.descend ht flags (by omega) hindex
    show match EStateM.bind (OpenKernel.descend flags table index)
        (fun next => rest.foldlM (OpenKernel.descend flags) next) m with
      | .ok next m' => _
      | .error e m' => _
    unfold EStateM.bind
    cases hx : OpenKernel.descend flags table index m with
    | error e m₁ =>
      rw [hx] at hstep
      obtain ⟨rfl, he, hnone, habsent⟩ := hstep
      refine ⟨he, hnone, ?_, places, h, .refl⟩
      show (pageTree.follow (m₁.words table index)).bind _ = none
      rw [h.forest.follow_eq ht (by omega) hindex, ref_eq_none habsent]
      rfl
    | ok next m₁ =>
      rw [hx] at hstep
      obtain ⟨places₁, h₁, hgrows, hnext, hfollow⟩ := hstep
      have htail := ih h₁ hnext (by rw [List.length_cons]; omega) hrest
      dsimp only
      cases hy : rest.foldlM (OpenKernel.descend flags) next m₁ with
      | error e m₂ =>
        rw [hy] at htail
        obtain ⟨he, hnone, hwalk, places₂, h₂, hgrows'⟩ := htail
        refine ⟨he, hnone, ?_, places₂, h₂, hgrows.trans hgrows'⟩
        -- An old walk would go on after the first step.
        cases hw : pageTree.walk m.words (index :: rest) table with
        | none => rfl
        | some t =>
          have hkept := hgrows.walks table o path (index :: rest) t ht
            (by rw [List.length_cons]; omega) ⟨hindex, hrest⟩ hw
          change (pageTree.follow (m₁.words table index)).bind _ = _ at hkept
          rw [hfollow] at hkept
          change pageTree.walk m₁.words rest next = some t at hkept
          rw [hwalk] at hkept
          cases hkept
      | ok final m₂ =>
        rw [hy] at htail
        obtain ⟨places₂, h₂, hgrows', hfinal, hwalk⟩ := htail
        refine ⟨places₂, h₂, hgrows.trans hgrows', ?_, ?_⟩
        · rw [hfinal, List.reverse_cons, List.append_assoc]
          rfl
        · -- The first step still leads to `next` after the rest of the walk.
          have hfirst : pageTree.walk m₁.words [index] table = some next := by
            show (pageTree.follow (m₁.words table index)).bind _ = _
            rw [hfollow]
            rfl
          have hkept := hgrows'.walks table o path [index] next (hgrows.kept _ _ ht)
            (by rw [List.length_singleton]; omega) ⟨hindex, trivial⟩ hfirst
          obtain ⟨u, hu, hrfl⟩ := Option.bind_eq_some_iff.mp hkept
          obtain rfl := Option.some.inj hrfl
          show (pageTree.follow (m₂.words table index)).bind _ = _
          rw [hu]
          exact hwalk

/-! ## The last level -/

theorem wrote_writeWord (m : Memory) (value : Nat) :
    Radix.Wrote m.words (m.writeWord table last value).words table last where
  other f hf := put_other hf
  row j hj := by
    show put m.words table _ table j = _
    rw [put_same, put_other hj]

theorem writeWord_same (m : Memory) (value : Nat) :
    (m.writeWord table last value).words table last = value := by
  show put m.words table _ table last = _
  rw [put_same, put_same]

namespace Owned

variable (h : Owned places m) (ht : places table = some (o, path))
  (hlen : path.length + 1 = pageTree.depth o)

include h ht hlen

/-- A frame in nobody's tree is mapped as a page. -/
theorem fill (flags : PageFlags) (hin : pageTree.inside o path last)
    (habsent : ¬ Present (m.words table last)) (hfresh : places page = none)
    (hall : m.frames.IsAllocated page) (hnot : ¬ m.frames.IsFree page) :
    Owned (Function.update places page (some (o, last :: path)))
      (m.writeWord table last (page ||| flags.bits)) := by
  have hplaced : ∀ f x,
      Function.update places page (some (o, last :: path)) f = some x →
        f = page ∨ places f = some x := by
    intro f x hf
    by_cases hfp : f = page
    · exact .inl hfp
    · rw [Function.update_of_ne hfp] at hf
      exact .inr hf
  have htarget := hall.target_eq
  refine ⟨?_, ?_, ?_, ?_⟩
  · refine h.forest.fill (wrote_writeWord m _) ht hlen hin (ref_eq_none habsent) ?_ hfresh
    rw [writeWord_same, ref_eq (present_page htarget flags), target_page htarget]
  · intro f x hf
    rcases hplaced f x hf with rfl | hold
    · exact hnot
    · exact h.notFree f x hold
  · intro f r path' hf
    rcases hplaced f _ hf with rfl | hold
    · exact hall
    · exact h.allocated f r path' hold
  · intro f x hf
    rcases hplaced f x hf with rfl | hold
    · exact htarget
    · exact h.aligned f x hold

/-- A page is taken out of its tree. -/
theorem clear (hin : pageTree.inside o path last)
    (hpresent : Present (m.words table last)) (hpage : target (m.words table last) = page) :
    Owned (Function.update places page none) (m.writeWord table last 0) := by
  have hplaced : ∀ f x, Function.update places page none f = some x →
      places f = some x := by
    intro f x hf
    by_cases hfp : f = page
    · rw [hfp, Function.update_self] at hf
      cases hf
    · rwa [Function.update_of_ne hfp] at hf
  refine ⟨?_, fun f x hf => h.notFree f x (hplaced f x hf),
    fun f r p hf => h.allocated f r p (hplaced f _ hf),
    fun f x hf => h.aligned f x (hplaced f x hf)⟩
  refine h.forest.clear (wrote_writeWord m _) ht hlen hin (p := page) ?_ ?_
  · rw [ref_eq hpresent, hpage]
  · rw [writeWord_same]
    exact ref_eq_none not_present_zero

omit hlen in
/-- An entry outside the trees is written. -/
theorem writeOutside (hout : ¬ pageTree.inside o path last) (value : Nat) :
    Owned places (m.writeWord table last value) := by
  refine ⟨h.forest.congr ?_, h.notFree, h.allocated, h.aligned⟩
  intro f o' path' i hf _ hi
  have hw : Radix.Wrote m.words (m.writeWord table last value).words table last :=
    wrote_writeWord m value
  rcases hw.eq_or f i with ⟨rfl, rfl⟩ | hsame
  · rw [ht] at hf
    obtain ⟨rfl, rfl⟩ := Prod.mk.inj (Option.some.inj hf)
    exact absurd hi hout
  · exact hsame

end Owned

end Walk

end OpenKernel
