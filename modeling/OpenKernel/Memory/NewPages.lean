import OpenKernel.Memory.Conservation

/-!
# New pages

The loops that fill an address space take a frame, clear it and map it, page
after page.  A call of `map_user_page_in` that fails leaves the frame that was
taken for it behind: nothing refers to it and it is not free.  `Filled` sums up
such a sequence, with the frames that it has lost.
-/

namespace OpenKernel

open Lib

/-- A new page of an address space: a frame, cleared and mapped. -/
def newUserPage (space : Nat) (flags : PageFlags) (page : Nat) : Paging Nat := do
  let frame ← allocatePhysicalFrame
  modify (·.zeroPhysicalFrame frame)
  mapUserPageIn space page frame flags
  return frame

/-- The pages of the trees hold what they held. -/
def KeepsContents (places : Places) (m m' : Memory) : Prop :=
  ∀ f o path, places f = some (o, path) → path.length = pageTree.depth o →
    m'.words f = m.words f

/-! ## Walks write no page -/

section Contents

variable {flags : PageFlags} {places : Places} {m m' : Memory}
  {table root f : Nat} {o o' : Owner} {path path' is : List Nat}

theorem descend_contents (h : Owned places m) (ht : places table = some (o, path))
    (flags : PageFlags) {index : Nat} (hlen : path.length + 1 < pageTree.depth o)
    (hf : places f = some (o', path')) (hpage : path'.length = pageTree.depth o') :
    match descend flags table index m with
    | .ok _ m' | .error _ m' => m'.words f = m.words f := by
  by_cases hp : Present (m.words table index)
  · by_cases hh : Huge (m.words table index)
    · show match (if ¬ Present (m.words table index) then _
        else if Huge (m.words table index) then _ else _ : Paging Nat) m with
        | .ok _ m' | .error _ m' => m'.words f = m.words f
      rw [if_neg (not_not.mpr hp), if_pos hh]
      rfl
    · rw [descend_of_present hp hh]
  · rw [descend_of_absent flags hp]
    cases hx : m.frames.allocate with
    | mk result frames =>
      cases result with
      | none => rfl
      | some frame =>
        have hfresh := h.none_of_free (FrameAllocator.allocate_some hx).1
        show (m.linked frames flags table index frame).words f = m.words f
        rw [linked_words, if_neg ?_, if_neg ?_]
        · rintro rfl
          rw [ht] at hf
          obtain ⟨rfl, rfl⟩ := Prod.mk.inj (Option.some.inj hf)
          omega
        · rintro rfl
          rw [hfresh] at hf
          cases hf

theorem descends_contents (h : Owned places m) (ht : places table = some (o, path))
    (flags : PageFlags) (hlen : path.length + is.length < pageTree.depth o)
    (hin : pageTree.Within o path is) (hf : places f = some (o', path'))
    (hpage : path'.length = pageTree.depth o') :
    match is.foldlM (descend flags) table m with
    | .ok _ m' | .error _ m' => m'.words f = m.words f := by
  induction is generalizing table path places m with
  | nil => rfl
  | cons index rest ih =>
    obtain ⟨hindex, hrest⟩ := hin
    rw [List.length_cons] at hlen
    have hstep := h.descend ht flags (by omega) hindex
    have hone : match descend flags table index m with
        | .ok _ m' | .error _ m' => m'.words f = m.words f :=
      descend_contents h ht flags (by omega) hf hpage
    show match EStateM.bind (descend flags table index)
        (fun next => rest.foldlM (descend flags) next) m with
      | .ok _ m' | .error _ m' => m'.words f = m.words f
    unfold EStateM.bind
    cases hx : descend flags table index m with
    | error e m₁ =>
      rw [hx] at hone
      exact hone
    | ok next m₁ =>
      rw [hx] at hone hstep
      obtain ⟨places₁, h₁, hgrows, hnext, -⟩ := hstep
      have htail := ih h₁ hnext (by rw [List.length_cons]; omega) hrest
        (hgrows.kept _ _ hf)
      dsimp only
      cases hy : rest.foldlM (descend flags) next m₁ with
      | error e m₂ =>
        rw [hy] at htail
        exact htail.trans hone
      | ok final m₂ =>
        rw [hy] at htail
        exact htail.trans hone

/-- A walk writes no page of the trees. -/
theorem walk_contents (h : Owned places m) (hroot : places root = some (o, []))
    (flags : PageFlags) (hlen : is.length + 1 = pageTree.depth o)
    (hin : pageTree.Within o [] is) :
    match is.foldlM (descend flags) root m with
    | .ok _ m' | .error _ m' => KeepsContents places m m' := by
  have hlen' : ([] : List Nat).length + is.length < pageTree.depth o := by
    rw [List.length_nil, Nat.zero_add]
    omega
  cases hx : is.foldlM (descend flags) root m with
  | error e m' =>
    intro f o' path' hf hpage
    have hsame := descends_contents h hroot flags hlen' hin hf hpage
    rw [hx] at hsame
    exact hsame
  | ok final m' =>
    intro f o' path' hf hpage
    have hsame := descends_contents h hroot flags hlen' hin hf hpage
    rw [hx] at hsame
    exact hsame

end Contents

/-! ## Where a walk makes its tables -/

/-- The path of a page in the tree of its space, the last index first. -/
def pagePath (v : Nat) : List Nat := leafIndex v :: (upperIndices v).reverse

section Paths

variable {flags : PageFlags} {places places' : Places} {m m' : Memory}
  {table f : Nat} {o : Owner} {path front is : List Nat}

theorem Owned.places_eq (h : Owned places m) (h' : Owned places' m)
    (hroots : ∀ f o, places' f = some (o, []) ↔ places f = some (o, [])) :
    places' = places := h'.forest.places_eq h.forest hroots

/-- The tables on the way to a frame. -/
theorem Owned.exists_above (h : Owned places m) (hf : places f = some (o, front ++ path)) :
    ∃ g, places g = some (o, path) := by
  induction front generalizing f with
  | nil => exact ⟨f, hf⟩
  | cons i front ih =>
    obtain ⟨-, -, u, hu, -⟩ := h.forest.parent hf
    exact ih hu

/-- One step of a walk makes the next table and no other. -/
theorem Owned.descend_places {index next : Nat} (h : Owned places m)
    (ht : places table = some (o, path)) (hlen : path.length + 1 < pageTree.depth o)
    (hin : pageTree.inside o path index)
    (hstep : OpenKernel.descend flags table index m = .ok next m') (h' : Owned places' m')
    (hroots : ∀ f o, places' f = some (o, []) ↔ places f = some (o, [])) {o' : Owner}
    (hf : places' f = some (o', front)) :
    places f = some (o', front) ∨ o' = o ∧ front = index :: path := by
  by_cases hp : Present (m.words table index)
  · have hopen := h.forest.opens ht hlen hin (ref_eq hp)
    rw [descend_of_present hp (isOpen_eq_true.mp hopen)] at hstep
    obtain ⟨-, rfl⟩ := EStateM.Result.ok.inj hstep
    rw [h.places_eq h' hroots] at hf
    exact .inl hf
  · rw [descend_of_absent flags hp] at hstep
    cases hx : m.frames.allocate with
    | mk result frames =>
      rw [hx] at hstep
      cases result with
      | none => cases hstep
      | some frame =>
        obtain ⟨-, rfl⟩ := EStateM.Result.ok.inj hstep
        obtain ⟨howned, hgrows⟩ := h.link ht flags hlen hin hp hx
        have hsame := howned.places_eq h' fun f o =>
          (hroots f o).trans ⟨hgrows.kept f _, hgrows.roots f o⟩
        rw [hsame] at hf
        by_cases hff : f = frame
        · rw [hff, Function.update_self] at hf
          obtain ⟨rfl, rfl⟩ := Prod.mk.inj (Option.some.inj hf)
          exact .inr ⟨rfl, rfl⟩
        · rw [Function.update_of_ne hff] at hf
          exact .inl hf

/-- A walk makes tables on its way and no others, and one that fails does not
make the last. -/
theorem Owned.descends_places (h : Owned places m) (ht : places table = some (o, path))
    (flags : PageFlags) (hlen : path.length + is.length < pageTree.depth o)
    (hin : pageTree.Within o path is) :
    match is.foldlM (OpenKernel.descend flags) table m with
    | .ok _ m' => ∀ places', Owned places' m' →
        (∀ f o, places' f = some (o, []) ↔ places f = some (o, [])) →
        ∀ f o' front, places' f = some (o', front) →
          places f = some (o', front) ∨ o' = o ∧ front <:+ is.reverse ++ path
    | .error _ m' => ∀ places', Owned places' m' →
        (∀ f o, places' f = some (o, []) ↔ places f = some (o, [])) →
        (∀ f, places' f ≠ some (o, is.reverse ++ path)) ∧
        ∀ f o' front, places' f = some (o', front) →
          places f = some (o', front) ∨ o' = o ∧ front <:+ is.reverse ++ path := by
  induction is generalizing table path places m with
  | nil =>
    intro places' h' hroots f o' front hf
    rw [h.places_eq h' hroots] at hf
    exact .inl hf
  | cons index rest ih =>
    obtain ⟨hindex, hrest⟩ := hin
    rw [List.length_cons] at hlen
    have hpath : (index :: rest).reverse ++ path = rest.reverse ++ (index :: path) := by
      rw [List.reverse_cons, List.append_assoc]
      rfl
    rw [hpath]
    have hstep := h.descend ht flags (by omega) hindex
    show match EStateM.bind (OpenKernel.descend flags table index)
        (fun next => rest.foldlM (OpenKernel.descend flags) next) m with
      | .ok _ m' => _
      | .error _ m' => _
    unfold EStateM.bind
    cases hx : OpenKernel.descend flags table index m with
    | error e m₁ =>
      rw [hx] at hstep
      obtain ⟨rfl, -, -, habsent⟩ := hstep
      intro places' h' hroots
      rw [h.places_eq h' hroots]
      refine ⟨fun f hf => ?_, fun f o' front hf => .inl hf⟩
      -- The table at the index that is absent would be on the way.
      obtain ⟨g, hg⟩ := h.exists_above hf
      obtain ⟨-, -, u, hu, href⟩ := h.forest.parent hg
      rw [h.forest.unique hu ht] at href
      exact habsent (ref_eq_some href).1
    | ok next m₁ =>
      rw [hx] at hstep
      obtain ⟨places₁, h₁, hgrows, hnext, -⟩ := hstep
      have hroots₁ : ∀ f o, places₁ f = some (o, []) ↔ places f = some (o, []) :=
        fun f o => ⟨hgrows.roots f o, hgrows.kept f _⟩
      have htail := ih h₁ hnext (by rw [List.length_cons]; omega) hrest
      have hold : ∀ f o' front, (places₁ f = some (o', front) ∨
          o' = o ∧ front <:+ rest.reverse ++ (index :: path)) →
          places f = some (o', front) ∨ o' = o ∧ front <:+ rest.reverse ++ (index :: path) := by
        intro f o' front hf
        refine hf.elim (fun hf => ?_) .inr
        rcases h.descend_places ht (by omega) hindex hx h₁ hroots₁ hf with hf | ⟨ho, rfl⟩
        · exact .inl hf
        · exact .inr ⟨ho, List.suffix_append _ _⟩
      dsimp only
      cases hy : rest.foldlM (OpenKernel.descend flags) next m₁ with
      | error e m₂ =>
        rw [hy] at htail
        intro places' h' hroots
        obtain ⟨hlast, hfront⟩ := htail places' h' fun f o =>
          (hroots f o).trans (hroots₁ f o).symm
        exact ⟨hlast, fun f o' front hf => hold f o' front (hfront f o' front hf)⟩
      | ok final m₂ =>
        rw [hy] at htail
        intro places' h' hroots f o' front hf
        exact hold f o' front (htail places' h'
          (fun f o => (hroots f o).trans (hroots₁ f o).symm) f o' front hf)

end Paths

/-! ## What has been filled -/

/-- The entries of the pages of a space that are in `mapped`. -/
def EntryOf (space : Nat) (mapped : Nat → Prop) (o : Owner) (is : List Nat)
    (last : Nat) : Prop :=
  o = .space space ∧ ∃ v, mapped v ∧ is = upperIndices v ∧ last = leafIndex v

/-- What filling the pages of a space that are in `mapped` does to the forest.
The frames in `lost` were free, and nothing refers to them. -/
structure Filled (space : Nat) (mapped lost : Nat → Prop) (places : Places) (m : Memory)
    (places' : Places) (m' : Memory) : Prop where
  owned : Owned places' m'
  kept : ∀ f x, places f = some x → places' f = some x
  touches : Touches (fun _ => False) places m places' m'
  entries : KeepsEntries places m m'
  same : SameEntries places m m' (EntryOf space mapped)
  contents : KeepsContents places m m'
  linked : UserLinked places m → UserLinked places' m'
  accounts : ∀ f, FreeOrIn places m (.space space) f ↔
    FreeOrIn places' m' (.space space) f ∨ lost f
  apart : ∀ f, lost f → m.frames.IsFree f ∧ ¬ m'.frames.IsFree f ∧ places' f = none

section Filled

variable {space : Nat} {mapped mapped' lost lost' : Nat → Prop}
  {places places' places'' : Places} {m m' m'' : Memory}

theorem Filled.refl (h : Owned places m) :
    Filled space mapped (fun _ => False) places m places m where
  owned := h
  kept _ _ hf := hf
  touches := .refl
  entries _ _ _ _ _ _ _ _ := rfl
  same _ _ _ _ _ _ _ _ := rfl
  contents _ _ _ _ _ := rfl
  linked hl := hl
  accounts _ := (or_iff_left id).symm
  apart _ hbad := hbad.elim

theorem Filled.trans (h : Filled space mapped lost places m places' m')
    (h' : Filled space mapped lost' places' m' places'' m'') :
    Filled space mapped (fun f => lost f ∨ lost' f) places m places'' m'' where
  owned := h'.owned
  kept f x hf := h'.kept f x (h.kept f x hf)
  touches := h.touches.trans h'.touches
  entries := h.entries.trans h'.entries h.touches.roots
  same := (h.same.trans h'.same h.touches.roots).mono fun _ _ _ hor => hor.elim id id
  contents f o path hf hlen :=
    (h'.contents f o path (h.kept f _ hf) hlen).trans (h.contents f o path hf hlen)
  linked hl := h'.linked (h.linked hl)
  accounts f := by
    rw [h.accounts f, h'.accounts f, or_assoc, or_comm (a := lost' f)]
  apart f hf := by
    rcases hf with hlost | hlost
    · obtain ⟨hfree, hnot, hnone⟩ := h.apart f hlost
      obtain ⟨hnone', -, hnot', -⟩ := h'.touches.frames f hnone hnot id
      exact ⟨hfree, hnot', hnone'⟩
    · obtain ⟨hfree, hnot, hnone⟩ := h'.apart f hlost
      refine ⟨?_, hnot, hnone⟩
      rcases (h.accounts f).mpr (.inl (.inl hfree)) with hf | ⟨path, hf⟩
      · exact hf
      · exact absurd hfree (h.owned.notFree f _ (h.kept f _ hf))

theorem Filled.mono (h : Filled space mapped lost places m places' m')
    (hsub : ∀ v, mapped v → mapped' v) (hlost : ∀ f, lost f ↔ lost' f) :
    Filled space mapped' lost' places m places' m' where
  owned := h.owned
  kept := h.kept
  touches := h.touches
  entries := h.entries
  same := h.same.mono fun _ _ _ ⟨ho, v, hv, hpath⟩ => ⟨ho, v, hsub v hv, hpath⟩
  contents := h.contents
  linked := h.linked
  accounts f := by rw [← hlost]; exact h.accounts f
  apart f hf := h.apart f ((hlost f).mpr hf)

/-- A walk that makes tables. -/
theorem Grows.filled {flags : PageFlags} (hg : Grows flags (.space space) places m places' m')
    (h : Owned places m) (h' : Owned places' m') (huser : flags.bits &&& userBit ≠ 0)
    (hcontents : KeepsContents places m m') :
    Filled space mapped (fun _ => False) places m places' m' where
  owned := h'
  kept := hg.kept
  touches := hg.touches
  entries o f is last hf hlen hin _ := hg.sameEntries o f is last hf hlen hin id
  same := hg.sameEntries.mono fun _ _ _ hbad => hbad.elim
  contents := hcontents
  linked := hg.userLinked fun _ => huser
  accounts f := by rw [or_iff_left id, hg.freeOrIn_iff h h' f]
  apart _ hbad := hbad.elim

/-- A frame that is handed out and cleared is lost, as long as nothing refers
to it. -/
theorem Owned.takeFrame {frame : Nat} {frames : FrameAllocator} (h : Owned places m)
    (halloc : m.frames.allocate = (some frame, frames)) :
    Filled space mapped (· = frame) places m places
      (({ m with frames } : Memory).zeroPhysicalFrame frame) := by
  obtain ⟨h₁, htouch, hfree, hfresh, -, hnot⟩ := h.allocate halloc
  have hothers := (FrameAllocator.allocate_some halloc).2.2.2
  have hne : ∀ f x, places f = some x → f ≠ frame := by
    rintro f x hf rfl
    rw [hfresh] at hf
    cases hf
  have hwords : ∀ f, f ≠ frame →
      (({ m with frames } : Memory).zeroPhysicalFrame frame).words f = m.words f :=
    fun f hf => put_other hf
  have hsame := sameEntries_of_words h fun f o path hf _ => hwords f (hne f _ hf)
  constructor
  · refine ⟨h.forest.congr fun f o path i hf _ _ => ?_, h₁.notFree, h₁.allocated, h₁.aligned⟩
    rw [hwords f (hne f _ hf)]
  · exact fun _ _ hf => hf
  · refine ⟨fun f hf hfree' _ => ?_, fun _ _ => Iff.rfl, fun f o i hf _ => ?_, rfl, rfl⟩
    · have hff : f ≠ frame := by
        rintro rfl
        exact hfree' hfree
      obtain ⟨hf₁, -, hfree₁, hall₁⟩ := htouch.frames f hf hfree' id
      exact ⟨hf₁, hwords f hff, hfree₁, hall₁⟩
    · rw [hwords f (hne f _ hf)]
  · exact fun o f is last hf hlen hin _ => hsame o f is last hf hlen hin id
  · exact hsame.mono fun _ _ _ hbad => hbad.elim
  · exact fun f o path hf _ => hwords f (hne f _ hf)
  · intro hlinked f r path i hf hlen hin hp
    rw [hwords f (hne f _ hf)] at hp ⊢
    exact hlinked f r path i hf hlen hin hp
  · intro f
    unfold FreeOrIn
    by_cases hf : f = frame
    · subst hf
      exact iff_of_true (.inl hfree) (.inr rfl)
    · rw [or_iff_left hf]
      exact or_congr_left (hothers f hf).1.symm
  · rintro f rfl
    exact ⟨hfree, hnot, hfresh⟩

/-- A frame that was lost is mapped. -/
theorem Filled.fill {flags : PageFlags} {page frame final : Nat}
    (h : Filled space mapped (· = frame) places m places' m') (ho : Owned places m)
    (hroot : places space = some (.space space, []))
    (hfinal : places' final = some (.space space, (upperIndices page).reverse ++ []))
    (hwalk : pageTree.walk m'.words (upperIndices page) space = some final)
    (habsent : ¬ Present (m'.words final (leafIndex page))) (hall : m'.frames.IsAllocated frame)
    (hpage : mapped page) :
    Filled space mapped (fun _ => False) places m
      (Function.update places' frame
        (some (.space space, leafIndex page :: ((upperIndices page).reverse ++ []))))
      (m'.writeWord final (leafIndex page) (frame ||| flags.bits)) := by
  obtain ⟨hfree, hnot, hnone⟩ := h.apart frame rfl
  have hold : ∀ f x, places f = some x → f ≠ frame := by
    rintro f x hf rfl
    rw [ho.none_of_free hfree] at hf
    cases hf
  have hdepth : ((upperIndices page).reverse ++ []).length + 1 = pageTree.depth (.space space) :=
    rfl
  have hfill := h.owned.fill hfinal hdepth flags (inside_leaf space page) habsent hnone hall hnot
  have hsame : SameEntries places' m' (m'.writeWord final (leafIndex page)
      (frame ||| flags.bits)) _ := sameEntries_write h.owned hfinal rfl _
  have hcontents : ∀ f o path, places' f = some (o, path) → path.length = pageTree.depth o →
      (m'.writeWord final (leafIndex page) (frame ||| flags.bits)).words f = m'.words f := by
    intro f o path hf hlen
    refine (wrote_writeWord m' _).other f ?_
    rintro rfl
    rw [hfinal] at hf
    obtain ⟨rfl, rfl⟩ := Prod.mk.inj (Option.some.inj hf)
    exact absurd hlen (show ¬ 3 = 4 by decide)
  constructor
  · exact hfill
  · intro f x hf
    rw [Function.update_of_ne (hold f x hf)]
    exact h.kept f x hf
  · refine h.touches.after (touches_fill hfinal _ (inside_leaf space page) hnone) ?_
    rintro f rfl -
    exact hfree
  · intro o f is last hf hlen hin hsome
    have hkept := h.entries o f is last hf hlen hin hsome
    rw [← hkept]
    refine hsame o f is last (h.kept f _ hf) hlen hin ?_
    rintro ⟨rfl, rfl, rfl⟩
    rw [ho.forest.root hf hroot] at hkept hsome
    rw [entry_of_walk hwalk, if_neg habsent] at hkept
    rw [← hkept] at hsome
    cases hsome
  · intro o f is last hf hlen hin hnot'
    rw [hsame o f is last (h.kept f _ hf) hlen hin ?_]
    · exact h.same o f is last hf hlen hin hnot'
    · rintro ⟨rfl, rfl, rfl⟩
      exact hnot' ⟨rfl, page, hpage, rfl, rfl⟩
  · exact fun f o path hf hlen =>
      (hcontents f o path (h.kept f _ hf) hlen).trans (h.contents f o path hf hlen)
  · intro hlinked
    refine (h.linked hlinked).writeLeaf hfinal hdepth ?_ _
    intro f r path' hf hlen
    by_cases hfp : f = frame
    · rw [hfp, Function.update_self] at hf
      obtain ⟨-, rfl⟩ := Prod.mk.inj (Option.some.inj hf)
      exact absurd hlen (show ¬ 4 + 1 < 4 by decide)
    · rwa [Function.update_of_ne hfp] at hf
  · intro f
    rw [or_iff_left id, h.accounts f]
    unfold FreeOrIn
    by_cases hf : f = frame
    · subst hf
      rw [Function.update_self]
      exact iff_of_true (.inr rfl) (.inr ⟨_, rfl⟩)
    · rw [Function.update_of_ne hf]
      exact or_iff_left hf
  · exact fun _ hbad => hbad.elim

/-- Lookups do not read the bytes of a page. -/
theorem sameEntries_rewrite {words : Nat → Nat → Nat} {frame : Nat} {path : List Nat}
    (h : Owned places m) (hplace : places frame = some (.space space, path))
    (hlen : path.length = 4) (hother : ∀ f, f ≠ frame → words f = m.words f) :
    SameEntries places m { m with words } fun _ _ _ => False := by
  refine sameEntries_of_words h fun f o path' hf hlt => hother f ?_
  rintro rfl
  rw [hplace] at hf
  obtain ⟨rfl, rfl⟩ := Prod.mk.inj (Option.some.inj hf)
  rw [hlen] at hlt
  exact absurd hlt (show ¬ 4 < 4 by decide)

/-- The bytes of a page that has been mapped are written. -/
theorem Filled.rewrite {words : Nat → Nat → Nat} {frame : Nat} {path : List Nat}
    (h : Filled space mapped lost places m places' m')
    (hplace : places' frame = some (.space space, path)) (hlen : path.length = 4)
    (hnone : places frame = none) (hfree : m.frames.IsFree frame)
    (hother : ∀ f, f ≠ frame → words f = m'.words f) :
    Filled space mapped lost places m places' { m' with words } := by
  have hold : ∀ f x, places f = some x → words f = m'.words f := by
    intro f x hf
    refine hother f ?_
    rintro rfl
    rw [hnone] at hf
    cases hf
  have htable : ∀ f o path, places' f = some (o, path) → path.length < pageTree.depth o →
      words f = m'.words f := by
    intro f o path' hf hlt
    refine hother f ?_
    rintro rfl
    rw [hplace] at hf
    obtain ⟨rfl, rfl⟩ := Prod.mk.inj (Option.some.inj hf)
    rw [hlen] at hlt
    exact absurd hlt (show ¬ 4 < 4 by decide)
  have hsame : SameEntries places' m' { m' with words } fun _ _ _ => False :=
    sameEntries_rewrite h.owned hplace hlen hother
  constructor
  · refine ⟨h.owned.forest.congr fun f o path i hf hlt _ => ?_, h.owned.notFree,
      h.owned.allocated, h.owned.aligned⟩
    exact congrFun (htable f o path hf hlt) i
  · exact h.kept
  · refine ⟨fun f hf hnot hused => ?_, h.touches.roots, fun f o i hf hout => ?_,
      h.touches.cr3, h.touches.offset⟩
    · obtain ⟨hf', hwords, hrest⟩ := h.touches.frames f hf hnot hused
      refine ⟨hf', (hother f ?_).trans hwords, hrest⟩
      rintro rfl
      exact hnot hfree
    · show words f i = m.words f i
      rw [hold f _ hf]
      exact h.touches.outside f o i hf hout
  · intro o f is last hf hlen hin hsome
    rw [hsame o f is last (h.kept f _ hf) hlen hin id]
    exact h.entries o f is last hf hlen hin hsome
  · intro o f is last hf hlen hin hnot
    rw [hsame o f is last (h.kept f _ hf) hlen hin id]
    exact h.same o f is last hf hlen hin hnot
  · exact fun f o path hf hlen => (hold f _ hf).trans (h.contents f o path hf hlen)
  · intro hlinked f r path i hf hlen hin hp
    have hwords : words f = m'.words f :=
      htable f _ path hf (show path.length < 4 by omega)
    change Present (words f i) at hp
    show words f i &&& _ = _
    rw [hwords] at hp ⊢
    exact h.linked hlinked f r path i hf hlen hin hp
  · exact h.accounts
  · exact h.apart

end Filled

/-! ## One page -/

/-- A page that has been mapped to a cleared frame. -/
structure NewPage (space : Nat) (flags : PageFlags) (page frame : Nat) (places : Places)
    (m : Memory) (places' : Places) (m' : Memory) : Prop where
  inUser : InUserSpace page
  fresh : m.frames.IsFree frame
  absent : pageTree.entry m.words (upperIndices page) (leafIndex page) space = none
  entry : pageTree.entry m'.words (upperIndices page) (leafIndex page) space =
    some (frame ||| flags.bits)
  place : places' frame =
    some (.space space, leafIndex page :: (upperIndices page).reverse)
  clear : m'.words frame = fun _ => 0
  paths : ∀ f path, places' f = some (.space space, path) →
    places f = some (.space space, path) ∨ path <:+ pagePath page

/-- Why a page has not been mapped: no frame was left, or the frame that was
taken for it is lost. -/
def Refused (space : Nat) (page : Nat) (places : Places) (m : Memory) (e : PagingError)
    (m' : Memory) : Prop :=
  (e = .frameAllocationFailed ∧ m.frames.allocate.1 = none ∧ m' = m) ∨
    ∃ frame places', m.frames.IsFree frame ∧
      Filled space (fun _ => False) (· = frame) places m places' m' ∧
      (e = .invalidUserAddress ∧ ¬ InUserSpace page ∨
        e = .alreadyMapped ∧ InUserSpace page ∧
          (pageTree.entry m.words (upperIndices page) (leafIndex page) space).isSome ∨
        e = .frameAllocationFailed ∧ InUserSpace page ∧
          pageTree.entry m.words (upperIndices page) (leafIndex page) space = none ∧
          m'.frames.allocate.1 = none ∧
          (∀ f, places' f ≠ some (.space space, (upperIndices page).reverse)) ∧
          ∀ f path, places' f = some (.space space, path) →
            places f = some (.space space, path) ∨ path <:+ pagePath page)

section Turn

variable {flags : PageFlags} {places places' : Places} {m m' : Memory}
  {space page frame : Nat}

theorem newUserPage_run (space : Nat) (flags : PageFlags) (page : Nat) (m : Memory) :
    newUserPage space flags page m =
      match m.frames.allocate with
      | (none, _) => .error .frameAllocationFailed m
      | (some frame, frames) =>
        match mapUserPageIn space page frame flags
            (({ m with frames } : Memory).zeroPhysicalFrame frame) with
        | .ok _ m' => .ok frame m'
        | .error e m' => .error e m' := by
  show EStateM.bind allocatePhysicalFrame _ m = _
  unfold EStateM.bind allocatePhysicalFrame
  cases hx : m.frames.allocate with
  | mk result frames =>
    cases result with
    | none => rw [FrameAllocator.allocate_none hx]
    | some frame =>
      show EStateM.bind (mapUserPageIn space page frame flags) _ _ = _
      unfold EStateM.bind
      dsimp only
      cases mapUserPageIn space page frame flags
        (({ m with frames } : Memory).zeroPhysicalFrame frame) <;> rfl

/-- How a turn of the loops ends. -/
theorem Owned.newUserPage (h : Owned places m)
    (hroot : places space = some (.space space, [])) (page : Nat)
    (huser : flags.bits &&& userBit ≠ 0) :
    match OpenKernel.newUserPage space flags page m with
    | .ok frame m' => ∃ places',
        Filled space (· = page) (fun _ => False) places m places' m' ∧
        NewPage space flags page frame places m places' m'
    | .error e m' => Refused space page places m e m' := by
  rw [newUserPage_run]
  cases hx : m.frames.allocate with
  | mk result frames =>
    cases result with
    | none => exact .inl ⟨rfl, by rw [hx], rfl⟩
    | some frame =>
      dsimp only
      obtain ⟨hfree, hall, -, -⟩ := FrameAllocator.allocate_some hx
      have htake : Filled space (fun _ => False) (· = frame) places m places
          (({ m with frames } : Memory).zeroPhysicalFrame frame) := h.takeFrame hx
      have hclear : (({ m with frames } : Memory).zeroPhysicalFrame frame).words frame =
          fun _ => 0 := put_same _ _ _
      generalize hm₁ : ({ m with frames } : Memory).zeroPhysicalFrame frame = m₁ at htake hclear ⊢
      have hall₁ : m₁.frames.IsAllocated frame := by
        rw [← hm₁]
        exact hall
      unfold mapUserPageIn
      by_cases hv : InUserSpace page
      · rw [if_pos hv, mapPageIn_eq, h.aligned space _ hroot]
        have hin := within_space space hv.2
        have hlen : ([] : List Nat).length + (upperIndices page).length <
            pageTree.depth (.space space) := show 0 + 3 < 4 by omega
        have hentry : pageTree.entry m₁.words (upperIndices page) (leafIndex page) space =
            pageTree.entry m.words (upperIndices page) (leafIndex page) space :=
          htake.same _ _ _ _ hroot rfl hin fun ⟨_, _, hbad, _⟩ => hbad
        have hwalk := htake.owned.descends hroot flags hlen hin
        have hplaces := htake.owned.descends_places hroot flags hlen hin
        have hcontents := walk_contents htake.owned hroot flags rfl hin
        cases hy : (upperIndices page).foldlM (OpenKernel.descend flags) space m₁ with
        | error e m₂ =>
          rw [hy] at hwalk hcontents hplaces
          obtain ⟨he, hnone, hwalk, places₂, h₂, hgrows⟩ := hwalk
          obtain ⟨hlast, hfront⟩ := hplaces places₂ h₂ fun f o =>
            ⟨hgrows.roots f o, hgrows.kept f _⟩
          rw [List.append_nil] at hlast hfront
          rw [mapFrom_of_error hy]
          have hgrown : Filled space (fun _ => False) (fun _ => False) places m₁ places₂ m₂ :=
            hgrows.filled htake.owned h₂ huser hcontents
          refine .inr ⟨frame, places₂, hfree, (htake.trans hgrown).mono (fun _ => id)
            fun f => or_iff_left id, .inr (.inr ⟨he, hv, ?_, hnone, hlast, fun f path hf => ?_⟩)⟩
          · rw [← hentry]
            exact entry_of_walk_none hwalk
          · exact (hfront f _ path hf).imp_right fun hsuffix =>
              hsuffix.2.trans (List.suffix_cons _ _)
        | ok final m₂ =>
          rw [hy] at hwalk hcontents hplaces
          obtain ⟨places₂, h₂, hgrows, hfinal, hwalk⟩ := hwalk
          have hfront := hplaces places₂ h₂ fun f o => ⟨hgrows.roots f o, hgrows.kept f _⟩
          rw [List.append_nil] at hfront
          have hgrown : Filled space (fun _ => False) (fun _ => False) places m₁ places₂ m₂ :=
            hgrows.filled htake.owned h₂ huser hcontents
          have hlost : Filled space (fun _ => False) (· = frame) places m places₂ m₂ :=
            (htake.trans hgrown).mono (fun _ => id) fun f => or_iff_left id
          have hsame : pageTree.entry m₂.words (upperIndices page) (leafIndex page) space =
              pageTree.entry m₁.words (upperIndices page) (leafIndex page) space :=
            hgrown.same _ _ _ _ hroot rfl hin fun ⟨_, _, hbad, _⟩ => hbad
          rw [entry_of_walk hwalk, hentry] at hsame
          rw [mapFrom_of_walk hy]
          by_cases hp : Present (m₂.words final (leafIndex page))
          · rw [if_pos hp] at hsame ⊢
            exact .inr ⟨frame, places₂, hfree, hlost, .inr (.inl ⟨rfl, hv, by rw [← hsame]; rfl⟩)⟩
          · rw [if_neg hp] at hsame ⊢
            rw [hall₁.target_eq]
            have hall₂ := hgrows.held frame hall₁
            obtain ⟨-, -, hnone⟩ := hlost.apart frame rfl
            refine ⟨_, (hlost.mono (fun _ hbad => hbad.elim) fun _ => Iff.rfl).fill h hroot
              hfinal hwalk hp hall₂ rfl, hv, hfree, hsame.symm, ?_, ?_, ?_, ?_⟩
            · rw [entry_write_self h₂ (hgrows.kept _ _ hroot) rfl hin hwalk,
                if_pos (present_page hall₂.target_eq flags)]
            · rw [Function.update_self]
              rfl
            · rw [← hclear, ← hgrows.words frame hnone]
              refine (wrote_writeWord m₂ _).other frame ?_
              rintro rfl
              rw [hnone] at hfinal
              cases hfinal
            · intro f path hf
              by_cases hff : f = frame
              · rw [hff, Function.update_self] at hf
                obtain ⟨-, rfl⟩ := Prod.mk.inj (Option.some.inj hf)
                exact .inr (by rw [List.append_nil]; exact List.suffix_refl _)
              · rw [Function.update_of_ne hff] at hf
                exact (hfront f _ path hf).imp_right fun hsuffix =>
                  hsuffix.2.trans (List.suffix_cons _ _)
      · rw [if_neg hv]
        exact .inr ⟨frame, places, hfree, htake, .inl ⟨rfl, hv⟩⟩

end Turn

/-! ## Page after page -/

/-- The loop that maps new pages. -/
def newUserPages (space : Nat) (flags : PageFlags) (pages : List Nat) : Paging Unit :=
  pages.forM fun page => do
    let _ ← newUserPage space flags page

/-- Different pages. -/
def Distinct (pages : List Nat) : Prop :=
  pages.Pairwise fun v w => v / pageSize ≠ w / pageSize

section Loop

variable {flags : PageFlags} {places places' : Places} {m m' : Memory}
  {space page : Nat} {pages : List Nat}

theorem newUserPages_cons (space : Nat) (flags : PageFlags) (page : Nat) (pages : List Nat)
    (m : Memory) :
    newUserPages space flags (page :: pages) m =
      match newUserPage space flags page m with
      | .ok _ m' => newUserPages space flags pages m'
      | .error e m' => .error e m' := by
  show EStateM.bind (EStateM.bind (newUserPage space flags page) _) _ m = _
  unfold EStateM.bind
  cases newUserPage space flags page m <;> rfl

/-- Why the loop has stopped, if not for want of a frame. -/
def StopsAt (space : Nat) (pages : List Nat) (m : Memory) (e : PagingError) : Prop :=
  e = .frameAllocationFailed ∨
    (e = .alreadyMapped ∧ ∃ v ∈ pages, InUserSpace v ∧
      (pageTree.entry m.words (upperIndices v) (leafIndex v) space).isSome) ∨
    e = .invalidUserAddress ∧ ∃ v ∈ pages, ¬ InUserSpace v

/-- A page that the others are not keeps its entry. -/
theorem Filled.entry_eq {mapped lost : Nat → Prop}
    (h : Filled space mapped lost places m places' m')
    (hroot : places space = some (.space space, [])) {v : Nat} (hv : InUserSpace v)
    (hnot : ∀ w, mapped w → InUserSpace w ∧ v / pageSize ≠ w / pageSize) :
    pageTree.entry m'.words (upperIndices v) (leafIndex v) space =
      pageTree.entry m.words (upperIndices v) (leafIndex v) space := by
  refine h.same _ _ _ _ hroot rfl (within_space space hv.2) ?_
  rintro ⟨-, w, hw, hpath, hlast⟩
  obtain ⟨hwuser, hne⟩ := hnot w hw
  exact hne ((same_page hv.2 hwuser.2).mp ⟨hpath, hlast⟩)

/-- How the loop ends. -/
theorem Owned.newUserPages (h : Owned places m)
    (hroot : places space = some (.space space, [])) (huser : flags.bits &&& userBit ≠ 0)
    (hdistinct : Distinct pages) :
    match OpenKernel.newUserPages space flags pages m with
    | .ok _ m' => ∃ places', Filled space (· ∈ pages) (fun _ => False) places m places' m' ∧
        ∀ v ∈ pages, InUserSpace v ∧
          pageTree.entry m.words (upperIndices v) (leafIndex v) space = none ∧
          ∃ frame, places' frame = some (.space space, leafIndex v :: (upperIndices v).reverse) ∧
            pageTree.entry m'.words (upperIndices v) (leafIndex v) space =
              some (frame ||| flags.bits)
    | .error e m' => StopsAt space pages m e ∧
        ∃ places' lost, Filled space (· ∈ pages) lost places m places' m' := by
  induction pages generalizing places m with
  | nil => exact ⟨places, .refl h, fun v hv => nomatch hv⟩
  | cons page pages ih =>
    obtain ⟨hfirst, hrest⟩ := List.pairwise_cons.mp hdistinct
    have hone := h.newUserPage hroot page huser
    rw [newUserPages_cons]
    cases hx : OpenKernel.newUserPage space flags page m with
    | error e m₁ =>
      rw [hx] at hone
      dsimp only
      rcases hone with ⟨he, -, rfl⟩ | ⟨frame, places₁, -, hfilled, hwhy⟩
      · exact ⟨.inl he, places, _, .refl h⟩
      · refine ⟨?_, places₁, _, hfilled.mono (fun _ hbad => hbad.elim) fun _ => Iff.rfl⟩
        rcases hwhy with ⟨he, hv⟩ | ⟨he, hv, hsome⟩ | ⟨he, -⟩
        · exact .inr (.inr ⟨he, page, List.mem_cons_self, hv⟩)
        · exact .inr (.inl ⟨he, page, List.mem_cons_self, hv, hsome⟩)
        · exact .inl he
    | ok frame m₁ =>
      rw [hx] at hone
      obtain ⟨places₁, hfilled, hnew⟩ := hone
      have htail := ih hfilled.owned (hfilled.kept _ _ hroot) hrest
      have hone' : Filled space (· ∈ page :: pages) (fun _ => False) places m places₁ m₁ :=
        hfilled.mono (fun v hv => hv ▸ List.mem_cons_self) fun _ => Iff.rfl
      have hsame : ∀ v ∈ pages, InUserSpace v →
          pageTree.entry m₁.words (upperIndices v) (leafIndex v) space =
            pageTree.entry m.words (upperIndices v) (leafIndex v) space := by
        intro v hv hvuser
        refine hfilled.entry_eq hroot hvuser fun w hw => ?_
        rw [hw]
        exact ⟨hnew.inUser, (hfirst v hv).symm⟩
      dsimp only
      cases hy : OpenKernel.newUserPages space flags pages m₁ with
      | error e m₂ =>
        rw [hy] at htail
        obtain ⟨hwhy, places₂, lost, hfilled'⟩ := htail
        have hfilled₂ : Filled space (· ∈ page :: pages) lost places₁ m₁ places₂ m₂ :=
          hfilled'.mono (fun v hv => List.mem_cons_of_mem page hv) fun _ => Iff.rfl
        refine ⟨?_, places₂, _, hone'.trans hfilled₂⟩
        rcases hwhy with he | ⟨he, v, hv, hvuser, hsome⟩ | ⟨he, v, hv, hnot⟩
        · exact .inl he
        · refine .inr (.inl ⟨he, v, List.mem_cons_of_mem page hv, hvuser, ?_⟩)
          rwa [← hsame v hv hvuser]
        · exact .inr (.inr ⟨he, v, List.mem_cons_of_mem page hv, hnot⟩)
      | ok u m₂ =>
        rw [hy] at htail
        obtain ⟨places₂, hfilled', hpages⟩ := htail
        have hfilled₂ : Filled space (· ∈ page :: pages) (fun _ => False) places₁ m₁ places₂ m₂ :=
          hfilled'.mono (fun v hv => List.mem_cons_of_mem page hv) fun _ => Iff.rfl
        refine ⟨places₂, (hone'.trans hfilled₂).mono (fun _ => id) fun _ => or_iff_left id,
          fun v hv => ?_⟩
        rcases List.mem_cons.mp hv with rfl | hv
        · refine ⟨hnew.inUser, hnew.absent, frame, hfilled'.kept _ _ hnew.place, ?_⟩
          rw [← hnew.entry]
          exact hfilled'.entries _ _ _ _ (hfilled.kept _ _ hroot) rfl
            (within_space space hnew.inUser.2) (by rw [hnew.entry]; rfl)
        · obtain ⟨hvuser, habsent, frame', hplace, hentry⟩ := hpages v hv
          exact ⟨hvuser, (hsame v hv hvuser).symm.trans habsent, frame', hplace, hentry⟩

end Loop

/-! ## Lookups -/

section Lookup

variable {m : Memory} {space v : Nat}

/-- A lookup in a sound space is an entry of its tree. -/
theorem lookup_sound {places : Places} (h : Owned places m)
    (hroot : places space = some (.space space, [])) (v : Nat) :
    m.lookup space v = pageTree.entry m.words (upperIndices v) (leafIndex v) space := by
  rw [lookup_eq, h.aligned space _ hroot]

/-- Two addresses in one page. -/
theorem lookup_page {w : Nat} (m : Memory) (space : Nat) (hv : v < userSpaceEnd)
    (hw : w < userSpaceEnd) (hpage : v / pageSize = w / pageSize) :
    m.lookup space v = m.lookup space w := by
  obtain ⟨hpath, hlast⟩ := (same_page hv hw).mpr hpage
  rw [lookup_eq, lookup_eq, hpath, hlast]

end Lookup

/-! ## Empty spaces -/

/-- The page tables are a forest with the tree of the space in it. -/
def HasSpace (space : Nat) (m : Memory) : Prop :=
  ∃ places, Owned places m ∧ places space = some (.space space, [])

/-- The root table of the space has no entry in its lower half. -/
def EmptySpace (m : Memory) (space : Nat) : Prop :=
  ∀ i < 256, ¬ Present (m.words (target space) i)

instance (m : Memory) (space : Nat) : Decidable (EmptySpace m space) :=
  Nat.decidableBallLT 256 fun i _ => ¬ Present (m.words (target space) i)

/-- Nothing is mapped in an empty space. -/
theorem EmptySpace.lookup {m : Memory} {space v : Nat} (h : EmptySpace m space)
    (hv : v < userSpaceEnd) : m.lookup space v = none := by
  have hindex : (v >>> 39) &&& 0x1FF < 256 := by
    rw [index_eq]
    have : userSpaceEnd = 2 ^ 47 := by decide
    omega
  unfold Memory.lookup
  have hwalk : m.walk (upperIndices v) (target space) = none := by
    rw [walk_eq]
    show (pageTree.follow (m.words (target space) ((v >>> 39) &&& 0x1FF))).bind _ = none
    unfold Radix.follow
    rw [ref_eq_none (h _ hindex), ite_self]
    rfl
  rw [hwalk]
  rfl

end OpenKernel
