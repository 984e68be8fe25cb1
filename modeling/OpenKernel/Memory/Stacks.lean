import OpenKernel.Memory.Mapping

/-!
# Stacks

`allocate_kernel_stack`, `release_kernel_stack` and `release_user_stack` map
and unmap one page after the other in the active space.  `Alters` sums up
what such a sequence of pages does to the forest, also when it stops midway,
and composes over the pages.
-/

namespace OpenKernel

open Lib

/-- The indices of an address in the trees of an owner. -/
def pathIn : Owner → Nat → List Nat
  | .space _, v => upperIndices v
  | .window, v => windowIndices v

/-- The entries of the given pages of a tree. -/
def PageEntries (o : Owner) (pages : List Nat) (o' : Owner) (is : List Nat)
    (last : Nat) : Prop :=
  o' = o ∧ ∃ v ∈ pages, is = pathIn o v ∧ last = leafIndex v

/-- What mapping and unmapping the given pages of one tree leaves behind. -/
def Alters (o : Owner) (pages : List Nat) (places : Places) (m m' : Memory) : Prop :=
  ∃ places', Owned places' m' ∧ Touches (fun _ => False) places m places' m' ∧
    SameEntries places m m' (PageEntries o pages) ∧
    (UserLinked places m → UserLinked places' m')

/-- The page at `v` of the active space is the one of the tree with this
root. -/
structure Access (o : Owner) (root : Nat) (places : Places) (m : Memory) (v : Nat) :
    Prop where
  place : places root = some (o, [])
  within : pageTree.Within o [] (pathIn o v)
  leaf : pageTree.inside o ((pathIn o v).reverse ++ []) (leafIndex v)
  unmap : m.unmapPage v = m.unmapFrom (pathIn o v) (leafIndex v) root
  map : ∀ m' : Memory, m'.words = m.words → m'.cr3 = m.cr3 → ∀ page flags,
    mapPage v page flags m' = mapFrom flags (pathIn o v) (leafIndex v) page root m'

theorem length_pathIn (o : Owner) (v : Nat) :
    (pathIn o v).length + 1 = pageTree.depth o := by
  cases o <;> rfl

theorem unmapPage_window {m : Memory} {places : Places} {v : Nat}
    (hw : HasWindow places m (target m.cr3)) (hv : deviceWindowBase ≤ v)
    (hv' : v < windowEnd) :
    m.unmapPage v = m.unmapFrom (windowIndices v) (leafIndex v)
      (target (m.words (target m.cr3) windowEntry)) := by
  rw [unmapPage_eq, upperIndices_window hv hv']
  unfold Memory.unmapFrom
  rw [walk_eq, walk_eq]
  conv_lhs => rw [Radix.walk, hw.follow]
  rfl

/-- User pages of the active space. -/
theorem Access.space {places : Places} {m : Memory} {v : Nat}
    (hroot : places (target m.cr3) = some (.space (target m.cr3), []))
    (hv : v < userSpaceEnd) :
    Access (.space (target m.cr3)) (target m.cr3) places m v where
  place := hroot
  within := within_space _ hv
  leaf := inside_leaf _ v
  unmap := unmapPage_eq m v
  map m' _ hcr3 page flags := by
    show mapPageIn m'.cr3 v page flags m' = _
    rw [hcr3]
    rfl

/-- Pages of kernel stacks. -/
theorem Access.window {places : Places} {m : Memory} {v : Nat}
    (hw : HasWindow places m (target m.cr3)) (hv : kernelStackGuardPage ≤ v)
    (hv' : v < windowEnd) :
    Access .window (target (m.words (target m.cr3) windowEntry)) places m v where
  place := hw.2.2
  within := within_window v
  leaf := (inside_window_leaf (Nat.le_trans (by decide) hv) hv').mpr hv
  unmap := unmapPage_window hw (Nat.le_trans (by decide) hv) hv'
  map m' hwords hcr3 page flags := by
    have hw' : HasWindow places m' (target m.cr3) := by
      unfold HasWindow
      rw [hwords]
      exact hw
    show mapPageIn m'.cr3 v page flags m' = _
    rw [hcr3, mapPageIn_window hw' (Nat.le_trans (by decide) hv) hv', hwords]
    rfl

/-! ## One page -/

/-- Unmap a page and give its frame back. -/
def Memory.releasePage (m : Memory) (page : Nat) : Memory :=
  match m.unmapPage page with
  | (some frame, m) => m.freePhysicalFrame frame
  | (none, m) => m

theorem releasePages_cons (m : Memory) (page : Nat) (pages : List Nat) :
    m.releasePages (page :: pages) = (m.releasePage page).releasePages pages := rfl

/-- Map a page to a new frame. -/
def mapNewPage (flags : PageFlags) (page : Nat) : Paging Unit := do
  let frame ← allocatePhysicalFrame
  mapPage page frame flags

/-- Mapping pages changes no entry that is there. -/
def KeepsEntries (places : Places) (m m' : Memory) : Prop :=
  ∀ o f is last, places f = some (o, []) → is.length + 1 = pageTree.depth o →
    pageTree.Within o [] is → (pageTree.entry m.words is last f).isSome →
      pageTree.entry m'.words is last f = pageTree.entry m.words is last f

section Pages

variable {o : Owner} {root v : Nat} {pages pages' : List Nat} {places places' : Places}
  {m m' m'' : Memory} {flags : PageFlags}

theorem Alters.refl (h : Owned places m) : Alters o pages places m m :=
  ⟨places, h, .refl, fun _ _ _ _ _ _ _ _ => rfl, id⟩

theorem SameEntries.trans {except except' : Owner → List Nat → Nat → Prop}
    (h : SameEntries places m m' except) (h' : SameEntries places' m' m'' except')
    (hroots : ∀ f o, places' f = some (o, []) ↔ places f = some (o, [])) :
    SameEntries places m m'' fun o is last => except o is last ∨ except' o is last := by
  intro o f is last hf hlen hin hnot
  rw [not_or] at hnot
  rw [h' o f is last ((hroots f o).mpr hf) hlen hin hnot.2, h o f is last hf hlen hin hnot.1]

theorem SameEntries.mono {except except' : Owner → List Nat → Nat → Prop}
    (h : SameEntries places m m' except)
    (hsub : ∀ o is last, except o is last → except' o is last) :
    SameEntries places m m' except' :=
  fun o f is last hf hlen hin hnot => h o f is last hf hlen hin (mt (hsub o is last) hnot)

/-- A page that is unmapped and freed has no entry left. -/
theorem Access.releasePage (ha : Access o root places m v) (h : Owned places m) :
    Alters o [v] places m (m.releasePage v) ∧
      pageTree.entry (m.releasePage v).words (pathIn o v) (leafIndex v) root = none := by
  have hends := h.unmapEntry ha.place (leafIndex v) (length_pathIn o v) ha.within ha.leaf
  rw [← ha.unmap] at hends
  unfold Memory.releasePage
  cases hx : m.unmapPage v with
  | mk frame m' =>
    cases frame with
    | none =>
      rw [hx] at hends
      obtain ⟨rfl, hnone⟩ := hends
      exact ⟨.refl h, hnone⟩
    | some frame =>
      rw [hx] at hends
      obtain ⟨-, hnone, hsame, -, ⟨path, hplace, -⟩, h', htouch, hlinked⟩ := hends
      have hfree := h'.freePhysicalFrame (Function.update_self frame none places)
      refine ⟨⟨_, hfree.1, htouch.after hfree.2 ?_, ?_, hlinked⟩, hnone⟩
      · rintro f rfl hf
        rw [hplace] at hf
        cases hf
      · refine SameEntries.mono hsame ?_
        rintro o' is last ⟨ho, his, hlast⟩
        exact ⟨ho, v, List.mem_singleton_self v, his, hlast⟩

/-- A page that is mapped to a new frame. -/
theorem Access.mapNewPage (ha : Access o root places m v) (h : Owned places m)
    (hflags : o ≠ .window → flags.bits &&& userBit ≠ 0) :
    match OpenKernel.mapNewPage flags v m with
    | .ok _ m' => (Alters o [v] places m m' ∧ KeepsEntries places m m') ∧
        (pageTree.entry m'.words (pathIn o v) (leafIndex v) root).isSome
    | .error _ m' => Alters o [v] places m m' ∧ KeepsEntries places m m' := by
  unfold OpenKernel.mapNewPage
  show match EStateM.bind allocatePhysicalFrame (fun frame => mapPage v frame flags) m with
    | .ok _ m' => (Alters o [v] places m m' ∧ KeepsEntries places m m') ∧
        (pageTree.entry m'.words (pathIn o v) (leafIndex v) root).isSome
    | .error _ m' => Alters o [v] places m m' ∧ KeepsEntries places m m'
  unfold EStateM.bind allocatePhysicalFrame
  cases hx : m.frames.allocate with
  | mk result frames =>
    cases result with
    | none =>
      rw [FrameAllocator.allocate_none hx]
      exact ⟨.refl h, fun _ _ _ _ _ _ _ _ => rfl⟩
    | some frame =>
      obtain ⟨h₁, htouch, hfree, hfresh, hall, hnot⟩ := h.allocate hx
      dsimp only
      rw [ha.map { m with frames } rfl rfl frame flags]
      have hends := h₁.mapEntry ha.place flags (leafIndex v) (length_pathIn o v) ha.within
        ha.leaf hfresh hall hnot
      have hentries : ∀ o' is last, o' = o ∧ is = pathIn o v ∧ last = leafIndex v →
          PageEntries o [v] o' is last := fun o' is last ⟨ho, his, hlast⟩ =>
        ⟨ho, v, List.mem_singleton_self v, his, hlast⟩
      cases hy : mapFrom flags (pathIn o v) (leafIndex v) frame root { m with frames } with
      | ok u m' =>
        rw [hy] at hends
        obtain ⟨hnone, hsome, hsame, places', h', htouch', hlinked⟩ := hends
        refine ⟨⟨⟨places', h', htouch.after htouch' ?_, ?_, hlinked hflags⟩, ?_⟩, ?_⟩
        · rintro f rfl _
          exact hfree
        · exact SameEntries.mono hsame hentries
        · intro o' f is last hf hlen hin hsome'
          refine hsame o' f is last hf hlen hin ?_
          rintro ⟨rfl, rfl, rfl⟩
          have hroot := h.forest.root hf ha.place
          rw [hroot, show pageTree.entry m.words (pathIn o' v) (leafIndex v) root = none from
            hnone] at hsome'
          cases hsome'
        · rw [hsome]
          rfl
      | error e m' =>
        rw [hy] at hends
        obtain ⟨-, hsame, places', h', htouch', hlinked⟩ := hends
        exact ⟨⟨places', h', htouch.trans htouch',
          SameEntries.mono hsame fun _ _ _ hbad => hbad.elim, hlinked hflags⟩,
          fun o' f is last hf hlen hin _ => hsame o' f is last hf hlen hin id⟩

end Pages

/-! ## Pages one after the other -/

/-- A root table whose entries outside the trees stay: that of a space, or a
frame that nobody can be given. -/
def Steady (places : Places) (m : Memory) (f : Nat) : Prop :=
  (∃ r, places f = some (.space r, [])) ∨ places f = none ∧ ¬ m.frames.IsFree f

theorem not_inside_upper {r i : Nat} (hi : 256 ≤ i) :
    ¬ pageTree.inside (.space r) [] i := by
  intro h
  have := h.2 rfl
  omega

/-- The upper half of a steady root table stays. -/
theorem Steady.touches {places places' : Places} {m m' : Memory} {f : Nat}
    (h : Steady places m f) (ht : Touches (fun _ => False) places m places' m') :
    Steady places' m' f ∧ ∀ i, 256 ≤ i → m'.words f i = m.words f i := by
  rcases h with ⟨r, hr⟩ | ⟨hnone, hfree⟩
  · exact ⟨.inl ⟨r, (ht.roots f _).mpr hr⟩, fun i hi =>
      ht.outside f _ i hr (not_inside_upper hi)⟩
  · obtain ⟨hnone', hwords, hfree', -⟩ := ht.frames f hnone hfree id
    exact ⟨.inr ⟨hnone', hfree'⟩, fun i _ => by rw [hwords]⟩

/-- The tree that the active space gives access to, with its root. -/
def Reach : Owner → Nat → Places → Memory → Prop
  | .space r, root, places, m =>
    r = root ∧ target m.cr3 = root ∧ places root = some (.space root, [])
  | .window, root, places, m =>
    Steady places m (target m.cr3) ∧ HasWindow places m (target m.cr3) ∧
      target (m.words (target m.cr3) windowEntry) = root

/-- The addresses that the calls map in a tree. -/
def PageOf : Owner → Nat → Prop
  | .space _, v => v < userSpaceEnd
  | .window, v => kernelStackGuardPage ≤ v ∧ v < windowEnd

section Sequence

variable {o : Owner} {root v : Nat} {pages pages' : List Nat} {places places' : Places}
  {m m' m'' : Memory} {flags : PageFlags}

theorem Reach.access (h : Reach o root places m) (hv : PageOf o v) :
    Access o root places m v := by
  cases o with
  | space r =>
    obtain ⟨rfl, rfl, hroot⟩ := h
    exact .space hroot hv
  | window =>
    obtain ⟨-, hw, rfl⟩ := h
    exact .window hw hv.1 hv.2

theorem windowEntry_upper : 256 ≤ windowEntry := by decide

theorem HasWindow.touches {f : Nat} (h : HasWindow places m f) (hs : Steady places m f)
    (ht : Touches (fun _ => False) places m places' m') :
    HasWindow places' m' f ∧ m'.words f windowEntry = m.words f windowEntry := by
  have hsame := (hs.touches ht).2 windowEntry windowEntry_upper
  unfold HasWindow
  rw [hsame]
  exact ⟨⟨h.1, h.2.1, (ht.roots _ _).mpr h.2.2⟩, rfl⟩

theorem Reach.touches (h : Reach o root places m)
    (ht : Touches (fun _ => False) places m places' m') : Reach o root places' m' := by
  cases o with
  | space r =>
    obtain ⟨hr, hcr3, hroot⟩ := h
    exact ⟨hr, by rw [ht.cr3]; exact hcr3, (ht.roots _ _).mpr hroot⟩
  | window =>
    obtain ⟨hs, hw, hroot⟩ := h
    obtain ⟨hw', hsame⟩ := hw.touches hs ht
    show Steady places' m' (target m'.cr3) ∧ HasWindow places' m' (target m'.cr3) ∧
      target (m'.words (target m'.cr3) windowEntry) = root
    rw [ht.cr3, hsame]
    exact ⟨(hs.touches ht).1, hw', hroot⟩

theorem Reach.place (h : Reach o root places m) : places root = some (o, []) := by
  cases o with
  | space r =>
    obtain ⟨rfl, -, hroot⟩ := h
    exact hroot
  | window =>
    obtain ⟨-, hw, rfl⟩ := h
    exact hw.2.2

/-- The pages of a list are altered one after the other. -/
theorem Alters.cons (h : Alters o [v] places m m')
    (h' : ∀ places', Owned places' m' → Touches (fun _ => False) places m places' m' →
      Alters o pages places' m' m'') : Alters o (v :: pages) places m m'' := by
  obtain ⟨places₁, h₁, htouch, hsame, hlinked⟩ := h
  obtain ⟨places₂, h₂, htouch', hsame', hlinked'⟩ := h' places₁ h₁ htouch
  refine ⟨places₂, h₂, htouch.trans htouch', ?_, hlinked' ∘ hlinked⟩
  refine (hsame.trans hsame' htouch.roots).mono ?_
  rintro o' is last (⟨ho, w, hw, hpath⟩ | ⟨ho, w, hw, hpath⟩)
  · rw [List.mem_singleton.mp hw] at hpath
    exact ⟨ho, v, List.mem_cons_self, hpath⟩
  · exact ⟨ho, w, List.mem_cons_of_mem v hw, hpath⟩

theorem Alters.mono (h : Alters o pages places m m') (hsub : pages ⊆ pages') :
    Alters o pages' places m m' := by
  obtain ⟨places', h', htouch, hsame, hlinked⟩ := h
  refine ⟨places', h', htouch, hsame.mono ?_, hlinked⟩
  rintro o' is last ⟨ho, w, hw, hpath⟩
  exact ⟨ho, w, hsub hw, hpath⟩

/-- An entry that the other pages leave alone, or that they treat alike. -/
theorem entry_after {P : Option Nat → Prop} (hroot : places root = some (o, []))
    (hin : pageTree.Within o [] (pathIn o v)) (h : Alters o pages places m m')
    (hbefore : P (pageTree.entry m.words (pathIn o v) (leafIndex v) root))
    (hafter : ∀ w ∈ pages, P (pageTree.entry m'.words (pathIn o w) (leafIndex w) root)) :
    P (pageTree.entry m'.words (pathIn o v) (leafIndex v) root) := by
  obtain ⟨places', -, -, hsame, -⟩ := h
  by_cases hhit : PageEntries o pages o (pathIn o v) (leafIndex v)
  · obtain ⟨-, w, hw, hpath, hlast⟩ := hhit
    rw [hpath, hlast]
    exact hafter w hw
  · rw [hsame o root _ _ hroot (length_pathIn o v) hin hhit]
    exact hbefore

/-- The release functions unmap their pages and change no other entry. -/
theorem Reach.releasePages (h : Reach o root places m) (ho : Owned places m)
    (hpages : ∀ v ∈ pages, PageOf o v) :
    Alters o pages places m (m.releasePages pages) ∧
      ∀ v ∈ pages, pageTree.entry (m.releasePages pages).words (pathIn o v) (leafIndex v)
        root = none := by
  induction pages generalizing places m with
  | nil => exact ⟨.refl ho, fun v hv => nomatch hv⟩
  | cons v pages ih =>
    rw [releasePages_cons]
    have hv := hpages v List.mem_cons_self
    obtain ⟨hone, hnone⟩ := (h.access hv).releasePage ho
    have htail : ∀ places', Owned places' (m.releasePage v) →
        Touches (fun _ => False) places m places' (m.releasePage v) → _ :=
      fun places' ho' htouch =>
        ih (h.touches htouch) ho' fun w hw => hpages w (List.mem_cons_of_mem v hw)
    refine ⟨hone.cons fun places' ho' htouch => (htail places' ho' htouch).1, ?_⟩
    obtain ⟨places', ho', htouch, -⟩ := hone
    obtain ⟨hrest, hgone⟩ := htail places' ho' htouch
    intro w hw
    rcases List.mem_cons.mp hw with rfl | hw
    · exact entry_after (P := (· = none)) (h.touches htouch).place (h.access hv).within
        hrest hnone hgone
    · exact hgone w hw

theorem KeepsEntries.trans (h : KeepsEntries places m m')
    (h' : KeepsEntries places' m' m'')
    (hroots : ∀ f o, places' f = some (o, []) ↔ places f = some (o, [])) :
    KeepsEntries places m m'' := by
  intro o f is last hf hlen hin hsome
  have hsame := h o f is last hf hlen hin hsome
  rw [h' o f is last ((hroots f o).mpr hf) hlen hin (by rw [hsame]; exact hsome), hsame]

/-- Mapping new pages one after the other, until no frame is left or a page
is found mapped. -/
theorem Reach.mapNewPages (h : Reach o root places m) (ho : Owned places m)
    (flags : PageFlags) (hpages : ∀ v ∈ pages, PageOf o v)
    (hflags : o ≠ .window → flags.bits &&& userBit ≠ 0) :
    match pages.forM (mapNewPage flags) m with
    | .ok _ m' => (Alters o pages places m m' ∧ KeepsEntries places m m') ∧
        ∀ v ∈ pages, (pageTree.entry m'.words (pathIn o v) (leafIndex v) root).isSome
    | .error _ m' => Alters o pages places m m' ∧ KeepsEntries places m m' := by
  induction pages generalizing places m with
  | nil => exact ⟨⟨.refl ho, fun _ _ _ _ _ _ _ _ => rfl⟩, fun v hv => nomatch hv⟩
  | cons v pages ih =>
    have hv := hpages v List.mem_cons_self
    have hone := (h.access hv).mapNewPage ho hflags
    show match EStateM.bind (OpenKernel.mapNewPage flags v)
        (fun _ => pages.forM (OpenKernel.mapNewPage flags)) m with
      | .ok _ m' => (Alters o (v :: pages) places m m' ∧ KeepsEntries places m m') ∧
          ∀ w ∈ v :: pages,
            (pageTree.entry m'.words (pathIn o w) (leafIndex w) root).isSome
      | .error _ m' => Alters o (v :: pages) places m m' ∧ KeepsEntries places m m'
    unfold EStateM.bind
    cases hx : OpenKernel.mapNewPage flags v m with
    | error e m₁ =>
      rw [hx] at hone
      refine ⟨hone.1.mono fun w hw => ?_, hone.2⟩
      rw [List.mem_singleton.mp hw]
      exact List.mem_cons_self
    | ok u m₁ =>
      rw [hx] at hone
      obtain ⟨⟨hone, hkeeps⟩, hsome⟩ := hone
      have htail : ∀ places', Owned places' m₁ →
          Touches (fun _ => False) places m places' m₁ → _ :=
        fun places' ho' htouch =>
          ih (h.touches htouch) ho' fun w hw => hpages w (List.mem_cons_of_mem v hw)
      dsimp only
      cases hy : pages.forM (OpenKernel.mapNewPage flags) m₁ with
      | error e m₂ =>
        refine ⟨hone.cons fun places' ho' htouch => ?_, ?_⟩
        · have hrest := htail places' ho' htouch
          rw [hy] at hrest
          exact hrest.1
        · obtain ⟨places', ho', htouch, -⟩ := hone
          have hrest := htail places' ho' htouch
          rw [hy] at hrest
          exact hkeeps.trans hrest.2 htouch.roots
      | ok u' m₂ =>
        refine ⟨⟨hone.cons fun places' ho' htouch => ?_, ?_⟩, ?_⟩
        · have hrest := htail places' ho' htouch
          rw [hy] at hrest
          exact hrest.1.1
        · obtain ⟨places', ho', htouch, -⟩ := hone
          have hrest := htail places' ho' htouch
          rw [hy] at hrest
          exact hkeeps.trans hrest.1.2 htouch.roots
        · obtain ⟨places', ho', htouch, -⟩ := hone
          have hrest := htail places' ho' htouch
          rw [hy] at hrest
          intro w hw
          rcases List.mem_cons.mp hw with rfl | hw
          · exact entry_after (P := fun e => e.isSome) (h.touches htouch).place
              (h.access hv).within hrest.1.1 hsome hrest.2
          · exact hrest.2 w hw

/-- The loop of `allocate_kernel_stack`. -/
theorem allocateKernelStack_eq (slot : Nat) :
    allocateKernelStack slot = do
      (kernelStack slot).forM (mapNewPage .kernelReadWrite)
      return kernelStackBase slot + kernelStackPages * pageSize := rfl

end Sequence

/-! ## Device pages -/

/-- A device page is written to a leaf outside the window's tree. -/
theorem mapDevicePage_alters {places : Places} {m : Memory} {v : Nat}
    (physicalAddress : Nat) (ho : Owned places m) (hw : HasWindow places m (target m.cr3))
    (hv : deviceWindowBase ≤ v) (hv' : v < kernelStackGuardPage) :
    match mapDevicePage v physicalAddress m with
    | .ok _ m' => Alters .window [v] places m m'
    | .error _ m' => Alters .window [v] places m m' := by
  have hend : v < windowEnd := Nat.lt_trans hv' (by decide)
  have hout : ¬ pageTree.inside .window ((windowIndices v).reverse ++ []) (leafIndex v) :=
    fun hin => Nat.not_lt.mpr ((inside_window_leaf hv hend).mp hin) hv'
  unfold mapDevicePage
  by_cases hunaligned : v % pageSize ≠ 0 ∨ physicalAddress % pageSize ≠ 0
  · rw [if_pos hunaligned]
    exact .refl ho
  · rw [if_neg hunaligned]
    have hmap : mapPage v physicalAddress .device m =
        mapFrom .device (windowIndices v) (leafIndex v) physicalAddress
          (target (m.words (target m.cr3) windowEntry)) m :=
      mapPageIn_window hw hv hend
    rw [hmap]
    have hends := ho.mapFrom hw.2.2 .device (leafIndex v) physicalAddress
      (length_windowIndices v) (within_window v)
    cases hx : mapFrom .device (windowIndices v) (leafIndex v) physicalAddress
        (target (m.words (target m.cr3) windowEntry)) m with
    | error e m' =>
      rw [hx] at hends
      obtain ⟨places', h', hgrows, -⟩ := hends
      exact ⟨places', h', hgrows.touches,
        SameEntries.mono hgrows.sameEntries fun _ _ _ hbad => hbad.elim,
        hgrows.userLinked fun hne => absurd rfl hne⟩
    | ok u m' =>
      rw [hx] at hends
      obtain ⟨places₁, m₁, final, h₁, hgrows, hfinal, -, -, rfl⟩ := hends
      have hroots : ∀ f o, places₁ f = some (o, []) ↔ places f = some (o, []) :=
        fun f o => ⟨hgrows.roots f o, hgrows.kept f _⟩
      refine ⟨places₁, h₁.writeOutside hfinal hout _, ?_, ?_, ?_⟩
      · refine hgrows.touches.trans (touches_writeWord hfinal _ (fun heq => nomatch heq)
          (fun _ _ => Iff.rfl) fun f hf _ => hf)
      · refine (hgrows.sameEntries.trans (sameEntries_write h₁ hfinal rfl _)
          hroots).mono ?_
        rintro o is last (hbad | ⟨ho, his, hlast⟩)
        · exact hbad.elim
        · exact ⟨ho, v, List.mem_singleton_self v, his, hlast⟩
      · intro hlinked
        exact (hgrows.userLinked (fun hne => absurd rfl hne) hlinked).writeLeaf hfinal rfl
          (fun _ _ _ hf _ => hf) _

end OpenKernel
