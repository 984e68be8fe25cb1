import OpenKernel.Memory.Allocator
import OpenKernel.Memory.NewPages
import OpenKernel.Memory.SpaceSteps

/-!
# Frames that loops take

The loops of `allocate_kernel_stack` and `allocate_user_stack_in` map page after
page, and the first failure ends them with the pages before it still mapped.
`Takes` sums up what such a loop does whether it fails or not.  A frame that it
has taken is never a page table afterwards (`Held`), and with four free frames
for each page and no page mapped before it does not fail (`MapsEach.forM_ok`).
-/

namespace OpenKernel

open Lib

/-- Frames have been handed out and put into the trees, and none has been given
back. -/
structure Takes (places : Places) (m : Memory) (places' : Places) (m' : Memory) :
    Prop where
  owned : Owned places' m'
  kept : ∀ f x, places f = some x → places' f = some x
  touches : Touches (fun _ => False) places m places' m'

/-- A frame that is not free, and no table of any tree. -/
def Held (f : Nat) (places : Places) (m : Memory) : Prop :=
  ¬ m.frames.IsFree f ∧ ∀ o path, places f = some (o, path) → path.length = pageTree.depth o

/-- At most this many frames have been handed out. -/
def Spends (count : Nat) (m m' : Memory) : Prop :=
  m.frames.freeSet.card ≤ m'.frames.freeSet.card + count

section Takes

variable {places places' places'' : Places} {m m' m'' : Memory} {f n n' : Nat}

theorem Takes.refl (h : Owned places m) : Takes places m places m :=
  ⟨h, fun _ _ hf => hf, .refl⟩

theorem Takes.trans (h : Takes places m places' m') (h' : Takes places' m' places'' m'') :
    Takes places m places'' m'' where
  owned := h'.owned
  kept f x hf := h'.kept f x (h.kept f x hf)
  touches := h.touches.trans h'.touches

theorem Filled.takes {space : Nat} {mapped lost : Nat → Prop}
    (h : Filled space mapped lost places m places' m') : Takes places m places' m' :=
  ⟨h.owned, h.kept, h.touches⟩

theorem Takes.held (h : Takes places m places' m') (hf : Held f places m) :
    Held f places' m' := by
  obtain ⟨hfree, hpage⟩ := hf
  cases hplace : places f with
  | none =>
    obtain ⟨hnone, -, hfree', -⟩ := h.touches.frames f hplace hfree id
    refine ⟨hfree', fun o path hpath => ?_⟩
    rw [hnone] at hpath
    cases hpath
  | some x =>
    have hkept := h.kept f x hplace
    refine ⟨h.owned.notFree f x hkept, fun o path hpath => ?_⟩
    apply hpage o path
    rw [hplace, ← hkept, hpath]

theorem Spends.refl (m : Memory) : Spends 0 m m := by
  unfold Spends
  omega

theorem Spends.trans (h : Spends n m m') (h' : Spends n' m' m'') : Spends (n + n') m m'' := by
  unfold Spends at *
  omega

theorem Spends.mono (h : Spends n m m') (hle : n ≤ n') : Spends n' m m' := by
  unfold Spends at *
  omega

end Takes

/-! ## What a call spends -/

section Spending

variable {m m' : Memory} {frame : Nat} {frames : FrameAllocator} {flags : PageFlags}

theorem spends_allocate (h : m.frames.allocate = (some frame, frames)) :
    Spends 1 m { m with frames } := by
  obtain ⟨-, -, -, hothers⟩ := FrameAllocator.allocate_some h
  have hsub : m.frames.freeSet ⊆ insert frame frames.freeSet := by
    intro f hf
    rw [Finset.mem_insert, FrameAllocator.mem_freeSet]
    by_cases hff : f = frame
    · exact .inl hff
    · exact .inr ((hothers f hff).1.mpr ((FrameAllocator.mem_freeSet _ f).mp hf))
  exact (Finset.card_le_card hsub).trans (Finset.card_insert_le _ _)

theorem spends_descend (flags : PageFlags) (table index : Nat) (m : Memory) :
    match descend flags table index m with
    | .ok _ m' | .error _ m' => Spends 1 m m' := by
  have hsame : Spends 1 m m := (Spends.refl m).mono (Nat.zero_le 1)
  by_cases hp : Present (m.words table index)
  · show match (if ¬ Present (m.words table index) then _
      else if Huge (m.words table index) then _ else _ : Paging Nat) m with
      | .ok _ m' | .error _ m' => Spends 1 m m'
    rw [if_neg (not_not.mpr hp)]
    by_cases hh : Huge (m.words table index)
    · rw [if_pos hh]
      exact hsame
    · rw [if_neg hh]
      exact hsame
  · rw [descend_of_absent flags hp]
    cases hx : m.frames.allocate with
    | mk result frames =>
      cases result with
      | none => exact hsame
      | some frame => exact spends_allocate hx

theorem spends_descends (flags : PageFlags) (is : List Nat) (table : Nat) (m : Memory) :
    match is.foldlM (descend flags) table m with
    | .ok _ m' | .error _ m' => Spends is.length m m' := by
  induction is generalizing table m with
  | nil => exact .refl m
  | cons index is ih =>
    have hfirst := spends_descend flags table index m
    show match EStateM.bind (descend flags table index)
        (fun next => is.foldlM (descend flags) next) m with
      | .ok _ m' | .error _ m' => Spends (is.length + 1) m m'
    unfold EStateM.bind
    cases hx : descend flags table index m with
    | error e m₁ =>
      rw [hx] at hfirst
      exact hfirst.mono (by omega)
    | ok next m₁ =>
      rw [hx] at hfirst
      have hrest := ih next m₁
      dsimp only
      cases hy : is.foldlM (descend flags) next m₁ with
      | error e m₂ =>
        rw [hy] at hrest
        exact (hfirst.trans hrest).mono (by omega)
      | ok final m₂ =>
        rw [hy] at hrest
        exact (hfirst.trans hrest).mono (by omega)

/-- A page costs at most its tables. -/
theorem spends_mapPageIn (space v page : Nat) (flags : PageFlags) (m : Memory) :
    match mapPageIn space v page flags m with
    | .ok _ m' | .error _ m' => Spends 3 m m' := by
  have hwalk := spends_descends flags (upperIndices v) (target space) m
  rw [mapPageIn_eq]
  cases hx : (upperIndices v).foldlM (descend flags) (target space) m with
  | error e m₁ =>
    rw [hx] at hwalk
    rw [mapFrom_of_error hx]
    exact hwalk
  | ok final m₁ =>
    rw [hx] at hwalk
    rw [mapFrom_of_walk hx]
    by_cases hp : Present (m₁.words final (leafIndex v))
    · rw [if_pos hp]
      exact hwalk
    · rw [if_neg hp]
      exact hwalk

end Spending

/-! ## One page -/

/-- A page has been mapped to a new frame, or no frame is left, or the page was
mapped before. -/
def MapsPage (o : Owner) (root v : Nat) (places : Places) (m : Memory) :
    EStateM.Result PagingError Memory Unit → Prop
  | .ok _ m' => ∃ places', Takes places m places' m' ∧ Spends 4 m m' ∧
      SameEntries places m m' (PageEntries o [v])
  | .error _ m' => ∃ places', Takes places m places' m' ∧ Spends 4 m m' ∧
      (m'.frames.freeSet = ∅ ∨
        (pageTree.entry m.words (pathIn o v) (leafIndex v) root).isSome)

section Page

variable {places : Places} {m : Memory} {root space v frame : Nat} {frames : FrameAllocator}
  {flags : PageFlags}

theorem freeSet_of_allocate {a : FrameAllocator} (h : a.allocate.1 = none) : a.freeSet = ∅ :=
  FrameAllocator.freeSet_of_allocate_none (show a.allocate = (none, a.allocate.2) from
    Prod.ext h rfl)

/-- The frame that a page of a kernel stack takes is a page or lost. -/
theorem Access.takesNewPage (ha : Access .window root places m v) (h : Owned places m)
    (flags : PageFlags) (halloc : m.frames.allocate = (some frame, frames)) :
    match OpenKernel.mapNewPage flags v m with
    | .ok _ m' => ∃ places', Takes places m places' m' ∧ Held frame places' m'
    | .error _ m' => ∃ places', Takes places m places' m' ∧ Held frame places' m' ∧
        (m'.frames.freeSet = ∅ ∨
          (pageTree.entry m.words (windowIndices v) (leafIndex v) root).isSome) := by
  obtain ⟨h₁, htouch, hfree, hfresh, hall, hnot⟩ := h.allocate halloc
  have hrun : OpenKernel.mapNewPage flags v m =
      mapFrom flags (windowIndices v) (leafIndex v) frame root { m with frames } := by
    unfold OpenKernel.mapNewPage
    show EStateM.bind allocatePhysicalFrame _ m = _
    unfold EStateM.bind allocatePhysicalFrame
    rw [halloc]
    exact ha.map { m with frames } rfl rfl frame flags
  have hends := h₁.mapFrom ha.place flags (leafIndex v) frame (length_windowIndices v) ha.within
  rw [hrun]
  cases hx : mapFrom flags (windowIndices v) (leafIndex v) frame root { m with frames } with
  | error e m' =>
    rw [hx] at hends
    obtain ⟨places₁, howned, hgrows, hwhy⟩ := hends
    have hgrown : Touches (fun _ => False) places { m with frames } places₁ m' := hgrows.touches
    obtain ⟨hnone, -, hnot', -⟩ := hgrown.frames frame hfresh hnot id
    refine ⟨places₁, ⟨howned, hgrows.kept, htouch.trans hgrown⟩, ⟨hnot', fun o path hpath => ?_⟩,
      ?_⟩
    · rw [hnone] at hpath
      cases hpath
    · rcases hwhy with ⟨-, hempty, -⟩ | ⟨-, final, -, hwalk, hp⟩
      · exact .inl (freeSet_of_allocate hempty)
      · have hsame : pageTree.entry m'.words (windowIndices v) (leafIndex v) root =
            pageTree.entry m.words (windowIndices v) (leafIndex v) root :=
          hgrows.sameEntries .window root _ _ ha.place rfl ha.within id
        rw [entry_of_walk hwalk, if_pos hp] at hsame
        exact .inr (by rw [← hsame]; rfl)
  | ok u m' =>
    rw [hx] at hends
    obtain ⟨places₁, m₁, final, howned, hgrows, hfinal, -, hp, rfl⟩ := hends
    have hgrown : Touches (fun _ => False) places { m with frames } places₁ m₁ := hgrows.touches
    obtain ⟨hnone, -, hnot', hall'⟩ := hgrown.frames frame hfresh hnot id
    rw [hall.target_eq]
    refine ⟨_, ⟨howned.fill hfinal rfl flags ha.leaf hp hnone (hall'.mpr hall) hnot', ?_, ?_⟩,
      hnot', ?_⟩
    · intro f x hf
      rw [Function.update_of_ne, hgrows.kept f x hf]
      rintro rfl
      rw [hfresh] at hf
      cases hf
    · apply (htouch.trans hgrown).after (touches_fill hfinal _ ha.leaf hnone)
      rintro f rfl -
      exact hfree
    · intro o path hpath
      rw [Function.update_self] at hpath
      obtain ⟨rfl, rfl⟩ := Prod.mk.inj (Option.some.inj hpath)
      rfl

theorem spends_mapNewPage (flags : PageFlags) (v : Nat) (m : Memory) :
    match mapNewPage flags v m with
    | .ok _ m' | .error _ m' => Spends 4 m m' := by
  unfold mapNewPage
  show match EStateM.bind allocatePhysicalFrame (fun frame => mapPage v frame flags) m with
    | .ok _ m' | .error _ m' => Spends 4 m m'
  unfold EStateM.bind allocatePhysicalFrame
  cases hx : m.frames.allocate with
  | mk result frames =>
    cases result with
    | none =>
      rw [FrameAllocator.allocate_none hx]
      exact (Spends.refl m).mono (by omega)
    | some frame =>
      have hfirst := spends_allocate hx
      have hrest := spends_mapPageIn m.cr3 v frame flags { m with frames }
      dsimp only
      have hmap : mapPage v frame flags { m with frames } =
          mapPageIn m.cr3 v frame flags { m with frames } := rfl
      rw [hmap]
      cases hy : mapPageIn m.cr3 v frame flags { m with frames } with
      | error e m' =>
        rw [hy] at hrest
        exact (hfirst.trans hrest).mono (by omega)
      | ok u m' =>
        rw [hy] at hrest
        exact (hfirst.trans hrest).mono (by omega)

/-- One page of a kernel stack. -/
theorem Access.mapsPage (ha : Access .window root places m v) (h : Owned places m)
    (flags : PageFlags) :
    MapsPage .window root v places m (OpenKernel.mapNewPage flags v m) := by
  have hspends := spends_mapNewPage flags v m
  have hentries := @Access.mapNewPage _ _ _ _ _ flags ha h fun hne => absurd rfl hne
  cases halloc : m.frames.allocate with
  | mk result frames =>
    cases result with
    | none =>
      have hrun : OpenKernel.mapNewPage flags v m = .error .frameAllocationFailed m := by
        unfold OpenKernel.mapNewPage
        show EStateM.bind allocatePhysicalFrame _ m = _
        unfold EStateM.bind allocatePhysicalFrame
        rw [halloc, FrameAllocator.allocate_none halloc]
      rw [hrun] at hspends ⊢
      exact ⟨places, .refl h, hspends, .inl (FrameAllocator.freeSet_of_allocate_none halloc)⟩
    | some frame =>
      have htakes := ha.takesNewPage h flags halloc
      cases hx : OpenKernel.mapNewPage flags v m with
      | error e m' =>
        rw [hx] at htakes hspends
        obtain ⟨places', htakes, -, hwhy⟩ := htakes
        exact ⟨places', htakes, hspends, hwhy⟩
      | ok u m' =>
        rw [hx] at htakes hspends hentries
        obtain ⟨places', htakes, -⟩ := htakes
        obtain ⟨⟨⟨-, -, -, hsame, -⟩, -⟩, -⟩ := hentries
        exact ⟨places', htakes, hspends, hsame⟩

/-- One turn of the loop that maps a user stack. -/
def mapNewUserPage (space : Nat) (flags : PageFlags) (page : Nat) : Paging Unit := do
  let _ ← newUserPage space flags page

theorem mapNewUserPage_run (space : Nat) (flags : PageFlags) (page : Nat) (m : Memory) :
    mapNewUserPage space flags page m =
      match newUserPage space flags page m with
      | .ok _ m' => .ok () m'
      | .error e m' => .error e m' := by
  show EStateM.bind (newUserPage space flags page) _ m = _
  unfold EStateM.bind
  cases newUserPage space flags page m <;> rfl

theorem spends_newUserPage (space : Nat) (flags : PageFlags) (page : Nat) (m : Memory) :
    match newUserPage space flags page m with
    | .ok _ m' | .error _ m' => Spends 4 m m' := by
  rw [newUserPage_run]
  cases hx : m.frames.allocate with
  | mk result frames =>
    cases result with
    | none => exact (Spends.refl m).mono (by omega)
    | some frame =>
      dsimp only
      have hfirst : Spends 1 m (({ m with frames } : Memory).zeroPhysicalFrame frame) :=
        spends_allocate hx
      unfold mapUserPageIn
      by_cases hv : InUserSpace page
      · rw [if_pos hv]
        have hrest := spends_mapPageIn space page frame flags
          (({ m with frames } : Memory).zeroPhysicalFrame frame)
        cases hy : mapPageIn space page frame flags
            (({ m with frames } : Memory).zeroPhysicalFrame frame) with
        | error e m' =>
          rw [hy] at hrest
          exact (hfirst.trans hrest).mono (by omega)
        | ok u m' =>
          rw [hy] at hrest
          exact (hfirst.trans hrest).mono (by omega)
      · rw [if_neg hv]
        exact hfirst.mono (by omega)

/-- One page of a user stack. -/
theorem Owned.mapsPage (h : Owned places m) (hroot : places space = some (.space space, []))
    (hv : InUserSpace v) (huser : flags.bits &&& userBit ≠ 0) :
    MapsPage (.space space) space v places m (mapNewUserPage space flags v m) := by
  have hspends := spends_newUserPage space flags v m
  have hends := h.newUserPage hroot v huser
  rw [mapNewUserPage_run]
  cases hx : OpenKernel.newUserPage space flags v m with
  | ok frame m' =>
    rw [hx] at hends hspends
    obtain ⟨places', hfilled, -⟩ := hends
    refine ⟨places', hfilled.takes, hspends, hfilled.same.mono ?_⟩
    rintro o is last ⟨ho, w, rfl, hpath⟩
    exact ⟨ho, w, List.mem_singleton_self w, hpath⟩
  | error e m' =>
    rw [hx] at hends hspends
    rcases hends with ⟨-, hnone, rfl⟩ | ⟨frame, places', -, hfilled, hwhy⟩
    · exact ⟨places, .refl h, hspends, .inl (freeSet_of_allocate hnone)⟩
    · refine ⟨places', hfilled.takes, hspends, ?_⟩
      rcases hwhy with ⟨-, hbad⟩ | ⟨-, -, hsome⟩ | ⟨-, -, -, hnone, -⟩
      · exact absurd hv hbad
      · exact .inr hsome
      · exact .inl (freeSet_of_allocate hnone)

end Page

/-! ## Page after page -/

/-- Each turn of a loop over these pages maps its page. -/
def MapsEach (o : Owner) (root : Nat) (pages : List Nat) (step : Nat → Paging Unit) : Prop :=
  ∀ v ∈ pages, ∀ places m, Owned places m → Reach o root places m →
    MapsPage o root v places m (step v m)

section Loop

variable {o : Owner} {root v : Nat} {pages : List Nat} {step : Nat → Paging Unit}
  {places places' : Places} {m m' : Memory}

theorem MapsEach.tail (h : MapsEach o root (v :: pages) step) : MapsEach o root pages step :=
  fun w hw => h w (List.mem_cons_of_mem v hw)

theorem forM_cons_run (step : Nat → Paging Unit) (v : Nat) (pages : List Nat) (m : Memory) :
    (v :: pages).forM step m =
      match step v m with
      | .ok _ m' => pages.forM step m'
      | .error e m' => .error e m' := by
  show EStateM.bind (step v) _ m = _
  unfold EStateM.bind
  cases step v m <;> rfl

/-- The whole loop takes frames, and when it ends well it has changed the entries
of its pages only. -/
theorem MapsEach.forM (hstep : MapsEach o root pages step) (h : Owned places m)
    (hr : Reach o root places m) :
    match pages.forM step m with
    | .ok _ m' => ∃ places', Takes places m places' m' ∧ Spends (4 * pages.length) m m' ∧
        SameEntries places m m' (PageEntries o pages)
    | .error _ m' => ∃ places', Takes places m places' m' := by
  induction pages generalizing places m with
  | nil => exact ⟨places, .refl h, .refl m, fun _ _ _ _ _ _ _ _ => rfl⟩
  | cons v pages ih =>
    have hfirst := hstep v List.mem_cons_self places m h hr
    rw [forM_cons_run]
    cases hx : step v m with
    | error e m₁ =>
      rw [hx] at hfirst
      obtain ⟨places₁, htakes, -⟩ := hfirst
      exact ⟨places₁, htakes⟩
    | ok u m₁ =>
      rw [hx] at hfirst
      obtain ⟨places₁, htakes, hspends, hsame⟩ := hfirst
      have hrest := ih hstep.tail htakes.owned (hr.touches htakes.touches)
      dsimp only
      cases hy : pages.forM step m₁ with
      | error e m₂ =>
        rw [hy] at hrest
        obtain ⟨places₂, htakes'⟩ := hrest
        exact ⟨places₂, htakes.trans htakes'⟩
      | ok u' m₂ =>
        rw [hy] at hrest
        obtain ⟨places₂, htakes', hspends', hsame'⟩ := hrest
        refine ⟨places₂, htakes.trans htakes', (hspends.trans hspends').mono ?_, ?_⟩
        · rw [List.length_cons]
          omega
        · apply (hsame.trans hsame' htakes.touches.roots).mono
          rintro o' is last (⟨ho, w, hw, hpath⟩ | ⟨ho, w, hw, hpath⟩)
          · rw [List.mem_singleton.mp hw] at hpath
            exact ⟨ho, v, List.mem_cons_self, hpath⟩
          · exact ⟨ho, w, List.mem_cons_of_mem v hw, hpath⟩

/-- With four frames for each page the loop maps unmapped pages to its end. -/
theorem MapsEach.forM_ok (hstep : MapsEach o root pages step) (h : Owned places m)
    (hr : Reach o root places m) (hpages : ∀ v ∈ pages, PageOf o v)
    (hdistinct : pages.Pairwise fun v w => ¬ (pathIn o w = pathIn o v ∧ leafIndex w = leafIndex v))
    (hnone : ∀ v ∈ pages, pageTree.entry m.words (pathIn o v) (leafIndex v) root = none)
    (hcard : 4 * pages.length < m.frames.freeSet.card) :
    ∃ m', pages.forM step m = .ok () m' := by
  induction pages generalizing places m with
  | nil => exact ⟨m, rfl⟩
  | cons v pages ih =>
    obtain ⟨hother, hrest⟩ := List.pairwise_cons.mp hdistinct
    have hfirst := hstep v List.mem_cons_self places m h hr
    rw [List.length_cons] at hcard
    rw [forM_cons_run]
    cases hx : step v m with
    | error e m₁ =>
      rw [hx] at hfirst
      obtain ⟨-, -, hspends, hempty | hsome⟩ := hfirst
      · unfold Spends at hspends
        rw [hempty, Finset.card_empty] at hspends
        omega
      · rw [hnone v List.mem_cons_self] at hsome
        cases hsome
    | ok u m₁ =>
      rw [hx] at hfirst
      obtain ⟨places₁, htakes, hspends, hsame⟩ := hfirst
      unfold Spends at hspends
      apply ih hstep.tail htakes.owned (hr.touches htakes.touches)
        (fun w hw => hpages w (List.mem_cons_of_mem v hw)) hrest ?_ (by omega)
      intro w hw
      have hmem := List.mem_cons_of_mem v hw
      rw [hsame o root _ _ hr.place (length_pathIn o w) (hr.access (hpages w hmem)).within ?_]
      · exact hnone w hmem
      · rintro ⟨-, v', hv', hpath⟩
        rw [List.mem_singleton.mp hv'] at hpath
        exact hother w hw hpath

end Loop

end OpenKernel
