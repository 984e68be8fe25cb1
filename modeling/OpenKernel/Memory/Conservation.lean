import OpenKernel.Memory.Exclusive

/-!
# Conservation of frames

Destroying an address space gives back what filling it has taken.  While a
space is filled, the frames that were free before it was created are the ones
that are still free, those of its tree, and those that the caller has in hand;
`destroy_user_address_space` frees the tree.
-/

namespace OpenKernel

open Lib

/-! ## The frames of a tree -/

/-- The frame is free or belongs to the tree. -/
def FreeOrIn (places : Places) (m : Memory) (o : Owner) (f : Nat) : Prop :=
  m.frames.IsFree f ∨ ∃ path, places f = some (o, path)

section Tree

variable {flags : PageFlags} {o : Owner} {places places' : Places} {m m' : Memory}
  {root page f : Nat} {path is : List Nat}

/-- A walk places new frames in its own tree. -/
theorem Grows.owner_of_fresh {o' : Owner} (hg : Grows flags o places m places' m')
    (h : Owned places m) (h' : Owned places' m') (hf : places f = none)
    (hf' : places' f = some (o', path)) : o' = o := by
  induction path generalizing f with
  | nil =>
    rw [hg.roots f o' hf'] at hf
    cases hf
  | cons i path ih =>
    obtain ⟨hlen, hi, u, hu, href⟩ := h'.forest.parent hf'
    obtain ⟨hp, -⟩ := ref_eq_some href
    cases hold : places u with
    | none => exact ih hold hu
    | some x =>
      -- The parent is old: its entry is too, unless the walk has made it.
      have hux := hg.kept u x hold
      rw [hu] at hux
      obtain rfl := Option.some.inj hux
      have hchild : m'.words u i = m.words u i → False := by
        intro hsame
        rw [hsame] at href
        rw [h.forest.child hold hlen hi href] at hf
        cases hf
      by_cases hleaf : path.length + 1 = pageTree.depth o'
      · have hentry := hg.entries u o' path [] i hold hleaf trivial
        rw [entry_of_walk rfl, entry_of_walk rfl, if_pos hp] at hentry
        split at hentry
        · exact (hchild (Option.some.inj hentry)).elim
        · cases hentry
      · rcases hg.links u o' path i hu (by omega) hi hp with ⟨-, hsame⟩ | ⟨howner, -⟩
        · exact (hchild hsame).elim
        · exact howner

/-- A walk takes the frames of its tables from the free ones. -/
theorem Grows.freeOrIn_iff (hg : Grows flags o places m places' m') (h : Owned places m)
    (h' : Owned places' m') (f : Nat) :
    FreeOrIn places' m' o f ↔ FreeOrIn places m o f := by
  unfold FreeOrIn
  cases hf' : places' f with
  | none =>
    rw [hg.none_of_none hf', (hg.frames f hf').1]
  | some x =>
    obtain ⟨o', path⟩ := x
    have hnot := h'.notFree f _ hf'
    cases hf : places f with
    | none =>
      have hfree := (hg.fresh f hf (by rw [hf']; exact Option.some_ne_none _)).1
      have howner := hg.owner_of_fresh h h' hf hf'
      exact iff_of_true (.inr ⟨path, by rw [howner]⟩) (.inl hfree)
    | some y =>
      have hkept := hg.kept f y hf
      rw [hf'] at hkept
      rw [← hkept]
      exact or_congr_left (iff_of_false hnot (h.notFree f y hf))

/-- Mapping a page moves its frame into the tree, and tables that were free. -/
theorem Owned.mapFrom_accounts (h : Owned places m) (hroot : places root = some (o, []))
    (flags : PageFlags) (last : Nat) (hlen : is.length + 1 = pageTree.depth o)
    (hin : pageTree.Within o [] is) (hleaf : pageTree.inside o (is.reverse ++ []) last)
    (hfresh : places page = none) (hall : m.frames.IsAllocated page)
    (hnot : ¬ m.frames.IsFree page) :
    match OpenKernel.mapFrom flags is last page root m with
    | .ok _ m' => ∃ places', Owned places' m' ∧
        (∀ f o, places' f = some (o, []) ↔ places f = some (o, [])) ∧
        ∀ f, FreeOrIn places' m' o f ↔ FreeOrIn places m o f ∨ f = page
    | .error _ m' => ∃ places', Owned places' m' ∧
        (∀ f o, places' f = some (o, []) ↔ places f = some (o, [])) ∧
        ∀ f, FreeOrIn places' m' o f ↔ FreeOrIn places m o f := by
  have hends := h.mapFrom hroot flags last page
    (by rw [List.length_nil, Nat.zero_add]; omega) hin
  cases hx : OpenKernel.mapFrom flags is last page root m with
  | error e m' =>
    rw [hx] at hends
    obtain ⟨places', h', hgrows, -⟩ := hends
    exact ⟨places', h', fun f o => ⟨hgrows.roots f o, hgrows.kept f _⟩,
      hgrows.freeOrIn_iff h h'⟩
  | ok u m' =>
    rw [hx] at hends
    obtain ⟨places₁, m₁, final, h₁, hgrows, hfinal, -, hp, rfl⟩ := hends
    have hdepth : (is.reverse ++ []).length + 1 = pageTree.depth o := by
      rw [List.append_nil, List.length_reverse]
      exact hlen
    have htouch : Touches (fun _ => False) places m places₁ m₁ := hgrows.touches
    obtain ⟨hpage, -, hfree, hall'⟩ := htouch.frames page hfresh hnot id
    have hfill := h₁.fill hfinal hdepth flags hleaf hp hpage (hall'.mpr hall) hfree
    rw [hall.target_eq]
    refine ⟨_, hfill, fun f o => ?_, fun f => ?_⟩
    · rw [← htouch.roots f o]
      by_cases hf : f = page
      · rw [hf, Function.update_self, hpage]
        simp
      · rw [Function.update_of_ne hf]
    · rw [← hgrows.freeOrIn_iff h h₁ f]
      show m₁.frames.IsFree f ∨ _ ↔ _
      by_cases hf : f = page
      · subst hf
        rw [Function.update_self]
        exact iff_of_true (.inr ⟨_, rfl⟩) (.inr rfl)
      · rw [Function.update_of_ne hf]
        exact (or_iff_left hf).symm

end Tree

/-! ## Filling a space -/

/-- The actions of a caller that fills a space and keeps its hands off the
frames in `hand`. -/
def Fills (space : Nat) (hand : List Nat) (s : SpaceState) : SpaceAction → Prop
  | .switch _ | .allocate => True
  | .free frame | .fill frame _ _ => frame ∉ hand
  | .mapIn r _ frame _ => r = space ∧ frame ∉ hand
  | .unmap _ => s.memory.activeAddressSpace = space
  | _ => False

instance (space : Nat) (hand : List Nat) (s : SpaceState) :
    DecidablePred (Fills space hand s) := fun a =>
  match a with
  | .switch _ | .allocate => inferInstanceAs (Decidable True)
  | .free _ | .fill _ _ _ => inferInstanceAs (Decidable (_ ∉ hand))
  | .mapIn _ _ _ _ => inferInstanceAs (Decidable (_ ∧ _))
  | .unmap _ => inferInstanceAs (Decidable (_ = _))
  | .create | .map _ _ _ | .releaseUserStack _ | .store _ _ _ _
  | .allocateKernelStack _ | .releaseKernelStack _ | .mapDevice _ _ | .destroy _ =>
    inferInstanceAs (Decidable False)

/-- The frame is free, belongs to the space, or is newly in hand. -/
def Available (space : Nat) (hand : List Nat) (places : Places) (s : SpaceState)
    (f : Nat) : Prop :=
  FreeOrIn places s.memory (.space space) f ∨ f ∈ s.inHand ∧ f ∉ hand

/-- A step after which the same frames are available. -/
structure Conserves (space : Nat) (hand : List Nat) (places : Places) (s : SpaceState)
    (places' : Places) (s' : SpaceState) : Prop where
  owned : Owned places' s'.memory
  roots : ∀ f o, places' f = some (o, []) ↔ places f = some (o, [])
  live : s'.live = s.live
  available : ∀ f, Available space hand places' s' f ↔ Available space hand places s f

section Step

variable {boot : Nat} {base : Memory} {places places' places'' : Places}
  {s s' : SpaceState} {a : SpaceAction} {space : Nat} {hand : List Nat}

theorem Conserves.of_same (h : Separate boot base places s)
    (hforest : s'.memory.words = s.memory.words) (hframes : s'.memory.frames = s.memory.frames)
    (hlive : s'.live = s.live) (hhand : s'.inHand = s.inHand) :
    Conserves space hand places s places s' where
  owned := by
    obtain ⟨h₁, h₂, h₃, h₄⟩ := h.owned
    exact ⟨hforest ▸ h₁, hframes ▸ h₂, hframes ▸ h₃, h₄⟩
  roots _ _ := Iff.rfl
  live := hlive
  available f := by
    unfold Available FreeOrIn
    rw [hframes, hhand]

theorem mem_filter_ne {f frame : Nat} {frames : List Nat} :
    f ∈ frames.filter (· ≠ frame) ↔ f ∈ frames ∧ f ≠ frame := by
  rw [List.mem_filter, decide_eq_true_iff]

theorem Separate.conserves (h : Separate boot base places s) (hlive : space ∈ s.live)
    (hhand : ∀ f ∈ hand, ¬ Available space hand places s f)
    (hguard : Fills space hand s a) (hs : s.step boot a = some s') :
    ∃ places', Conserves space hand places s places' s' := by
  cases a with
  | switch r =>
    unfold SpaceState.step at hs
    dsimp only at hs
    split at hs
    · obtain rfl := Option.some.inj hs
      exact ⟨places, .of_same h rfl rfl rfl rfl⟩
    · cases hs
  | allocate =>
    unfold SpaceState.step allocatePhysicalFrame at hs
    dsimp only at hs
    cases hx : s.memory.frames.allocate with
    | mk result frames =>
      rw [hx] at hs
      cases result with
      | none =>
        obtain rfl := Option.some.inj hs
        rw [FrameAllocator.allocate_none hx]
        exact ⟨places, .of_same h rfl rfl rfl rfl⟩
      | some frame =>
        obtain rfl := Option.some.inj hs
        obtain ⟨h', -, hfree, hfresh, -, hnot⟩ := h.owned.allocate hx
        have hothers := (FrameAllocator.allocate_some hx).2.2.2
        have hnew : frame ∉ hand := fun hmem => hhand frame hmem (.inl (.inl hfree))
        refine ⟨places, h', fun _ _ => Iff.rfl, rfl, fun f => ?_⟩
        show (frames.IsFree f ∨ _) ∨ f ∈ frame :: s.inHand ∧ _ ↔ _
        by_cases hf : f = frame
        · subst hf
          exact iff_of_true (.inr ⟨List.mem_cons_self, hnew⟩) (.inl (.inl hfree))
        · rw [(hothers f hf).1, List.mem_cons, or_iff_right hf]
          exact Iff.rfl
  | free frame =>
    unfold SpaceState.step at hs
    dsimp only at hs
    split at hs
    · rename_i hframe
      obtain rfl := Option.some.inj hs
      obtain ⟨hnone, hall, -⟩ := h.hand frame hframe
      refine ⟨places, (h.owned.freePhysicalFrame hnone).1, fun _ _ => Iff.rfl, rfl,
        fun f => ?_⟩
      show ((s.memory.frames.free frame).IsFree f ∨ _) ∨
        f ∈ s.inHand.filter (· ≠ frame) ∧ _ ↔ _
      rw [mem_filter_ne]
      by_cases hf : f = frame
      · subst hf
        exact iff_of_true (.inl (.inl (FrameAllocator.isFree_free_self hall).1))
          (.inr ⟨hframe, hguard⟩)
      · rw [(FrameAllocator.free_other hf).1, and_iff_left hf]
        exact Iff.rfl
    · cases hs
  | fill frame index value =>
    unfold SpaceState.step at hs
    dsimp only at hs
    split at hs
    · rename_i hframe
      obtain rfl := Option.some.inj hs
      have hm : Moves boot True places s places _ := Moves.fill h index value hframe
      exact ⟨places, hm.owned, fun _ _ => Iff.rfl, rfl, fun _ => Iff.rfl⟩
    · cases hs
  | mapIn r v frame flags =>
    obtain ⟨rfl, hnew⟩ := hguard
    unfold SpaceState.step at hs
    dsimp only at hs
    split at hs
    · rename_i hmem
      obtain ⟨hnone, hall, hnot⟩ := h.hand frame hmem.2
      unfold mapUserPageIn at hs
      by_cases hv : InUserSpace v
      · rw [if_pos hv, mapPageIn_eq, h.target_root hlive] at hs
        have hends := h.owned.mapFrom_accounts (h.place hlive) flags (leafIndex v) rfl
          (within_space r hv.2) (inside_leaf r v) hnone hall hnot
        cases hx : mapFrom flags (upperIndices v) (leafIndex v) frame r s.memory with
        | ok u m' =>
          rw [hx] at hs hends
          obtain rfl := Option.some.inj hs
          obtain ⟨places', h', hroots, haccounts⟩ := hends
          refine ⟨places', h', hroots, rfl, fun f => ?_⟩
          show FreeOrIn places' m' _ f ∨ f ∈ s.inHand.filter (· ≠ frame) ∧ _ ↔ _
          rw [haccounts, mem_filter_ne]
          by_cases hf : f = frame
          · subst hf
            exact iff_of_true (.inl (.inr rfl)) (.inr ⟨hmem.2, hnew⟩)
          · rw [or_iff_left hf, and_iff_left hf]
            exact Iff.rfl
        | error e m' =>
          rw [hx] at hs hends
          obtain rfl := Option.some.inj hs
          obtain ⟨places', h', hroots, haccounts⟩ := hends
          exact ⟨places', h', hroots, rfl, fun f => or_congr_left (haccounts f)⟩
      · rw [if_neg hv] at hs
        obtain rfl := Option.some.inj hs
        exact ⟨places, .of_same h rfl rfl rfl rfl⟩
    · cases hs
  | unmap v =>
    unfold SpaceState.step at hs
    dsimp only at hs
    split at hs
    · rename_i hmem
      have hends := h.owned.unmapEntry (h.place hmem.1) (leafIndex v) rfl
        (within_space _ hmem.2) (inside_leaf _ v)
      cases hx : s.memory.unmapPage v with
      | mk result m' =>
        have hfrom : s.memory.unmapFrom (upperIndices v) (leafIndex v)
            s.memory.activeAddressSpace = (result, m') := hx
        rw [hx] at hs
        rw [hfrom] at hends
        cases result with
        | none =>
          obtain rfl := Option.some.inj hs
          rw [hends.1]
          exact ⟨places, .of_same h rfl rfl rfl rfl⟩
        | some frame =>
          obtain rfl := Option.some.inj hs
          obtain ⟨-, -, -, hframes, ⟨path, hplace, -⟩, h', htouch, -⟩ := hends
          rw [show s.memory.activeAddressSpace = space from hguard] at hplace
          have hnew : frame ∉ hand := fun hmem =>
            hhand frame hmem (.inl (.inr ⟨path, hplace⟩))
          refine ⟨_, h', htouch.roots, rfl, fun f => ?_⟩
          show (m'.frames.IsFree f ∨ _) ∨ f ∈ frame :: s.inHand ∧ _ ↔ _
          by_cases hf : f = frame
          · subst hf
            exact iff_of_true (.inr ⟨List.mem_cons_self, hnew⟩) (.inl (.inr ⟨path, hplace⟩))
          · rw [hframes, Function.update_of_ne hf, List.mem_cons, or_iff_right hf]
            exact Iff.rfl
    · cases hs
  | create | map | releaseUserStack | store | allocateKernelStack | releaseKernelStack
  | mapDevice | destroy => exact hguard.elim

end Step

/-! ## From creation to destruction -/

section Life

variable {boot : Nat} {base : Memory} {places places' places'' : Places}
  {s s' s₁ t : SpaceState} {space f : Nat}

/-- The placing of a state is the only one with its roots. -/
theorem Separate.placing_eq (h : Separate boot base places s)
    (h' : Separate boot base places' s') (hlive : s'.live = s.live)
    (ho : Owned places'' s'.memory)
    (hroots : ∀ f o, places'' f = some (o, []) ↔ places f = some (o, [])) :
    places'' = places' := by
  refine ho.forest.places_eq h'.owned.forest fun f o => (hroots f o).trans ?_
  have hboot : s'.memory.words boot = s.memory.words boot :=
    (h'.fixed boot (.inl rfl)).2.2.1.trans (h.fixed boot (.inl rfl)).2.2.1.symm
  have hwindow := h'.window.2.2
  rw [hboot] at hwindow
  cases o with
  | space r =>
    constructor
    · intro hf
      obtain rfl := h.roots f r hf
      exact h'.place (by rw [hlive]; exact (h.live f).mpr hf)
    · intro hf
      obtain rfl := h'.roots f r hf
      exact h.place (by rw [← hlive]; exact (h'.live f).mpr hf)
  | window =>
    constructor
    · intro hf
      rw [h.owned.forest.root hf h.window.2.2]
      exact hwindow
    · intro hf
      rw [h'.owned.forest.root hf hwindow]
      exact h.window.2.2

/-- The frames available to a space that has just been created. -/
theorem Separate.available_created (h : Separate boot base places s)
    (hrec : Recorded boot s) (hcreate : s.step boot .create = some s₁)
    (hspace : s₁.live = space :: s.live) :
    ∃ places₁, Separate boot base places₁ s₁ ∧ Recorded boot s₁ ∧
      ∀ f, Available space s.inHand places₁ s₁ f ↔ s.memory.frames.IsFree f := by
  unfold SpaceState.step at hcreate
  dsimp only at hcreate
  cases hx : s.memory.frames.allocate with
  | mk result frames =>
    cases result with
    | none =>
      rw [createUserAddressSpace_of_none hx] at hcreate
      obtain rfl := Option.some.inj hcreate
      exact absurd hspace.symm (List.cons_ne_self _ _)
    | some frame =>
      obtain ⟨-, -, hfree, hfresh, -, hnot⟩ := h.owned.allocate hx
      have hothers := (FrameAllocator.allocate_some hx).2.2.2
      rw [createUserAddressSpace_of_some hx (h.active_ne hfree)] at hcreate
      obtain rfl := Option.some.inj hcreate
      obtain rfl := (List.cons.inj hspace).1
      obtain ⟨hsep, -, hrec'⟩ := h.create hx
      refine ⟨_, hsep, hrec' hrec, fun f => ?_⟩
      show (frames.IsFree f ∨ _) ∨ f ∈ s.inHand ∧ f ∉ s.inHand ↔ _
      rw [or_iff_left fun hbad => hbad.2 hbad.1]
      by_cases hf : f = frame
      · subst hf
        exact iff_of_true (.inr ⟨[], Function.update_self _ _ _⟩) hfree
      · rw [(hothers f hf).1, Function.update_of_ne hf]
        refine or_iff_left ?_
        rintro ⟨path, hplace⟩
        obtain ⟨root, hroot⟩ := h.owned.forest.exists_root hplace
        rw [h.roots root frame hroot, hfresh] at hroot
        cases hroot

/-- The frames available while a space is filled. -/
theorem Separate.available_filled (h : Separate boot base places s₁)
    (hrec : Recorded boot s₁) (hlive : space ∈ s₁.live)
    (havailable : ∀ f, Available space s.inHand places s₁ f ↔ s.memory.frames.IsFree f)
    (hhand : ∀ f ∈ s.inHand, ¬ s.memory.frames.IsFree f)
    (hrun : Run (SpaceState.step boot) (Fills space s.inHand) s₁ t) :
    ∃ places', Separate boot base places' t ∧ space ∈ t.live ∧
      ∀ f, Available space s.inHand places' t f ↔ s.memory.frames.IsFree f := by
  have hinv := hrun.invariant (fun t => ∃ places', Separate boot base places' t ∧
    Recorded boot t ∧ space ∈ t.live ∧
      ∀ f, Available space s.inHand places' t f ↔ s.memory.frames.IsFree f) ?_
    ⟨places, h, hrec, hlive, havailable⟩
  · obtain ⟨places', hsep, -, hlive', havailable'⟩ := hinv
    exact ⟨places', hsep, hlive', havailable'⟩
  · rintro u a u' ⟨placesU, hsep, hrecU, hliveU, hiff⟩ hguard hstep
    obtain ⟨places', hsep', hrec', -⟩ := hsep.step hrecU hstep
    obtain ⟨places'', hc⟩ := hsep.conserves hliveU
      (fun f hf => mt (hiff f).mp (hhand f hf)) hguard hstep
    obtain rfl := hsep.placing_eq hsep' hc.live hc.owned hc.roots
    exact ⟨_, hsep', hrec', by rw [hc.live]; exact hliveU,
      fun f => (hc.available f).trans (hiff f)⟩

/-- The indices on the path of a frame. -/
theorem Owned.path_indices {m : Memory} {path : List Nat} (h : Owned places m)
    (hf : places f = some (.space space, path)) :
    (∀ i ∈ path, i < 512) ∧ ∀ i ∈ path.getLast?, i < 256 := by
  induction path generalizing f with
  | nil => exact ⟨(fun i hi => nomatch hi), fun i hi => nomatch hi⟩
  | cons i path ih =>
    obtain ⟨-, hin, u, hu, -⟩ := h.forest.parent hf
    obtain ⟨hall, hlast⟩ := ih hu
    refine ⟨fun j hj => ?_, fun j hj => ?_⟩
    · rcases List.mem_cons.mp hj with rfl | hj
      · exact hin.1
      · exact hall j hj
    · cases path with
      | nil =>
        obtain rfl := Option.some.inj hj
        exact hin.2 rfl
      | cons k path =>
        rw [List.getLast?_cons_cons] at hj
        exact hlast j hj

/-- A frame of a space is its root or is referred to by one of its entries. -/
theorem Separate.references_of_place (h : Separate boot base places t)
    (hlive : space ∈ t.live) {path : List Nat} (hf : places f = some (.space space, path)) :
    f = space ∨ ∃ path index, References t.memory space path index f := by
  cases path with
  | nil => exact .inl (h.roots f space hf)
  | cons index path =>
    obtain ⟨hlen, hin, u, hu, href⟩ := h.owned.forest.parent hf
    obtain ⟨hp, htarget⟩ := ref_eq_some href
    obtain ⟨hall, hlast⟩ := h.owned.path_indices hu
    refine .inr ⟨path.reverse, index, ?_, ?_, hin.1, ?_, u, ?_, hp, htarget⟩
    · rw [List.length_reverse]
      exact Nat.le_of_lt_succ hlen
    · exact fun i hi => hall i (List.mem_reverse.mp hi)
    · rw [List.headD_eq_head?_getD, List.head?_reverse]
      cases hpath : path.getLast? with
      | none => exact hin.2 (List.getLast?_eq_none_iff.mp hpath)
      | some i => exact hlast i hpath
    · rw [walk_eq]
      exact h.owned.forest.walk_to (h.place hlive) hu hlen

/-- Destroying a space gives back what creating and filling it has taken, and
it leaves the kernel half of every space alone. -/
theorem destroy_gives_back {config : PagingConfig}
    (h : SpacesReached config Always boot base s)
    (hcreate : s.step boot .create = some s₁) (hspace : s₁.live = space :: s.live)
    (hrun : Run (SpaceState.step boot) (Fills space s.inHand) s₁ t)
    (hhand : ∀ f ∈ t.inHand, f ∈ s.inHand) :
    (∀ f, (destroyUserAddressSpace space t.memory).frames.IsFree f ↔
        s.memory.frames.IsFree f) ∧
      (∀ f, (destroyUserAddressSpace space t.memory).frames.IsFree f →
        ¬ t.memory.frames.IsFree f →
          f = space ∨ ∃ path index, References t.memory space path index f) ∧
      ∀ r, r = boot ∨ r ∈ t.live →
        (∀ i, 256 ≤ i → i < 512 →
          (destroyUserAddressSpace space t.memory).words r i = t.memory.words r i) ∧
        ∀ table, KernelHalfTable t.memory r table →
          (destroyUserAddressSpace space t.memory).words table =
            t.memory.words table := by
  obtain ⟨places, hsep, hrec⟩ := h.separate
  obtain ⟨places₁, hsep₁, hrec₁, havailable₁⟩ := hsep.available_created hrec hcreate hspace
  obtain ⟨places', hsep', hlive, havailable⟩ := hsep₁.available_filled hrec₁
    (by rw [hspace]; exact List.mem_cons_self) havailable₁
    (fun f hf => (hsep.hand f hf).2.2) hrun
  have hrel := destroyUserAddressSpace_released hsep'.owned (hsep'.place hlive)
  refine ⟨fun f => ?_, fun f hf hnot => ?_, fun r hr => ⟨fun i hi _ => ?_, fun table ht => ?_⟩⟩
  · rw [← havailable f]
    unfold Available FreeOrIn
    rw [or_iff_left fun hbad => hbad.2 (hhand f hbad.1), ← below_space_iff]
    by_cases hgone : Below places' (.space space) [] f
    · exact iff_of_true (hrel.freed f hgone).1 (.inr hgone)
    · rw [(hrel.frames f hgone).1, or_iff_left hgone]
  · by_cases hgone : Below places' (.space space) [] f
    · obtain ⟨path, hplace⟩ := (below_space_iff space f).mp hgone
      exact hsep'.references_of_place hlive hplace
    · exact absurd ((hrel.frames f hgone).1.mp hf) hnot
  · by_cases hrs : r = space
    · rw [hrs]
      exact destroyUserAddressSpace_upper hsep'.owned (hsep'.place hlive) hi
    · rw [hrel.words r]
      rw [below_space_iff]
      rintro ⟨path, hplace⟩
      rcases hr with rfl | hr
      · rw [(hsep'.fixed r (.inl rfl)).1] at hplace
        cases hplace
      · rw [hsep'.place hr] at hplace
        exact hrs (Owner.space.inj (Prod.mk.inj (Option.some.inj hplace)).1)
  · rw [hrel.words table]
    rw [below_space_iff]
    rintro ⟨path, hplace⟩
    exact hsep'.kernelHalfTable hr ht path hplace

end Life

set_option maxRecDepth 100000 in
/-- A page is mapped, another mapping of it fails and the frame is freed, a
second page is mapped, and the first is unmapped and its frame freed. -/
theorem destroy_gives_back_unmapped : ∃ s t : SpaceState,
    t.memory.lookup 0x103000 (futureUserSpaceBase + pageSize) =
      some (0x108000 ||| PageFlags.userReadOnly.bits) ∧
    ∀ f, (destroyUserAddressSpace 0x103000 t.memory).frames.IsFree f ↔
      s.memory.frames.IsFree f := by
  have hrun : (spacesAfter Always []).any (fun s =>
      (s.step 0x1000 .create).any fun s₁ =>
        decide (s₁.live = 0x103000 :: s.live ∧ s.inHand = []) &&
        (exec (SpaceState.step 0x1000) (Fills 0x103000 s.inHand) [.allocate,
          .mapIn 0x103000 futureUserSpaceBase 0x104000 .userReadWrite, .allocate,
          .mapIn 0x103000 futureUserSpaceBase 0x108000 .userReadWrite, .free 0x108000,
          .allocate, .mapIn 0x103000 (futureUserSpaceBase + pageSize) 0x108000 .userReadOnly,
          .switch 0x103000, .unmap futureUserSpaceBase, .free 0x104000,
          .switch 0x1000] s₁).any fun t => decide (t.inHand = [] ∧
            t.memory.lookup 0x103000 (futureUserSpaceBase + pageSize) =
              some (0x108000 ||| PageFlags.userReadOnly.bits))) = true := by
    decide +kernel
  obtain ⟨s, hs, hrun⟩ := (Option.any_eq_true _ _).mp hrun
  obtain ⟨s₁, hs₁, hrun⟩ := (Option.any_eq_true _ _).mp hrun
  obtain ⟨hspace, hrun⟩ := Bool.and_eq_true_iff.mp hrun
  obtain ⟨t, ht, hstate⟩ := (Option.any_eq_true _ _).mp hrun
  obtain ⟨hlive, -⟩ := of_decide_eq_true hspace
  obtain ⟨hhand, hlookup⟩ := of_decide_eq_true hstate
  obtain ⟨base, hreached⟩ := spacesReached_after hs
  refine ⟨s, t, hlookup, (destroy_gives_back hreached hs₁ hlive (run_of_exec ht) ?_).1⟩
  rw [hhand]
  exact fun f hf => nomatch hf

end OpenKernel
