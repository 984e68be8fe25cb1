import OpenKernel.Memory.Separation

/-!
# The steps of address spaces

Each step of `SpaceState` keeps `Separate` and `Recorded`.  The steps that
keep the set of spaces go through `Moves`; creating, switching and destroying
a space have their own lemmas.
-/

namespace OpenKernel

open Lib

section Moves

variable {boot : Nat} {base : Memory} {places places' : Places} {s s' : SpaceState}
  {user : Prop} {frame r v : Nat} {flags : PageFlags}

/-- The hand after a step that touches no frame of it. -/
theorem Separate.hand_kept (h : Separate boot base places s) {m' : Memory}
    {used : Nat → Prop} (ht : Touches used places s.memory places' m') {f : Nat}
    (hf : f ∈ s.inHand) (hnot : ¬ used f) :
    places' f = none ∧ m'.frames.IsAllocated f ∧ ¬ m'.frames.IsFree f ∧
      (f ∈ s.inHand ∨ s.memory.frames.IsFree f ∨ places f ≠ none) := by
  obtain ⟨hnone, hall, hfree⟩ := h.hand f hf
  obtain ⟨hnone', -, hfree', hall'⟩ := ht.frames f hnone hfree hnot
  exact ⟨hnone', hall'.mpr hall, hfree', .inl hf⟩

theorem Moves.allocate {frames : FrameAllocator} (h : Separate boot base places s)
    (halloc : s.memory.frames.allocate = (some frame, frames)) :
    Moves boot user places s places
      { s with memory := { s.memory with frames }, inHand := frame :: s.inHand } where
  owned := (h.owned.allocate halloc).1
  touches := (h.owned.allocate halloc).2.1.mono fun _ hf => hf.elim
  live := rfl
  hand f hf := by
    obtain ⟨-, htouch, hfree, hfresh, hall, hnot⟩ := h.owned.allocate halloc
    rcases List.mem_cons.mp hf with rfl | hf
    · exact ⟨hfresh, hall, hnot, .inr (.inl hfree)⟩
    · exact h.hand_kept htouch hf id
  linked _ hlinked := hlinked
  recorded hr := hr.words rfl rfl rfl rfl

theorem Moves.free (h : Separate boot base places s) (hframe : frame ∈ s.inHand) :
    Moves boot user places s places
      { s with
        memory := s.memory.freePhysicalFrame frame
        inHand := s.inHand.filter (· ≠ frame) } where
  owned := (h.owned.freePhysicalFrame (h.hand frame hframe).1).1
  touches := (h.owned.freePhysicalFrame (h.hand frame hframe).1).2.mono
    fun f hf => by rw [hf]; exact hframe
  live := rfl
  hand f hf := by
    obtain ⟨hmem, hne⟩ := List.mem_filter.mp hf
    exact h.hand_kept (h.owned.freePhysicalFrame (h.hand frame hframe).1).2 hmem
      (by simpa using hne)
  linked _ hlinked := hlinked
  recorded hr := hr.words rfl rfl rfl rfl

/-- Lookups read the tables of their tree. -/
theorem sameEntries_of_words {m m' : Memory} (ho : Owned places m)
    (hwords : ∀ f o path, places f = some (o, path) → path.length < pageTree.depth o →
      m'.words f = m.words f) : SameEntries places m m' fun _ _ _ => False := by
  intro o f is last hf hlen hin _
  have hlen' : ([] : List Nat).length + is.length ≤ pageTree.depth o := by
    rw [List.length_nil, Nat.zero_add]
    omega
  unfold Radix.entry
  rw [ho.forest.walk_congr (fun g path i hg hlt _ => by rw [hwords g o path hg hlt]) hf
    hlen' hin]
  cases hw : pageTree.walk m.words is f with
  | none => rfl
  | some t =>
    have ht := ho.forest.walk_place hf hlen' hin hw
    show (if (pageTree.ref (m'.words t last)).isSome then _ else none) =
      if (pageTree.ref (m.words t last)).isSome then some (m.words t last) else none
    rw [hwords t o _ ht (by rw [List.append_nil, List.length_reverse]; omega)]

/-- Lookups do not read pages. -/
theorem sameEntries_writePage {m : Memory} (ho : Owned places m) (index value : Nat)
    (hpage : ∀ o path, places frame = some (o, path) → path.length = pageTree.depth o) :
    SameEntries places m (m.writeWord frame index value) fun _ _ _ => False := by
  refine sameEntries_of_words ho fun g o path hg hlt => put_other ?_
  rintro rfl
  rw [hpage o path hg] at hlt
  exact absurd hlt (Nat.lt_irrefl _)

/-- Writing a word of a page or of a frame in hand. -/
theorem Moves.writePage (h : Separate boot base places s) (index value : Nat)
    (hpage : ∀ o path, places frame = some (o, path) → path.length = pageTree.depth o)
    (hhand : places frame = none → frame ∈ s.inHand) :
    Moves boot user places s places
      { s with memory := s.memory.writeWord frame index value } where
  owned := (h.owned.writePage index value hpage).1
  touches := (h.owned.writePage index value hpage).2.mono
    fun f hf => by rw [hf.1]; exact hhand hf.2
  live := rfl
  hand f hf := by
    obtain ⟨hnone, hall, hfree⟩ := h.hand f hf
    exact ⟨hnone, hall, hfree, .inl hf⟩
  linked _ hlinked f r path i hf hlen hin hp := by
    have hne : f ≠ frame := by
      rintro rfl
      have hdepth : path.length = 4 := hpage _ _ hf
      omega
    rw [show (s.memory.writeWord frame index value).words f = s.memory.words f from
      put_other hne] at hp ⊢
    exact hlinked f r path i hf hlen hin hp
  recorded hr := hr.space h ((h.owned.writePage index value hpage).2.mono
      fun f hf => by rw [hf.1]; exact hhand hf.2)
    (sameEntries_writePage h.owned index value hpage) (fun _ _ => id) rfl rfl
    (fun _ _ _ _ => .inl ⟨id, rfl⟩) (fun _ _ _ _ _ hn => .inl hn)

/-! ## Mapping and unmapping user pages -/

theorem record_eq (maps : Nat → Nat → Option (Nat × PageFlags)) (space v : Nat)
    (page : Option (Nat × PageFlags)) (r n : Nat) :
    SpaceState.record maps space v page r n =
      if r = space ∧ n = v / pageSize then page else maps r n := by
  unfold SpaceState.record
  by_cases hr : r = space
  · subst hr
    rw [put_same]
    by_cases hn : n = v / pageSize
    · rw [hn, put_same, if_pos ⟨rfl, rfl⟩]
    · rw [put_other hn, if_neg fun hx => hn hx.2]
  · rw [put_other hr, if_neg fun hx => hr hx.1]

/-- `map_page_in` of a frame in hand. -/
theorem Moves.mapPageIn (user : Prop) (h : Separate boot base places s) (hr : r ∈ s.live)
    (hframe : frame ∈ s.inHand) (hv : v < userSpaceEnd)
    (huser : user → flags.bits &&& userBit ≠ 0) :
    match OpenKernel.mapPageIn r v frame flags s.memory with
    | .ok _ memory => ∃ places', Moves boot user places s places'
        { s with
          memory
          inHand := s.inHand.filter (· ≠ frame)
          maps := SpaceState.record s.maps r v (some (frame, flags)) }
    | .error _ memory => ∃ places', Moves boot user places s places' { s with memory } := by
  obtain ⟨hfresh, hall, hfree⟩ := h.hand frame hframe
  have hends := h.owned.mapEntry (h.place hr) flags (leafIndex v) rfl (within_space r hv)
    (inside_leaf r v) hfresh hall hfree
  have hmap : OpenKernel.mapPageIn r v frame flags =
      mapFrom flags (upperIndices v) (leafIndex v) frame r := by
    rw [mapPageIn_eq, h.target_root hr]
  rw [hmap]
  cases hx : mapFrom flags (upperIndices v) (leafIndex v) frame r s.memory with
  | error e m' =>
    rw [hx] at hends
    obtain ⟨-, hsame, places', h', htouch, hlinked⟩ := hends
    have htouch' : Touches (· ∈ s.inHand) places s.memory places' m' :=
      htouch.mono fun _ hf => hf.elim
    refine ⟨places', h', htouch', rfl, fun f hf => h.hand_kept htouch hf id,
      fun hu => hlinked fun _ => huser hu, fun hrec => ?_⟩
    exact hrec.space h htouch' hsame (fun _ _ => id) rfl rfl
      (fun _ _ _ _ => .inl ⟨id, rfl⟩) (fun _ _ _ _ _ hn => .inl hn)
  | ok u m' =>
    rw [hx] at hends
    obtain ⟨-, hentry, hsame, places', h', htouch, hlinked⟩ := hends
    have htouch' : Touches (· ∈ s.inHand) places s.memory places' m' :=
      htouch.mono fun f hf => by rw [hf]; exact hframe
    refine ⟨places', h', htouch', rfl, ?_, fun hu => hlinked fun _ => huser hu,
      fun hrec => ?_⟩
    · intro f hf
      obtain ⟨hmem, hne⟩ := List.mem_filter.mp hf
      exact h.hand_kept htouch hmem (by simpa using hne)
    · refine hrec.space h htouch' hsame (fun _ _ hbad => nomatch hbad.1) rfl rfl ?_ ?_
      · intro r' hr' v' hv'
        show _ ∧ SpaceState.record _ _ _ _ _ _ = _ ∨
          m'.lookup r' v' = (SpaceState.record _ _ _ _ _ _).map _
        rw [record_eq]
        by_cases hhit : r' = r ∧ v' / pageSize = v / pageSize
        · refine .inr ?_
          obtain ⟨rfl, hpage⟩ := hhit
          obtain ⟨hindices, hleaf⟩ := (same_page hv' hv).mpr hpage
          rw [if_pos ⟨rfl, hpage⟩, lookup_eq, h.target_root hr', hindices, hleaf]
          exact hentry
        · refine .inl ⟨?_, if_neg hhit⟩
          rintro ⟨howner, hindices, hleaf⟩
          exact hhit ⟨Owner.space.inj howner, (same_page hv' hv).mp ⟨hindices, hleaf⟩⟩
      · intro r' hr' n frame' flags' hn
        change SpaceState.record _ _ _ _ _ _ = _ at hn
        rw [record_eq] at hn
        split at hn
        · rename_i hhit
          obtain ⟨rfl, -⟩ := Prod.mk.inj (Option.some.inj hn)
          refine .inr ⟨hall.target_eq, ?_⟩
          rw [hhit.2]
          exact Nat.lt_of_le_of_lt (Nat.div_mul_le_self v pageSize) hv
        · exact .inl hn

/-- `unmap_page` in the active space. -/
theorem Moves.unmapPage (user : Prop) (h : Separate boot base places s)
    (hr : s.memory.activeAddressSpace ∈ s.live) (hv : v < userSpaceEnd) :
    match s.memory.unmapPage v with
    | (some frame, memory) => ∃ places', Moves boot user places s places'
        { s with
          memory
          inHand := frame :: s.inHand
          maps := SpaceState.record s.maps s.memory.activeAddressSpace v none }
    | (none, memory) => memory = s.memory := by
  have hroot : places (target s.memory.cr3) = some (.space (target s.memory.cr3), []) :=
    h.place hr
  have hends := h.owned.unmapEntry hroot (leafIndex v) rfl (within_space _ hv)
    (inside_leaf _ v)
  rw [← unmapPage_eq] at hends
  cases hx : s.memory.unmapPage v with
  | mk result m' =>
    cases result with
    | none =>
      rw [hx] at hends
      exact hends.1
    | some frame =>
      rw [hx] at hends
      obtain ⟨-, hnone, hsame, hframes, ⟨path, hplace, -⟩, h', htouch, hlinked⟩ := hends
      have htouch' : Touches (· ∈ s.inHand) places s.memory
          (Function.update places frame none) m' := htouch.mono fun _ hf => hf.elim
      refine ⟨_, h', htouch', rfl, ?_, fun _ => hlinked, fun hrec => ?_⟩
      · intro f hf
        rcases List.mem_cons.mp hf with rfl | hf
        · show _ ∧ m'.frames.IsAllocated _ ∧ ¬ m'.frames.IsFree _ ∧ _
          rw [hframes]
          exact ⟨Function.update_self _ _ _, h.owned.allocated _ _ _ hplace,
            h.owned.notFree _ _ hplace, .inr (.inr (by rw [hplace]; exact Option.some_ne_none _))⟩
        · exact h.hand_kept htouch hf id
      · refine hrec.space h htouch' hsame (fun _ _ hbad => nomatch hbad.1) rfl rfl ?_ ?_
        · intro r' hr' v' hv'
          show _ ∧ SpaceState.record _ _ _ _ _ _ = _ ∨
            m'.lookup r' v' = (SpaceState.record _ _ _ _ _ _).map _
          rw [record_eq]
          by_cases hhit : r' = s.memory.activeAddressSpace ∧ v' / pageSize = v / pageSize
          · refine .inr ?_
            obtain ⟨rfl, hpage⟩ := hhit
            obtain ⟨hindices, hleaf⟩ := (same_page hv' hv).mpr hpage
            rw [if_pos ⟨rfl, hpage⟩, lookup_eq, h.target_root hr', hindices, hleaf]
            exact hnone
          · refine .inl ⟨?_, if_neg hhit⟩
            rintro ⟨howner, hindices, hleaf⟩
            exact hhit ⟨Owner.space.inj howner, (same_page hv' hv).mp ⟨hindices, hleaf⟩⟩
        · intro r' hr' n frame' flags' hn
          change SpaceState.record _ _ _ _ _ _ = _ at hn
          rw [record_eq] at hn
          split at hn
          · cases hn
          · exact .inl hn

end Moves

/-! ## Stacks and devices -/

section Stacks

variable {boot : Nat} {base : Memory} {places places' : Places} {s s' : SpaceState}
  {user : Prop} {slot v : Nat} {flags : PageFlags}

theorem foldl_record (space : Nat) (pages : List Nat)
    (maps : Nat → Nat → Option (Nat × PageFlags)) (r n : Nat) :
    pages.foldl (fun maps page => SpaceState.record maps space page none) maps r n =
      if r = space ∧ ∃ page ∈ pages, n = page / pageSize then none else maps r n := by
  induction pages generalizing maps with
  | nil => rw [if_neg fun hx => nomatch hx.2.choose_spec.1]; rfl
  | cons page pages ih =>
    rw [List.foldl_cons, ih, record_eq]
    by_cases hr : r = space
    · by_cases hn : ∃ page ∈ pages, n = page / pageSize
      · obtain ⟨q, hq, hnq⟩ := hn
        rw [if_pos ⟨hr, q, hq, hnq⟩, if_pos ⟨hr, q, List.mem_cons_of_mem page hq, hnq⟩]
      · rw [if_neg fun hx => hn hx.2]
        by_cases hpage : n = page / pageSize
        · rw [if_pos ⟨hr, hpage⟩, if_pos ⟨hr, page, List.mem_cons_self, hpage⟩]
        · rw [if_neg fun hx => hpage hx.2, if_neg]
          rintro ⟨-, q, hq, hnq⟩
          rcases List.mem_cons.mp hq with rfl | hq
          · exact hpage hnq
          · exact hn ⟨q, hq, hnq⟩
    · rw [if_neg fun hx => hr hx.1, if_neg fun hx => hr hx.1, if_neg fun hx => hr hx.1]

theorem userStack_lt (hv : v ∈ userStack slot) : v < userSpaceEnd := by
  obtain ⟨page, -, rfl⟩ := List.mem_map.mp hv
  have hend : userSpaceEnd = 2 ^ 47 := by decide
  simp only [userStackTop, userStackPages, pageSize]
  omega

/-- `release_user_stack` in the active space. -/
theorem Moves.releaseUserStack (slot : Nat) (h : Separate boot base places s)
    (hr : s.memory.activeAddressSpace ∈ s.live) :
    ∃ places', Moves boot user places s places'
      { s with
        memory := s.memory.releaseUserStack slot
        maps := (userStack slot).foldl
          (fun maps page => SpaceState.record maps s.memory.activeAddressSpace page none)
          s.maps } := by
  obtain ⟨⟨places', h', htouch, hsame, hlinked⟩, hgone⟩ :=
    (h.reach_space hr).releasePages h.owned fun v hv => userStack_lt hv
  have htouch' : Touches (· ∈ s.inHand) places s.memory places'
      (s.memory.releaseUserStack slot) := htouch.mono fun _ hf => hf.elim
  refine ⟨places', h', htouch', rfl, fun f hf => h.hand_kept htouch hf id,
    fun _ => hlinked, fun hrec => ?_⟩
  refine hrec.space h htouch' hsame (fun _ _ hbad => nomatch hbad.1) rfl rfl ?_ ?_
  · intro r hr' v hv
    dsimp only
    rw [foldl_record]
    by_cases hhit : r = s.memory.activeAddressSpace ∧
        ∃ page ∈ userStack slot, v / pageSize = page / pageSize
    · refine .inr ?_
      obtain ⟨rfl, page, hpage, heq⟩ := hhit
      obtain ⟨hindices, hleaf⟩ := (same_page hv (userStack_lt hpage)).mpr heq
      rw [if_pos ⟨rfl, page, hpage, heq⟩, lookup_eq, h.target_root hr', hindices, hleaf]
      exact hgone page hpage
    · refine .inl ⟨?_, if_neg hhit⟩
      rintro ⟨howner, page, hpage, hindices, hleaf⟩
      exact hhit ⟨Owner.space.inj howner, page, hpage,
        (same_page hv (userStack_lt hpage)).mp ⟨hindices, hleaf⟩⟩
  · intro r hr' n frame flags hn
    dsimp only at hn
    rw [foldl_record] at hn
    split at hn
    · cases hn
    · exact .inl hn

/-- What a lookup of a user address finds is a page of its space. -/
theorem Separate.leaf_place (h : Separate boot base places s) {leaf : Nat} (hr : r ∈ s.live)
    (hv : v < userSpaceEnd) (hleaf : s.memory.lookup r v = some leaf) :
    ∃ path, places (target leaf) = some (.space r, path) ∧ path.length = 4 := by
  rw [h.lookup_space hr] at hleaf
  unfold Radix.entry at hleaf
  obtain ⟨table, hwalk, hentry⟩ := Option.bind_eq_some_iff.mp hleaf
  have htable := h.owned.forest.walk_place (h.place hr)
    (Nat.le_of_lt (length_upperIndices _)) (within_space r hv) hwalk
  split at hentry
  · rename_i hpresent
    obtain rfl := Option.some.inj hentry
    have href := ref_eq ((ref_isSome _).mp hpresent)
    exact ⟨_, h.owned.forest.child htable (length_upperIndices v) (inside_leaf r v) href, rfl⟩
  · cases hentry

/-- The frame of a recorded page is a page of its space. -/
theorem Separate.page_place (h : Separate boot base places s) (hrec : Recorded boot s)
    {r n frame : Nat} (hr : r ∈ s.live) (hn : s.maps r n = some (frame, flags)) :
    ∃ path, places frame = some (.space r, path) ∧ path.length = 4 := by
  obtain ⟨htarget, hlt⟩ := hrec.pages r hr n frame flags hn
  have hlookup := hrec.maps r hr (n * pageSize) hlt
  rw [Nat.mul_div_cancel n (by decide), hn] at hlookup
  have hplace := h.leaf_place hr hlt hlookup
  change ∃ path, places (target (frame ||| flags.bits)) = _ ∧ _ at hplace
  rwa [target_page htarget] at hplace

theorem Moves.store (h : Separate boot base places s) (hrec : Recorded boot s)
    {r n frame : Nat} (index value : Nat) (hr : r ∈ s.live)
    (hn : s.maps r n = some (frame, flags)) :
    Moves boot user places s places
      { s with memory := s.memory.writeWord frame index value } := by
  obtain ⟨path, hplace, hlen⟩ := h.page_place hrec hr hn
  refine Moves.writePage h index value ?_ fun hnone => ?_
  · intro o path' hf
    rw [hplace] at hf
    obtain ⟨rfl, rfl⟩ := Prod.mk.inj (Option.some.inj hf)
    exact hlen
  · rw [hplace] at hnone
    cases hnone

theorem Moves.fill (h : Separate boot base places s) {frame : Nat} (index value : Nat)
    (hframe : frame ∈ s.inHand) :
    Moves boot user places s places
      { s with memory := s.memory.writeWord frame index value } := by
  refine Moves.writePage h index value ?_ fun _ => hframe
  intro o path hf
  rw [(h.hand frame hframe).1] at hf
  cases hf

/-- Two window pages with the same path are the same page. -/
theorem stack_page {w : Nat} (hv : kernelStackGuardPage ≤ v ∧ v < windowEnd)
    (hw : deviceWindowBase ≤ w ∧ w < windowEnd)
    (hindices : windowIndices v = windowIndices w) (hleaf : leafIndex v = leafIndex w) :
    v / pageSize = w / pageSize :=
  same_window_page (base_le_of_guard hv.1) hv.2 hw.1 hw.2 hindices hleaf

/-- Stacks of different slots have different pages. -/
theorem kernelStack_ne {slot' : Nat} {w : Nat} (hv : v ∈ kernelStack slot)
    (hw : w ∈ kernelStack slot') (hne : slot ≠ slot') : v / pageSize ≠ w / pageSize := by
  obtain ⟨p, hp, rfl⟩ := List.mem_map.mp hv
  obtain ⟨q, hq, rfl⟩ := List.mem_map.mp hw
  have hp := List.mem_range.mp hp
  have hq := List.mem_range.mp hq
  have hguard : kernelStackGuardPage = 4096 * 0xFFFFFF1000000 := by decide
  simp only [kernelStackBase, hguard, kernelStackPages, pageSize] at hp hq ⊢
  omega

/-- The entries of a stack are not those of another one. -/
theorem not_pageEntries {slot' : Nat} (hslot : StackInWindow slot)
    (hslot' : StackInWindow slot') (hv : v ∈ kernelStack slot) (hne : slot ≠ slot') :
    ¬ PageEntries .window (kernelStack slot') .window (windowIndices v) (leafIndex v) := by
  rintro ⟨-, w, hw, hindices, hleaf⟩
  have hw' := mem_kernelStack hslot' hw
  exact kernelStack_ne hv hw hne
    (stack_page (mem_kernelStack hslot hv) ⟨base_le_of_guard hw'.1, hw'.2⟩ hindices hleaf)

/-- `allocate_kernel_stack`. -/
theorem Moves.allocateKernelStack (user : Prop) (h : Separate boot base places s)
    (hslot : StackInWindow slot) :
    match OpenKernel.allocateKernelStack slot s.memory with
    | .ok _ memory => ∃ places', Moves boot user places s places'
        { s with memory, kernelStacks := slot :: s.kernelStacks }
    | .error _ memory => ∃ places', Moves boot user places s places' { s with memory } := by
  have hends := h.reach_window.mapNewPages h.owned .kernelReadWrite
    (fun v hv => mem_kernelStack hslot hv) fun hne => absurd rfl hne
  rw [allocateKernelStack_eq]
  show match EStateM.bind ((kernelStack slot).forM (mapNewPage .kernelReadWrite))
      (fun _ => pure (kernelStackBase slot + kernelStackPages * pageSize)) s.memory with
    | .ok _ memory => ∃ places', Moves boot user places s places'
        { s with memory, kernelStacks := slot :: s.kernelStacks }
    | .error _ memory => ∃ places', Moves boot user places s places' { s with memory }
  unfold EStateM.bind
  -- A stack that was there keeps its pages.
  have hold : ∀ {m' : Memory} {places'}, Recorded boot s →
      Touches (· ∈ s.inHand) places s.memory places' m' → KeepsEntries places s.memory m' →
        ∀ slot' ∈ s.kernelStacks, ∀ v ∈ kernelStack slot', (m'.lookup boot v).isSome := by
    intro m' places' hrec htouch hkeeps slot' hmem v hv
    obtain ⟨hin, hpages⟩ := hrec.kernelStacks slot' hmem
    obtain ⟨hguard, hend⟩ := mem_kernelStack hin hv
    have hsome := hpages v hv
    rw [h.lookup_boot (base_le_of_guard hguard) hend] at hsome
    rw [h.lookup_boot_after htouch (base_le_of_guard hguard) hend,
      hkeeps .window _ _ _ h.window.2.2 rfl (within_window v) hsome]
    exact hsome
  cases hx : (kernelStack slot).forM (mapNewPage .kernelReadWrite) s.memory with
  | error e m' =>
    rw [hx] at hends
    obtain ⟨⟨places', h', htouch, hsame, hlinked⟩, hkeeps⟩ := hends
    have htouch' : Touches (· ∈ s.inHand) places s.memory places' m' :=
      htouch.mono fun _ hf => hf.elim
    refine ⟨places', h', htouch', rfl, fun f hf => h.hand_kept htouch hf id,
      fun _ => hlinked, fun hrec => ?_⟩
    refine hrec.window h htouch' hsame (fun _ _ _ hbad => nomatch hbad.1) rfl rfl ?_
    intro slot' hmem
    exact ⟨(hrec.kernelStacks slot' hmem).1,
      fun v hv => .inl (hold hrec htouch' hkeeps slot' hmem v hv)⟩
  | ok u m' =>
    rw [hx] at hends
    obtain ⟨⟨⟨places', h', htouch, hsame, hlinked⟩, hkeeps⟩, hmapped⟩ := hends
    have htouch' : Touches (· ∈ s.inHand) places s.memory places' m' :=
      htouch.mono fun _ hf => hf.elim
    refine ⟨places', h', htouch', rfl, fun f hf => h.hand_kept htouch hf id,
      fun _ => hlinked, fun hrec => ?_⟩
    refine hrec.window h htouch' hsame (fun _ _ _ hbad => nomatch hbad.1) rfl rfl ?_
    intro slot' hmem
    rcases List.mem_cons.mp hmem with rfl | hmem
    · refine ⟨hslot, fun v hv => .inl ?_⟩
      obtain ⟨hguard, hend⟩ := mem_kernelStack hslot hv
      show (m'.lookup boot v).isSome
      rw [h.lookup_boot_after htouch' (base_le_of_guard hguard) hend]
      exact hmapped v hv
    · exact ⟨(hrec.kernelStacks slot' hmem).1,
        fun v hv => .inl (hold hrec htouch' hkeeps slot' hmem v hv)⟩

/-- `release_kernel_stack`. -/
theorem Moves.releaseKernelStack (h : Separate boot base places s)
    (hslot : StackInWindow slot) :
    ∃ places', Moves boot user places s places'
      { s with
        memory := s.memory.releaseKernelStack slot
        kernelStacks := s.kernelStacks.filter (· ≠ slot) } := by
  obtain ⟨⟨places', h', htouch, hsame, hlinked⟩, -⟩ :=
    h.reach_window.releasePages h.owned fun v hv => mem_kernelStack hslot hv
  have htouch' : Touches (· ∈ s.inHand) places s.memory places'
      (s.memory.releaseKernelStack slot) := htouch.mono fun _ hf => hf.elim
  refine ⟨places', h', htouch', rfl, fun f hf => h.hand_kept htouch hf id,
    fun _ => hlinked, fun hrec => ?_⟩
  refine hrec.window h htouch' hsame (fun _ _ _ hbad => nomatch hbad.1) rfl rfl ?_
  intro slot' hmem
  obtain ⟨hold, hne⟩ := List.mem_filter.mp hmem
  have hin := (hrec.kernelStacks slot' hold).1
  exact ⟨hin, fun v hv => .inr ⟨hold, not_pageEntries hin hslot hv (by simpa using hne)⟩⟩

/-- `map_device_page` in the device half of the window. -/
theorem Moves.mapDevice (user : Prop) (physicalAddress : Nat)
    (h : Separate boot base places s)
    (hv : InDeviceWindow v) :
    match mapDevicePage v physicalAddress s.memory with
    | .ok _ memory => ∃ places', Moves boot user places s places' { s with memory }
    | .error _ memory => ∃ places', Moves boot user places s places' { s with memory } := by
  have hends := mapDevicePage_alters physicalAddress h.owned
    (h.hasWindow h.active).1 hv.1 hv.2
  have hmoves : ∀ {m' : Memory}, Alters .window [v] places s.memory m' →
      ∃ places', Moves boot user places s places' { s with memory := m' } := by
    rintro m' ⟨places', h', htouch, hsame, hlinked⟩
    have htouch' : Touches (· ∈ s.inHand) places s.memory places' m' :=
      htouch.mono fun _ hf => hf.elim
    refine ⟨places', h', htouch', rfl, fun f hf => h.hand_kept htouch hf id,
      fun _ => hlinked, fun hrec => ?_⟩
    refine hrec.window h htouch' hsame (fun _ _ _ hbad => nomatch hbad.1) rfl rfl ?_
    intro slot hmem
    obtain ⟨hin, -⟩ := hrec.kernelStacks slot hmem
    refine ⟨hin, fun w hw => .inr ⟨hmem, ?_⟩⟩
    rintro ⟨-, v', hv', hindices, hleaf⟩
    rw [List.mem_singleton.mp hv'] at hindices hleaf
    have hstack := mem_kernelStack hin hw
    have hpage := stack_page hstack ⟨hv.1, Nat.lt_trans hv.2 (by decide)⟩ hindices hleaf
    have hguard : kernelStackGuardPage = 4096 * 0xFFFFFF1000000 := by decide
    have hlt := hv.2
    have hge := hstack.1
    simp only [pageSize] at hpage
    omega
  cases hx : mapDevicePage v physicalAddress s.memory with
  | ok u m' =>
    rw [hx] at hends
    exact hmoves hends
  | error e m' =>
    rw [hx] at hends
    exact hmoves hends

end Stacks

/-! ## Creating, switching and destroying -/

/-- The owner of a tree is gone. -/
def Places.without (places : Places) (o : Owner) : Places :=
  fun f => (places f).filter fun x => decide (x.1 ≠ o)

theorem without_eq_some (places : Places) (o o' : Owner) (f : Nat) (path : List Nat) :
    places.without o f = some (o', path) ↔ o' ≠ o ∧ places f = some (o', path) := by
  unfold Places.without
  rw [Option.filter_eq_some_iff, decide_eq_true_iff]
  exact and_comm

theorem without_eq_none (places : Places) (o : Owner) {f : Nat} (hf : places f = none) :
    places.without o f = none := by
  unfold Places.without
  rw [hf]
  rfl

/-- The memory after a space has been created in `frame`. -/
def Memory.withSpace (m : Memory) (frames : FrameAllocator) (frame : Nat) : Memory :=
  { m with
    frames
    words := put m.words frame fun i =>
      if 256 ≤ i ∧ i < 512 then m.words (target m.cr3) i else 0 }

theorem createUserAddressSpace_of_some {m : Memory} {frames : FrameAllocator} {frame : Nat}
    (halloc : m.frames.allocate = (some frame, frames)) (hne : target m.cr3 ≠ frame) :
    createUserAddressSpace m = .ok frame (m.withSpace frames frame) := by
  unfold createUserAddressSpace Memory.withSpace
  show EStateM.bind allocatePhysicalFrame _ m = _
  unfold EStateM.bind allocatePhysicalFrame
  rw [halloc]
  show EStateM.Result.ok frame (Memory.copyKernelHalf
    (Memory.zeroPhysicalFrame { m with frames } frame) (target m.cr3) frame) = _
  unfold Memory.copyKernelHalf Memory.zeroPhysicalFrame
  simp only [put_put, put_same, put_other hne]

theorem createUserAddressSpace_of_none {m : Memory} {frames : FrameAllocator}
    (halloc : m.frames.allocate = (none, frames)) :
    createUserAddressSpace m = .error .frameAllocationFailed m := by
  unfold createUserAddressSpace
  show EStateM.bind allocatePhysicalFrame _ m = _
  unfold EStateM.bind allocatePhysicalFrame
  rw [halloc, FrameAllocator.allocate_none halloc]

section Spaces

variable {boot : Nat} {base : Memory} {places : Places} {s s' : SpaceState}
  {frame r : Nat}

/-- The active root table is not free. -/
theorem Separate.active_ne (h : Separate boot base places s)
    (hfree : s.memory.frames.IsFree frame) : target s.memory.cr3 ≠ frame := by
  intro heq
  rcases h.active with hboot | hmem
  · exact (h.fixed boot (.inl rfl)).2.1 (by rw [← hboot, heq]; exact hfree)
  · exact h.owned.notFree _ _ (h.place hmem) (by rw [heq]; exact hfree)

/-- A new space is a new tree. -/
theorem Separate.create {frames : FrameAllocator} (h : Separate boot base places s)
    (halloc : s.memory.frames.allocate = (some frame, frames)) :
    Separate boot base (Function.update places frame (some (.space frame, [])))
        { s with
          memory := s.memory.withSpace frames frame
          live := frame :: s.live
          maps := put s.maps frame fun _ => none } ∧
      (UserLinked places s.memory →
        UserLinked (Function.update places frame (some (.space frame, [])))
          (s.memory.withSpace frames frame)) ∧
      (Recorded boot s → Recorded boot
        { s with
          memory := s.memory.withSpace frames frame
          live := frame :: s.live
          maps := put s.maps frame fun _ => none }) := by
  obtain ⟨h₁, htouch, hfree, hfresh, hall, hnot⟩ := h.owned.allocate halloc
  have hwords : ∀ f, f ≠ frame →
      (s.memory.withSpace frames frame).words f = s.memory.words f :=
    fun f hf => put_other hf
  have hblank : ∀ i, pageTree.inside (.space frame) [] i →
      (s.memory.withSpace frames frame).words frame i = 0 := by
    intro i hi
    have hlt := hi.2 rfl
    show put s.memory.words frame _ frame i = 0
    rw [put_same, if_neg (by omega)]
  have hplaced : ∀ {f x}, places f = some x → f ≠ frame := by
    rintro f x hf rfl
    rw [hfresh] at hf
    cases hf
  have hcases : ∀ {f x}, Function.update places frame (some (.space frame, [])) f = some x →
      f = frame ∧ x = (.space frame, []) ∨ f ≠ frame ∧ places f = some x := by
    intro f x hf
    by_cases hff : f = frame
    · rw [hff, Function.update_self] at hf
      exact .inl ⟨hff, (Option.some.inj hf).symm⟩
    · rw [Function.update_of_ne hff] at hf
      exact .inr ⟨hff, hf⟩
  have hkept : ∀ {f x}, places f = some x →
      Function.update places frame (some (.space frame, [])) f = some x := by
    intro f x hf
    rw [Function.update_of_ne (hplaced hf), hf]
  have hnone : ∀ {f}, places f = none → f ≠ frame →
      Function.update places frame (some (.space frame, [])) f = none := by
    intro f hf hff
    rw [Function.update_of_ne hff, hf]
  have hbootFrame : ∀ f, BootFrame base boot f → f ≠ frame := by
    rintro f hf rfl
    exact (h.fixed f hf).2.1 hfree
  have hother : ∀ f, places f = none → ¬ s.memory.frames.IsFree f → f ≠ frame →
      ¬ frames.IsFree f ∧ (frames.IsAllocated f ↔ s.memory.frames.IsAllocated f) :=
    fun f hf hnf _ => ⟨(htouch.frames f hf hnf id).2.2.1, (htouch.frames f hf hnf id).2.2.2⟩
  have hnew : ∀ f, places f ≠ some (.space frame, []) := by
    intro f hf
    have hroot := h.roots f frame hf
    exact hplaced hf hroot
  refine ⟨⟨⟨?_, ?_, ?_, ?_⟩, ?_, ?_, ?_, ?_, ?_, ?_, ?_, h.bootTarget⟩, ?_, ?_⟩
  · refine h₁.forest.plant hwords (fun i hi => ?_) hfresh hnew
    rw [hblank i hi]
    exact ref_eq_none not_present_zero
  · intro f x hf
    rcases hcases hf with ⟨rfl, -⟩ | ⟨-, hold⟩
    · exact hnot
    · exact h₁.notFree f x hold
  · intro f r path hf
    rcases hcases hf with ⟨rfl, -⟩ | ⟨-, hold⟩
    · exact hall
    · exact h₁.allocated f r path hold
  · intro f x hf
    rcases hcases hf with ⟨rfl, -⟩ | ⟨-, hold⟩
    · exact hfree.target_eq
    · exact h₁.aligned f x hold
  · intro r
    rw [List.mem_cons, h.live]
    constructor
    · rintro (rfl | hr)
      · exact Function.update_self _ _ _
      · exact hkept hr
    · intro hr
      rcases hcases hr with ⟨hrf, -⟩ | ⟨-, hold⟩
      · exact .inl hrf
      · exact .inr hold
  · intro f r hf
    rcases hcases hf with ⟨hff, heq⟩ | ⟨-, hold⟩
    · rw [hff, Owner.space.inj (Prod.mk.inj heq).1]
    · exact h.roots f r hold
  · unfold HasWindow
    rw [hwords boot (hbootFrame boot (.inl rfl))]
    exact ⟨h.window.1, h.window.2.1, hkept h.window.2.2⟩
  · intro r hr i hi hi'
    rw [hwords boot (hbootFrame boot (.inl rfl))]
    by_cases hrf : r = frame
    · rw [hrf]
      show put s.memory.words frame _ frame i = _
      rw [put_same, if_pos ⟨hi, hi'⟩]
      rcases h.active with hactive | hactive
      · rw [hactive]
      · exact h.upper _ hactive i hi hi'
    · rw [hwords r hrf]
      exact h.upper r ((List.mem_cons.mp hr).resolve_left hrf) i hi hi'
  · intro f hf
    obtain ⟨hn, hnf, hw, hhand⟩ := h.fixed f hf
    have hff := hbootFrame f hf
    exact ⟨hnone hn hff, (hother f hn hnf hff).1, (hwords f hff).trans hw, hhand⟩
  · intro f hf
    obtain ⟨hn, ha, hnf⟩ := h.hand f hf
    have hff : f ≠ frame := by
      rintro rfl
      exact hnf hfree
    exact ⟨hnone hn hff, (hother f hn hnf hff).2.mpr ha, (hother f hn hnf hff).1⟩
  · rcases h.active with hactive | hactive
    · exact .inl hactive
    · exact .inr (List.mem_cons_of_mem frame hactive)
  · intro hlinked f r path i hf hlen hin hp
    rcases hcases hf with ⟨rfl, heq⟩ | ⟨hff, hold⟩
    · obtain ⟨howner, rfl⟩ := Prod.mk.inj heq
      obtain rfl := Owner.space.inj howner
      rw [hblank i hin] at hp
      exact absurd hp not_present_zero
    · rw [hwords f hff] at hp ⊢
      exact hlinked f r path i hold hlen hin hp
  · intro hrec
    have hsame : SameEntries places s.memory (s.memory.withSpace frames frame)
        fun _ _ _ => False :=
      sameEntries_of_words h.owned fun f o path hf _ => hwords f (hplaced hf)
    refine ⟨?_, ?_, ?_⟩
    · intro r hr v hv
      by_cases hrf : r = frame
      · subst hrf
        show _ = (put s.maps r _ r _).map _
        rw [put_same, lookup_eq, hfree.target_eq]
        refine entry_of_walk_none ?_
        show (pageTree.follow _).bind _ = none
        have hin := (within_space r hv).1
        unfold Radix.follow
        rw [hblank _ hin, ref_eq_none not_present_zero, ite_self]
        rfl
      · have hr := (List.mem_cons.mp hr).resolve_left hrf
        show _ = (put s.maps frame _ r _).map _
        rw [put_other hrf, ← hrec.maps r hr v hv]
        exact h.lookup_kept hsame hr hv id
    · intro r hr n frame' flags hn
      by_cases hrf : r = frame
      · subst hrf
        change put s.maps r _ r n = _ at hn
        rw [put_same] at hn
        cases hn
      · change put s.maps frame _ r n = _ at hn
        rw [put_other hrf] at hn
        exact hrec.pages r ((List.mem_cons.mp hr).resolve_left hrf) n frame' flags hn
    · intro slot hslot
      obtain ⟨hin, hpages⟩ := hrec.kernelStacks slot hslot
      refine ⟨hin, fun v hv => ?_⟩
      obtain ⟨hguard, hend⟩ := mem_kernelStack hin hv
      have hsome := hpages v hv
      have hboot := hwords boot (hbootFrame boot (.inl rfl))
      have hw : HasWindow places (s.memory.withSpace frames frame) (target boot) := by
        unfold HasWindow
        rw [h.bootTarget, hboot]
        exact h.window
      rw [h.lookup_boot (base_le_of_guard hguard) hend] at hsome
      rw [OpenKernel.lookup_window hw (base_le_of_guard hguard) hend, h.bootTarget, hboot,
        hsame .window _ _ _ h.window.2.2 rfl (within_window v) id]
      exact hsome

theorem Separate.switch (h : Separate boot base places s) (hr : r = boot ∨ r ∈ s.live) :
    Separate boot base places { s with memory := s.memory.switchAddressSpace r } where
  owned := ⟨h.owned.forest, h.owned.notFree, h.owned.allocated, h.owned.aligned⟩
  live := h.live
  roots := h.roots
  window := h.window
  upper := h.upper
  fixed := h.fixed
  hand := h.hand
  active := by
    rcases hr with rfl | hr
    · exact .inl h.bootTarget
    · refine .inr ?_
      show target r ∈ s.live
      rw [h.target_root hr]
      exact hr
  bootTarget := h.bootTarget

end Spaces

section Destroy

variable {boot : Nat} {base : Memory} {places : Places} {s s' : SpaceState} {r : Nat}

theorem below_space_iff (r f : Nat) :
    Below places (.space r) [] f ↔ ∃ path, places f = some (.space r, path) := by
  unfold Below
  simp only [List.append_nil]

/-- A space that is destroyed takes its tree along, and nothing else. -/
theorem Separate.destroy (h : Separate boot base places s) (hr : r ∈ s.live)
    (hactive : r ≠ s.memory.activeAddressSpace) :
    Separate boot base (places.without (.space r))
        { s with
          memory := destroyUserAddressSpace r s.memory
          live := s.live.filter (· ≠ r) } ∧
      (UserLinked places s.memory →
        UserLinked (places.without (.space r)) (destroyUserAddressSpace r s.memory)) ∧
      (Recorded boot s → Recorded boot
        { s with
          memory := destroyUserAddressSpace r s.memory
          live := s.live.filter (· ≠ r) }) ∧
      SameEntries (places.without (.space r)) s.memory
        (destroyUserAddressSpace r s.memory) fun _ _ _ => False := by
  have hrel := destroyUserAddressSpace_released h.owned (h.place hr)
  have hstays : ∀ {f o path}, places.without (.space r) f = some (o, path) →
      places f = some (o, path) ∧ ¬ Below places (.space r) [] f := by
    intro f o path hf
    obtain ⟨hne, hf⟩ := (without_eq_some places _ o f path).mp hf
    refine ⟨hf, ?_⟩
    rw [below_space_iff]
    rintro ⟨path', hf'⟩
    rw [hf] at hf'
    exact hne (Prod.mk.inj (Option.some.inj hf')).1
  have hout : ∀ {f}, places f = none → ¬ Below places (.space r) [] f := by
    intro f hf
    rw [below_space_iff]
    rintro ⟨path, hf'⟩
    rw [hf] at hf'
    cases hf'
  have hwords : ∀ {f o path}, places.without (.space r) f = some (o, path) →
      (destroyUserAddressSpace r s.memory).words f = s.memory.words f :=
    fun hf => hrel.words _ (hstays hf).2
  have hboot : (destroyUserAddressSpace r s.memory).words boot = s.memory.words boot :=
    hrel.words boot (hout (h.fixed boot (.inl rfl)).1)
  have howned : Owned (places.without (.space r)) (destroyUserAddressSpace r s.memory) := by
    refine ⟨?_, ?_, ?_, ?_⟩
    · refine h.owned.forest.fell (fun f o path => without_eq_some places _ o f path) ?_
      intro f o path i hf hne _
      rw [hwords ((without_eq_some places _ o f path).mpr ⟨hne, hf⟩)]
    · intro f x hf
      obtain ⟨hf, hnot⟩ := hstays hf
      exact mt (hrel.frames f hnot).1.mp (h.owned.notFree f _ hf)
    · intro f r' path hf
      obtain ⟨hf, hnot⟩ := hstays hf
      exact (hrel.frames f hnot).2.mpr (h.owned.allocated f r' path hf)
    · intro f x hf
      exact h.owned.aligned f _ (hstays hf).1
  have hlive : ∀ r', r' ∈ s.live.filter (· ≠ r) ↔ r' ∈ s.live ∧ r' ≠ r := by
    intro r'
    rw [List.mem_filter, decide_eq_true_iff]
  have hplace : ∀ r', r' ∈ s.live.filter (· ≠ r) →
      places.without (.space r) r' = some (.space r', []) := by
    intro r' hr'
    obtain ⟨hmem, hne⟩ := (hlive r').mp hr'
    exact (without_eq_some places _ _ r' []).mpr
      ⟨fun heq => hne (Owner.space.inj heq), h.place hmem⟩
  have hsame : SameEntries (places.without (.space r)) s.memory
      (destroyUserAddressSpace r s.memory) fun _ _ _ => False := by
    intro o f is last hf hlen hin _
    refine (sameEntries_of_words howned ?_ o f is last hf hlen hin id).symm
    exact fun f o path hf _ => (hwords hf).symm
  refine ⟨⟨howned, ?_, ?_, ?_, ?_, ?_, ?_, ?_, h.bootTarget⟩, ?_, ?_, hsame⟩
  · intro r'
    rw [hlive]
    constructor
    · exact fun hr' => hplace r' ((hlive r').mpr hr')
    · intro hr'
      obtain ⟨hne, hr'⟩ := (without_eq_some places _ _ r' []).mp hr'
      exact ⟨(h.live r').mpr hr', fun heq => hne (by rw [heq])⟩
  · exact fun f r' hf => h.roots f r' (hstays hf).1
  · unfold HasWindow
    rw [hboot]
    exact ⟨h.window.1, h.window.2.1,
      (without_eq_some places _ _ _ []).mpr ⟨(fun heq => nomatch heq), h.window.2.2⟩⟩
  · intro r' hr' i hi hi'
    rw [hboot, hwords (hplace r' hr')]
    exact h.upper r' ((hlive r').mp hr').1 i hi hi'
  · intro f hf
    obtain ⟨hnone, hfree, hw, hhand⟩ := h.fixed f hf
    exact ⟨without_eq_none places _ hnone, mt (hrel.frames f (hout hnone)).1.mp hfree,
      (hrel.words f (hout hnone)).trans hw, hhand⟩
  · intro f hf
    obtain ⟨hnone, hall, hfree⟩ := h.hand f hf
    exact ⟨without_eq_none places _ hnone, (hrel.frames f (hout hnone)).2.mpr hall,
      mt (hrel.frames f (hout hnone)).1.mp hfree⟩
  · rw [hrel.cr3]
    rcases h.active with hboot | hmem
    · exact .inl hboot
    · exact .inr ((hlive _).mpr ⟨hmem, fun heq => hactive heq.symm⟩)
  · intro hlinked f r' path i hf hlen hin hp
    rw [hwords hf] at hp ⊢
    exact hlinked f r' path i (hstays hf).1 hlen hin hp
  · intro hrec
    refine ⟨?_, ?_, ?_⟩
    · intro r' hr' v hv
      rw [← hrec.maps r' ((hlive r').mp hr').1 v hv, lookup_eq, lookup_eq,
        h.target_root ((hlive r').mp hr').1]
      exact hsame (.space r') r' _ _ (hplace r' hr') rfl (within_space r' hv) id
    · exact fun r' hr' => hrec.pages r' ((hlive r').mp hr').1
    · intro slot hslot
      obtain ⟨hin, hpages⟩ := hrec.kernelStacks slot hslot
      refine ⟨hin, fun v hv => ?_⟩
      obtain ⟨hguard, hend⟩ := mem_kernelStack hin hv
      have hsome := hpages v hv
      have hroot : places.without (.space r) (target (s.memory.words boot windowEntry)) =
          some (.window, []) :=
        (without_eq_some places _ _ _ []).mpr ⟨(fun heq => nomatch heq), h.window.2.2⟩
      have hw : HasWindow (places.without (.space r)) (destroyUserAddressSpace r s.memory)
          (target boot) := by
        unfold HasWindow
        rw [h.bootTarget, hboot]
        exact ⟨h.window.1, h.window.2.1, hroot⟩
      rw [h.lookup_boot (base_le_of_guard hguard) hend] at hsome
      rw [OpenKernel.lookup_window hw (base_le_of_guard hguard) hend, h.bootTarget, hboot,
        hsame .window _ _ _ hroot rfl (within_window v) id]
      exact hsome

end Destroy

/-! ## Every step -/

/-- The step maps user pages with the user bit only. -/
def SpaceAction.UserFlags : SpaceAction → Prop
  | .mapIn _ _ _ flags => flags.bits &&& userBit ≠ 0
  | .map _ _ flags => flags.bits &&& userBit ≠ 0
  | _ => True

section Step

variable {boot : Nat} {base : Memory} {places : Places} {s s' : SpaceState}
  {a : SpaceAction}

/-- The invariants that a state of address spaces has. -/
def Kept (boot : Nat) (base : Memory) (a : SpaceAction) (places : Places)
    (s s' : SpaceState) : Prop :=
  ∃ places', Separate boot base places' s' ∧ Recorded boot s' ∧
    (a.UserFlags → UserLinked places s.memory → UserLinked places' s'.memory)

theorem Moves.kept {places' : Places} (hm : Moves boot a.UserFlags places s places' s')
    (h : Separate boot base places s) (hrec : Recorded boot s) :
    Kept boot base a places s s' :=
  ⟨places', h.moves hm, hm.recorded hrec, hm.linked⟩

theorem Separate.step (h : Separate boot base places s) (hrec : Recorded boot s)
    (hs : s.step boot a = some s') : Kept boot base a places s s' := by
  cases a with
  | create =>
    unfold SpaceState.step at hs
    dsimp only at hs
    cases hx : s.memory.frames.allocate with
    | mk result frames =>
      cases result with
      | none =>
        rw [createUserAddressSpace_of_none hx] at hs
        obtain rfl := Option.some.inj hs
        exact ⟨places, h, hrec, fun _ hl => hl⟩
      | some frame =>
        rw [createUserAddressSpace_of_some hx
          (h.active_ne (FrameAllocator.allocate_some hx).1)] at hs
        obtain rfl := Option.some.inj hs
        obtain ⟨hsep, hlinked, hrec'⟩ := h.create hx
        exact ⟨_, hsep, hrec' hrec, fun _ => hlinked⟩
  | switch space =>
    unfold SpaceState.step at hs
    dsimp only at hs
    split at hs
    · rename_i hspace
      obtain rfl := Option.some.inj hs
      exact ⟨places, h.switch hspace, hrec.words rfl rfl rfl rfl, fun _ hl => hl⟩
    · cases hs
  | allocate =>
    unfold SpaceState.step allocatePhysicalFrame at hs
    dsimp only at hs
    cases hx : s.memory.frames.allocate with
    | mk result frames =>
      rw [hx] at hs
      cases result with
      | none =>
        obtain rfl := Option.some.inj hs
        rw [FrameAllocator.allocate_none hx]
        exact ⟨places, h, hrec, fun _ hl => hl⟩
      | some frame =>
        obtain rfl := Option.some.inj hs
        exact (Moves.allocate h hx).kept h hrec
  | free frame =>
    unfold SpaceState.step at hs
    dsimp only at hs
    split at hs
    · rename_i hframe
      obtain rfl := Option.some.inj hs
      exact (Moves.free h hframe).kept h hrec
    · cases hs
  | fill frame index value =>
    unfold SpaceState.step at hs
    dsimp only at hs
    split at hs
    · rename_i hframe
      obtain rfl := Option.some.inj hs
      exact (Moves.fill h index value hframe).kept h hrec
    · cases hs
  | mapIn space v frame flags =>
    unfold SpaceState.step at hs
    dsimp only at hs
    split at hs
    · rename_i hguard
      unfold mapUserPageIn at hs
      by_cases hv : InUserSpace v
      · rw [if_pos hv] at hs
        have hends := Moves.mapPageIn (SpaceAction.UserFlags (.mapIn space v frame flags))
          h hguard.1 hguard.2 hv.2 id
        cases hx : mapPageIn space v frame flags s.memory with
        | ok u m' =>
          rw [hx] at hs hends
          obtain rfl := Option.some.inj hs
          obtain ⟨places', hm⟩ := hends
          exact hm.kept h hrec
        | error e m' =>
          rw [hx] at hs hends
          obtain rfl := Option.some.inj hs
          obtain ⟨places', hm⟩ := hends
          exact hm.kept h hrec
      · rw [if_neg hv] at hs
        obtain rfl := Option.some.inj hs
        exact ⟨places, h, hrec, fun _ hl => hl⟩
    · cases hs
  | map v frame flags =>
    unfold SpaceState.step at hs
    dsimp only at hs
    split at hs
    · rename_i hguard
      have hactive : mapPage v frame flags s.memory =
          mapPageIn s.memory.activeAddressSpace v frame flags s.memory := by
        show mapPageIn s.memory.cr3 v frame flags s.memory = _
        rw [mapPageIn_eq, mapPageIn_eq]
        unfold Memory.activeAddressSpace
        rw [target_target]
      rw [hactive] at hs
      have hends := Moves.mapPageIn (SpaceAction.UserFlags (.map v frame flags))
        h hguard.1 hguard.2.1 hguard.2.2 id
      cases hx : mapPageIn s.memory.activeAddressSpace v frame flags s.memory with
      | ok u m' =>
        rw [hx] at hs hends
        obtain rfl := Option.some.inj hs
        obtain ⟨places', hm⟩ := hends
        exact hm.kept h hrec
      | error e m' =>
        rw [hx] at hs hends
        obtain rfl := Option.some.inj hs
        obtain ⟨places', hm⟩ := hends
        exact hm.kept h hrec
    · cases hs
  | unmap v =>
    unfold SpaceState.step at hs
    dsimp only at hs
    split at hs
    · rename_i hguard
      have hends := Moves.unmapPage (SpaceAction.UserFlags (.unmap v)) h hguard.1 hguard.2
      cases hx : s.memory.unmapPage v with
      | mk result m' =>
        rw [hx] at hs hends
        cases result with
        | none =>
          obtain rfl := Option.some.inj hs
          rw [show m' = s.memory from hends]
          exact ⟨places, h, hrec, fun _ hl => hl⟩
        | some frame =>
          obtain rfl := Option.some.inj hs
          obtain ⟨places', hm⟩ := hends
          exact hm.kept h hrec
    · cases hs
  | releaseUserStack slot =>
    unfold SpaceState.step at hs
    dsimp only at hs
    split at hs
    · rename_i hguard
      obtain rfl := Option.some.inj hs
      obtain ⟨places', hm⟩ := Moves.releaseUserStack slot h hguard
      exact hm.kept h hrec
    · cases hs
  | store space v index value =>
    unfold SpaceState.step at hs
    dsimp only at hs
    split at hs
    · rename_i frame flags hn
      split at hs
      · rename_i hspace
        obtain rfl := Option.some.inj hs
        exact (Moves.store h hrec index value hspace hn).kept h hrec
      · cases hs
    · cases hs
  | allocateKernelStack slot =>
    unfold SpaceState.step at hs
    dsimp only at hs
    split at hs
    · rename_i hslot
      have hends := Moves.allocateKernelStack
        (SpaceAction.UserFlags (.allocateKernelStack slot)) h hslot
      cases hx : OpenKernel.allocateKernelStack slot s.memory with
      | ok u m' =>
        rw [hx] at hs hends
        obtain rfl := Option.some.inj hs
        obtain ⟨places', hm⟩ := hends
        exact hm.kept h hrec
      | error e m' =>
        rw [hx] at hs hends
        obtain rfl := Option.some.inj hs
        obtain ⟨places', hm⟩ := hends
        exact hm.kept h hrec
    · cases hs
  | releaseKernelStack slot =>
    unfold SpaceState.step at hs
    dsimp only at hs
    split at hs
    · rename_i hslot
      obtain rfl := Option.some.inj hs
      obtain ⟨places', hm⟩ := Moves.releaseKernelStack h hslot
      exact hm.kept h hrec
    · cases hs
  | mapDevice v physicalAddress =>
    unfold SpaceState.step at hs
    dsimp only at hs
    split at hs
    · rename_i hv
      have hends := Moves.mapDevice
        (SpaceAction.UserFlags (.mapDevice v physicalAddress)) physicalAddress h hv
      cases hx : mapDevicePage v physicalAddress s.memory with
      | ok u m' =>
        rw [hx] at hs hends
        obtain rfl := Option.some.inj hs
        obtain ⟨places', hm⟩ := hends
        exact hm.kept h hrec
      | error e m' =>
        rw [hx] at hs hends
        obtain rfl := Option.some.inj hs
        obtain ⟨places', hm⟩ := hends
        exact hm.kept h hrec
    · cases hs
  | destroy space =>
    unfold SpaceState.step at hs
    dsimp only at hs
    split at hs
    · rename_i hguard
      obtain rfl := Option.some.inj hs
      obtain ⟨hsep, hlinked, hrec', -⟩ := h.destroy hguard.1 hguard.2
      exact ⟨_, hsep, hrec' hrec, fun _ => hlinked⟩
    · cases hs

end Step

end OpenKernel
