import OpenKernel.Memory.Exclusive

/-!
# Page tables as a partial map

Seen from the calls of `paging.rs` an address space is a partial map from
pages to frames and flags.  `map_user_page_in` adds one page and `unmap_page`
takes one away, whatever the intermediate tables are and how many of them had
to be made, and the two queries read the map off the permission bits.
-/

namespace OpenKernel

open Lib

/-- The address can be used: its upper bits are copies of bit 47. -/
def Canonical (virtualAddress : Nat) : Prop :=
  virtualAddress < userSpaceEnd ∨
    2 ^ 64 - userSpaceEnd ≤ virtualAddress ∧ virtualAddress < 2 ^ 64

/-- The walks of the pages of these spaces are as before, but for those that
are excepted. -/
def SameWalks (spaces : List Nat) (m m' : Memory) (except : Nat → Nat → Prop) : Prop :=
  ∀ r ∈ spaces, ∀ v, Canonical v → ¬ except r (v / pageSize) →
    m'.lookup r v = m.lookup r v

/-! ## The kernel half -/

section Upper

variable {boot : Nat} {base : Memory} {places places' : Places} {s : SpaceState}
  {m' : Memory} {except : Owner → List Nat → Nat → Prop} {r v : Nat}

theorem Separate.kernelTable_words (h : Separate boot base places s)
    (ht : Touches (· ∈ s.inHand) places s.memory places' m') {f : Nat}
    (hf : KernelTable s.memory boot f) : m'.words f = s.memory.words f := by
  obtain ⟨hnone, hfree, -, hhand⟩ := h.fixed f (.inr (h.kernelTable_base hf))
  exact (ht.frames f hnone hfree hhand).2.1

/-- Behind an entry of the kernel half that is not the window's no walk
changes. -/
theorem Separate.walk_kept (h : Separate boot base places s)
    (ht : Touches (· ∈ s.inHand) places s.memory places' m') {index : Nat}
    (hlo : 256 ≤ index) (hhi : index < 512) (hne : index ≠ windowEntry)
    (rest front : List Nat) (hlen : front.length + rest.length ≤ 2) {t : Nat}
    (hfront : s.memory.walk (index :: front) boot = some t) :
    m'.walk rest t = s.memory.walk rest t := by
  induction rest generalizing front t with
  | nil => rfl
  | cons i rest ih =>
    rw [List.length_cons] at hlen
    have hwords := h.kernelTable_words ht (f := t)
      ⟨index, front, hlo, hhi, hne, by omega, hfront⟩
    rw [walk_eq, walk_eq, Radix.walk, Radix.walk, hwords]
    cases hnext : pageTree.follow (s.memory.words t i) with
    | none => rfl
    | some u =>
      have hfront' : s.memory.walk (index :: (front ++ [i])) boot = some u := by
        rw [walk_eq] at hfront ⊢
        rw [← List.cons_append, Radix.walk_append, hfront]
        show (pageTree.follow (s.memory.words t i)).bind _ = _
        rw [hnext]
        rfl
      have hkept := ih (front ++ [i]) (by
        rw [List.length_append, List.length_singleton]
        omega) hfront'
      rw [walk_eq, walk_eq] at hkept
      exact hkept

/-- The pages of a live space whose entries stay. -/
theorem Separate.lookup_others (h : Separate boot base places s)
    (ht : Touches (· ∈ s.inHand) places s.memory places' m')
    (hs : SameEntries places s.memory m' except) (hr : r ∈ s.live) (hv : Canonical v)
    (hwindow : ∀ is last, ¬ except .window is last)
    (hnot : v < userSpaceEnd → ¬ except (.space r) (upperIndices v) (leafIndex v)) :
    m'.lookup r v = s.memory.lookup r v := by
  have htarget := h.target_root hr
  rcases hv with hlow | ⟨hhigh, hend⟩
  · exact h.lookup_kept hs hr hlow (hnot hlow)
  have hlo : 256 ≤ (v >>> 39) &&& 0x1FF := by
    have husers : userSpaceEnd = 2 ^ 47 := by decide
    rw [index_eq]
    omega
  have hroot : m'.words r ((v >>> 39) &&& 0x1FF) = s.memory.words r ((v >>> 39) &&& 0x1FF) :=
    ht.outside r _ _ (h.place hr) (not_inside_upper hlo)
  by_cases hindex : (v >>> 39) &&& 0x1FF = windowEntry
  · -- The window is a tree of the forest.
    have hrange : deviceWindowBase ≤ v ∧ v < windowEnd := by
      have hbase : deviceWindowBase = 2 ^ 39 * 0x1FFFFFE := by decide
      have hend' : windowEnd = 2 ^ 39 * 0x1FFFFFF := by decide
      have hentry : windowEntry = 510 := by decide
      have husers : userSpaceEnd = 2 ^ 47 := by decide
      rw [index_eq, hentry] at hindex
      omega
    rw [hindex] at hroot
    obtain ⟨hw, -⟩ := h.hasWindow (.inr hr)
    have hw' : HasWindow places' m' (target r) := by
      unfold HasWindow
      rw [htarget, hroot]
      exact ⟨hw.1, hw.2.1, (ht.roots _ _).mpr hw.2.2⟩
    rw [OpenKernel.lookup_window hw' hrange.1 hrange.2,
      OpenKernel.lookup_window (by rw [htarget]; exact hw) hrange.1 hrange.2, htarget, hroot]
    exact hs .window _ _ _ hw.2.2 rfl (within_window v) (hwindow _ _)
  · -- The other tables of the kernel half are fixed.
    have hupper := h.upper r hr _ hlo (index_lt v 39)
    unfold Memory.lookup
    rw [htarget, walk_eq, walk_eq, upperIndices, Radix.walk, Radix.walk, hroot]
    cases hnext : pageTree.follow (s.memory.words r ((v >>> 39) &&& 0x1FF)) with
    | none => rfl
    | some t =>
      have hfront : s.memory.walk [(v >>> 39) &&& 0x1FF] boot = some t := by
        rw [walk_eq, Radix.walk, ← hupper, hnext]
        rfl
      have hkept := h.walk_kept ht hlo (index_lt v 39) hindex
        [(v >>> 30) &&& 0x1FF, (v >>> 21) &&& 0x1FF] [] le_rfl hfront
      rw [walk_eq, walk_eq] at hkept
      rw [Option.bind_some, Option.bind_some, hkept]
      cases hwalk : pageTree.walk s.memory.words
          [(v >>> 30) &&& 0x1FF, (v >>> 21) &&& 0x1FF] t with
      | none => rfl
      | some table =>
        have htable : KernelTable s.memory boot table := by
          refine ⟨_, [(v >>> 30) &&& 0x1FF, (v >>> 21) &&& 0x1FF], hlo, index_lt v 39,
            hindex, le_rfl, ?_⟩
          rw [walk_eq, Radix.walk, ← hupper, hnext]
          exact hwalk
        rw [Option.bind_some, Option.bind_some, h.kernelTable_words ht htable]

end Upper

/-! ## The calls -/

section Calls

variable {boot : Nat} {base : Memory} {places places' : Places} {s : SpaceState}
  {m' : Memory} {r v frame : Nat} {flags : PageFlags}

/-- A change of one page of a space. -/
theorem Separate.sameWalks_one (h : Separate boot base places s)
    (ht : Touches (fun _ => False) places s.memory places' m') (hv : v < userSpaceEnd)
    (hs : SameEntries places s.memory m' fun o is last =>
      o = .space r ∧ is = upperIndices v ∧ last = leafIndex v) :
    SameWalks s.live s.memory m' fun r' n => r' = r ∧ n = v / pageSize := by
  intro r' hr' w hw hnot
  refine h.lookup_others (ht.mono fun _ hf => hf.elim) hs hr' hw
    (fun _ _ hbad => nomatch hbad.1) fun hlow hbad => hnot ?_
  obtain ⟨howner, hindices, hleaf⟩ := hbad
  exact ⟨Owner.space.inj howner, (same_page hlow hv).mp ⟨hindices, hleaf⟩⟩

/-- `map_user_page_in` adds the page, or it changes no walk. -/
theorem Separate.mapUserPageIn (h : Separate boot base places s) (hr : r ∈ s.live)
    (hv : InUserSpace v) (hframe : s.memory.frames.IsAllocated frame) (flags : PageFlags) :
    match OpenKernel.mapUserPageIn r v frame flags s.memory with
    | .ok _ m' => s.memory.lookup r v = none ∧
        m'.lookup r v = some (frame ||| flags.bits) ∧
        SameWalks s.live s.memory m' fun r' n => r' = r ∧ n = v / pageSize
    | .error e m' => (e = .alreadyMapped ↔ (s.memory.lookup r v).isSome) ∧
        SameWalks s.live s.memory m' fun _ _ => False := by
  have hends := h.owned.setEntry (h.place hr) flags (leafIndex v) rfl
    (within_space r hv.2) hframe.target_eq
  unfold OpenKernel.mapUserPageIn
  rw [if_pos hv, mapPageIn_eq, h.target_root hr]
  cases hx : mapFrom flags (upperIndices v) (leafIndex v) frame r s.memory with
  | ok u m' =>
    rw [hx] at hends
    obtain ⟨hnone, hsome, hsame, places', ht⟩ := hends
    refine ⟨?_, ?_, h.sameWalks_one ht hv.2 hsame⟩
    · rw [h.lookup_space hr]
      exact hnone
    · rw [lookup_eq, h.target_root hr]
      exact hsome
  | error e m' =>
    rw [hx] at hends
    obtain ⟨hends, hsame, places', ht⟩ := hends
    refine ⟨?_, fun r' hr' w hw _ => ?_⟩
    · rw [h.lookup_space hr]
      rcases hends with ⟨rfl, hsome⟩ | ⟨rfl, hnone⟩
      · exact iff_of_true rfl hsome
      · rw [hnone]
        exact iff_of_false (fun hbad => nomatch hbad) Bool.false_ne_true
    · exact h.lookup_others (ht.mono fun _ hf => hf.elim) hsame hr' hw
        (fun _ _ => id) fun _ => id

/-- `unmap_page` takes the page away that it returns the frame of. -/
theorem Separate.unmapPage (h : Separate boot base places s)
    (hr : s.memory.activeAddressSpace ∈ s.live) (hv : v < userSpaceEnd) :
    (s.memory.unmapPage v).1 =
        (s.memory.lookup s.memory.activeAddressSpace v).map target ∧
      (s.memory.unmapPage v).2.lookup s.memory.activeAddressSpace v = none ∧
      SameWalks s.live s.memory (s.memory.unmapPage v).2 fun r n =>
        r = s.memory.activeAddressSpace ∧ n = v / pageSize := by
  have hends := h.owned.unmapEntry (h.place hr) (leafIndex v) rfl (within_space _ hv)
    (inside_leaf _ v)
  rw [h.lookup_space hr, lookup_eq, h.target_root hr]
  cases hx : s.memory.unmapPage v with
  | mk result m' =>
    have hfrom : s.memory.unmapFrom (upperIndices v) (leafIndex v)
        s.memory.activeAddressSpace = (result, m') := hx
    rw [hfrom] at hends
    cases result with
    | none =>
      obtain ⟨rfl, hnone⟩ := hends
      rw [hnone]
      exact ⟨rfl, rfl, fun _ _ _ _ _ => rfl⟩
    | some frame =>
      obtain ⟨⟨leaf, hleaf, rfl⟩, hnone, hsame, -, -, -, ht, -⟩ := hends
      rw [hleaf]
      exact ⟨rfl, hnone, h.sameWalks_one ht hv hsame⟩

end Calls

/-! ## The queries -/

section Queries

variable {places : Places} {m : Memory} {r v table : Nat} {path is : List Nat}

/-- A link that user mode can follow is present and leads to a table. -/
theorem of_userLink {entry : Nat}
    (h : entry &&& (presentBit ||| userBit ||| hugePageBit) = presentBit ||| userBit) :
    Present entry ∧ ¬ Huge entry := by
  have hread : ∀ mask, (presentBit ||| userBit ||| hugePageBit) &&& mask = mask →
      entry &&& mask = (presentBit ||| userBit) &&& mask := by
    intro mask hmask
    rw [← h, Nat.and_assoc, hmask]
  unfold Present Huge
  rw [hread presentBit (by decide), hread hugePageBit (by decide)]
  decide

/-- Where all links can be followed from user mode, the walk of the queries is
the walk of the trees. -/
theorem userWalk_eq (h : Owned places m) (hlinked : UserLinked places m)
    (ht : places table = some (.space r, path)) (hlen : path.length + is.length < 4)
    (hin : pageTree.Within (.space r) path is) : m.userWalk is table = m.walk is table := by
  induction is generalizing table path with
  | nil => rfl
  | cons i is ih =>
    rw [List.length_cons] at hlen
    unfold Memory.userWalk Memory.walk
    dsimp only
    by_cases hp : Present (m.words table i)
    · have huser := hlinked table r path i ht (by omega) hin.1 hp
      obtain ⟨-, hh⟩ := of_userLink huser
      have hchild := h.forest.child ht (show path.length < 4 by omega) hin.1 (ref_eq hp)
      rw [if_neg (not_not.mpr huser), if_neg (by rintro (hbad | hbad) <;> contradiction)]
      exact ih hchild (by rw [List.length_cons]; omega) hin.2
    · rw [if_pos fun heq => hp (of_userLink heq).1, if_pos (.inl hp)]

/-- The leaf that the queries inspect is the one that the walk ends at. -/
theorem userLeaf_eq (h : Owned places m) (hlinked : UserLinked places m)
    (hroot : places m.activeAddressSpace = some (.space m.activeAddressSpace, []))
    (hv : InUserSpace v) :
    m.userLeaf v = (m.walk (upperIndices v) m.activeAddressSpace).map fun table =>
      m.words table (leafIndex v) := by
  unfold Memory.userLeaf
  rw [if_neg (not_or.mpr ⟨Nat.not_lt.mpr hv.1, Nat.not_le.mpr hv.2⟩)]
  exact congrArg (Option.map _) (userWalk_eq h hlinked hroot (length_upperIndices v)
    (within_space _ hv.2))

theorem userLeaf_outside (hv : ¬ InUserSpace v) : m.userLeaf v = none := by
  unfold Memory.userLeaf
  refine if_pos ?_
  by_contra hbad
  rw [not_or, Nat.not_lt, Nat.not_le] at hbad
  exact hv hbad

/-- A query on a leaf that only present leaves can pass. -/
theorem userLeaf_iff (h : Owned places m) (hlinked : UserLinked places m)
    (hroot : places m.activeAddressSpace = some (.space m.activeAddressSpace, []))
    {p : Nat → Bool} (hpresent : ∀ leaf, p leaf = true → Present leaf) :
    ((m.userLeaf v).elim false p = true) ↔ InUserSpace v ∧
      ∃ leaf, m.lookup m.activeAddressSpace v = some leaf ∧ p leaf = true := by
  by_cases hv : InUserSpace v
  · have htarget : target m.activeAddressSpace = m.activeAddressSpace := target_target m.cr3
    rw [userLeaf_eq h hlinked hroot hv]
    unfold Memory.lookup
    rw [htarget]
    cases hwalk : m.walk (upperIndices v) m.activeAddressSpace with
    | none => exact iff_of_false Bool.false_ne_true fun hbad => nomatch hbad.2
    | some table =>
      show p (m.words table (leafIndex v)) = true ↔ _
      rw [Option.bind_some]
      constructor
      · intro hp
        exact ⟨hv, _, if_pos (hpresent _ hp), hp⟩
      · rintro ⟨-, leaf, hleaf, hp⟩
        dsimp only at hleaf
        split at hleaf
        · rw [Option.some.inj hleaf]
          exact hp
        · cases hleaf
  · rw [userLeaf_outside hv]
    exact iff_of_false Bool.false_ne_true fun hbad => hv hbad.1

/-- A leaf that user mode can read. -/
def UserLeaf (leaf : Nat) : Prop :=
  leaf &&& (presentBit ||| userBit) = presentBit ||| userBit

theorem UserLeaf.present {leaf : Nat} (h : UserLeaf leaf) : Present leaf := by
  unfold Present
  have hmask : leaf &&& presentBit = (presentBit ||| userBit) &&& presentBit := by
    rw [← h, Nat.and_assoc]
    rfl
  rw [hmask]
  decide

theorem isUserMapped_iff (h : Owned places m) (hlinked : UserLinked places m)
    (hroot : places m.activeAddressSpace = some (.space m.activeAddressSpace, [])) :
    m.isUserMapped v = true ↔ InUserSpace v ∧
      ∃ leaf, m.lookup m.activeAddressSpace v = some leaf ∧ UserLeaf leaf := by
  have hiff := userLeaf_iff h hlinked hroot (v := v)
    (p := fun leaf => leaf &&& (presentBit ||| userBit) == presentBit ||| userBit)
    fun leaf hleaf => UserLeaf.present (eq_of_beq hleaf)
  simp only [beq_iff_eq] at hiff
  unfold Memory.isUserMapped
  cases hleaf : m.userLeaf v <;> rw [hleaf] at hiff <;> exact hiff

theorem isUserExecutable_iff (h : Owned places m) (hlinked : UserLinked places m)
    (hroot : places m.activeAddressSpace = some (.space m.activeAddressSpace, [])) :
    m.isUserExecutable v = true ↔ InUserSpace v ∧
      ∃ leaf, m.lookup m.activeAddressSpace v = some leaf ∧
        UserLeaf leaf ∧ leaf &&& noExecuteBit = 0 := by
  have hiff := userLeaf_iff h hlinked hroot (v := v)
    (p := fun leaf => leaf &&& (presentBit ||| userBit) == presentBit ||| userBit &&
      leaf &&& noExecuteBit == 0)
    fun leaf hleaf => UserLeaf.present (eq_of_beq (Bool.and_eq_true_iff.mp hleaf).1)
  simp only [Bool.and_eq_true, beq_iff_eq] at hiff
  unfold Memory.isUserExecutable
  cases hleaf : m.userLeaf v <;> rw [hleaf] at hiff <;> exact hiff

end Queries

/-! ## The recorded pages -/

section Recorded

variable {boot : Nat} {base : Memory} {places : Places} {s s' : SpaceState}
  {a : SpaceAction} {r v frame : Nat} {flags : PageFlags}

/-- All recorded pages are user pages. -/
def UserRecorded (s : SpaceState) : Prop :=
  ∀ r n page, s.maps r n = some page → page.2.bits &&& userBit ≠ 0

theorem UserRecorded.record (h : UserRecorded s) (space v : Nat)
    {page : Option (Nat × PageFlags)}
    (hpage : ∀ x, page = some x → x.2.bits &&& userBit ≠ 0) :
    ∀ r n x, SpaceState.record s.maps space v page r n = some x →
      x.2.bits &&& userBit ≠ 0 := by
  intro r n x hx
  rw [record_eq] at hx
  split at hx
  · exact hpage x hx
  · exact h r n x hx

theorem UserRecorded.step (h : UserRecorded s) (hflags : a.UserFlags)
    (hs : s.step boot a = some s') : UserRecorded s' := by
  cases a with
  | create =>
    simp only [SpaceState.step] at hs
    split at hs
    · rename_i space memory _
      obtain rfl := Option.some.inj hs
      intro r n x hx
      by_cases hr : r = space
      · rw [hr] at hx
        dsimp only at hx
        rw [put_same] at hx
        cases hx
      · dsimp only at hx
        rw [put_other hr] at hx
        exact h r n x hx
    · obtain rfl := Option.some.inj hs
      exact h
  | mapIn space v frame flags =>
    simp only [SpaceState.step] at hs
    split at hs
    · split at hs
      · obtain rfl := Option.some.inj hs
        refine h.record space v fun x hx => ?_
        obtain rfl := Option.some.inj hx
        exact hflags
      · obtain rfl := Option.some.inj hs
        exact h
    · cases hs
  | map v frame flags =>
    simp only [SpaceState.step] at hs
    split at hs
    · split at hs
      · obtain rfl := Option.some.inj hs
        refine h.record _ v fun x hx => ?_
        obtain rfl := Option.some.inj hx
        exact hflags
      · obtain rfl := Option.some.inj hs
        exact h
    · cases hs
  | unmap v =>
    simp only [SpaceState.step] at hs
    split at hs
    · split at hs
      · obtain rfl := Option.some.inj hs
        exact h.record _ v fun x hx => nomatch hx
      · obtain rfl := Option.some.inj hs
        exact h
    · cases hs
  | releaseUserStack slot =>
    simp only [SpaceState.step] at hs
    split at hs
    · obtain rfl := Option.some.inj hs
      intro r n x hx
      dsimp only at hx
      rw [foldl_record] at hx
      split at hx
      · cases hx
      · exact h r n x hx
    · cases hs
  | switch | allocate | free | fill | store | allocateKernelStack | releaseKernelStack
  | mapDevice | destroy =>
    simp only [SpaceState.step] at hs
    repeat' split at hs
    all_goals first
      | cases hs; done
      | (obtain rfl := Option.some.inj hs; exact h)

theorem SpacesReached.userRecorded {config : PagingConfig}
    (h : SpacesReached config UserFlagsOnly boot base s) : UserRecorded s :=
  h.run.invariant UserRecorded (fun _ _ _ hrec hflags hs => hrec.step hflags hs)
    fun _ _ _ hx => nomatch hx

/-- What the queries read off the leaf of a user page. -/
theorem userLeaf_page (hframe : target frame = frame) (huser : flags.bits &&& userBit ≠ 0) :
    UserLeaf (frame ||| flags.bits) ∧
      ((frame ||| flags.bits) &&& noExecuteBit = 0 ↔
        flags = .userReadExecute ∨ flags = .userReadWriteExecute) := by
  unfold UserLeaf
  rw [or_and_of_target hframe (by decide), or_and_of_target hframe (by decide)]
  cases flags with
  | kernelReadWrite | device => exact absurd rfl huser
  | userReadOnly | userReadWrite | userReadExecute | userReadWriteExecute => decide

/-- The recorded page is what the walk of a user page finds. -/
theorem Recorded.lookup_iff (hrec : Recorded boot s) (hr : r ∈ s.live)
    (hv : v < userSpaceEnd) {p : Nat → Prop} :
    (∃ leaf, s.memory.lookup r v = some leaf ∧ p leaf) ↔
      ∃ frame flags, s.maps r (v / pageSize) = some (frame, flags) ∧
        p (frame ||| flags.bits) := by
  rw [hrec.maps r hr v hv]
  constructor
  · rintro ⟨leaf, hleaf, hp⟩
    obtain ⟨⟨frame, flags⟩, hpage, rfl⟩ := Option.map_eq_some_iff.mp hleaf
    exact ⟨frame, flags, hpage, hp⟩
  · rintro ⟨frame, flags, hpage, hp⟩
    exact ⟨_, by rw [hpage]; rfl, hp⟩

end Recorded

/-! ## The refinement -/

/-- The live spaces are partial maps from user pages to frames and flags, and
the calls of `paging.rs` are those on partial maps. -/
structure RefinesMap (s : SpaceState) : Prop where
  walks : ∀ r ∈ s.live, ∀ v < userSpaceEnd, s.memory.lookup r v =
    (s.maps r (v / pageSize)).map fun page => page.1 ||| page.2.bits
  map : ∀ r ∈ s.live, ∀ v frame flags, InUserSpace v →
    s.memory.frames.IsAllocated frame → flags.bits &&& userBit ≠ 0 →
      match mapUserPageIn r v frame flags s.memory with
      | .ok _ m' => s.memory.lookup r v = none ∧
          m'.lookup r v = some (frame ||| flags.bits) ∧
          SameWalks s.live s.memory m' fun r' n => r' = r ∧ n = v / pageSize
      | .error e m' => (e = .alreadyMapped ↔ (s.memory.lookup r v).isSome) ∧
          SameWalks s.live s.memory m' fun _ _ => False
  unmap : s.memory.activeAddressSpace ∈ s.live → ∀ v < userSpaceEnd,
    (s.memory.unmapPage v).1 =
        (s.maps s.memory.activeAddressSpace (v / pageSize)).map Prod.fst ∧
      (s.memory.unmapPage v).2.lookup s.memory.activeAddressSpace v = none ∧
      SameWalks s.live s.memory (s.memory.unmapPage v).2 fun r n =>
        r = s.memory.activeAddressSpace ∧ n = v / pageSize
  mapped : s.memory.activeAddressSpace ∈ s.live → ∀ v,
    s.memory.isUserMapped v = true ↔ InUserSpace v ∧
      (s.maps s.memory.activeAddressSpace (v / pageSize)).isSome
  executable : s.memory.activeAddressSpace ∈ s.live → ∀ v,
    s.memory.isUserExecutable v = true ↔ InUserSpace v ∧ ∃ frame flags,
      s.maps s.memory.activeAddressSpace (v / pageSize) = some (frame, flags) ∧
        (flags = .userReadExecute ∨ flags = .userReadWriteExecute)

/-- After any steps that map user pages with user flags the page tables refine
a partial map. -/
theorem pageTables_refine_map {config : PagingConfig} {boot : Nat} {base : Memory}
    {s : SpaceState} (h : SpacesReached config UserFlagsOnly boot base s) :
    RefinesMap s := by
  obtain ⟨places, hsep, hrec, hlinked⟩ := h.userLinked
  have huser := h.userRecorded
  have hpage : ∀ r ∈ s.live, ∀ n frame flags, s.maps r n = some (frame, flags) →
      target frame = frame ∧ UserLeaf (frame ||| flags.bits) ∧
        ((frame ||| flags.bits) &&& noExecuteBit = 0 ↔
          flags = .userReadExecute ∨ flags = .userReadWriteExecute) := by
    intro r hr n frame flags hn
    have hframe := (hrec.pages r hr n frame flags hn).1
    exact ⟨hframe, userLeaf_page hframe (huser r n _ hn)⟩
  refine ⟨hrec.maps, fun r hr v frame flags hv hframe _ =>
    hsep.mapUserPageIn hr hv hframe flags, ?_, ?_, ?_⟩
  · intro hactive v hv
    obtain ⟨hframe, hrest⟩ := hsep.unmapPage hactive hv
    refine ⟨?_, hrest⟩
    rw [hframe, hrec.maps _ hactive v hv]
    cases hn : s.maps s.memory.activeAddressSpace (v / pageSize) with
    | none => rfl
    | some page =>
      show some (target (page.1 ||| page.2.bits)) = some page.1
      rw [target_page (hpage _ hactive _ page.1 page.2 hn).1]
  · intro hactive v
    rw [isUserMapped_iff hsep.owned hlinked (hsep.place hactive)]
    refine and_congr_right fun hv => ?_
    rw [hrec.lookup_iff hactive hv.2, Option.isSome_iff_exists, Prod.exists]
    refine exists_congr fun frame => exists_congr fun flags => ?_
    exact and_iff_left_of_imp fun hn => (hpage _ hactive _ _ _ hn).2.1
  · intro hactive v
    rw [isUserExecutable_iff hsep.owned hlinked (hsep.place hactive)]
    refine and_congr_right fun hv => ?_
    rw [hrec.lookup_iff hactive hv.2]
    refine exists_congr fun frame => exists_congr fun flags => and_congr_right fun hn => ?_
    obtain ⟨-, hleaf, hexecute⟩ := hpage _ hactive _ _ _ hn
    rw [and_iff_right hleaf, hexecute]

instance (s : SpaceState) : DecidablePred (UserFlagsOnly s) := fun a =>
  match a with
  | .mapIn _ _ _ _ | .map _ _ _ => inferInstanceAs (Decidable (_ ≠ _))
  | .create | .switch _ | .allocate | .free _ | .fill _ _ _ | .unmap _
  | .releaseUserStack _ | .store _ _ _ _ | .allocateKernelStack _
  | .releaseKernelStack _ | .mapDevice _ _ | .destroy _ =>
    inferInstanceAs (Decidable True)

set_option maxRecDepth 100000 in
/-- A page of data and a page of code; the page of data has been unmapped. -/
theorem pageTables_refine_map_unmapped : ∃ s : SpaceState, RefinesMap s ∧
    s.memory.isUserMapped futureUserSpaceBase = false ∧
    s.memory.isUserExecutable (futureUserSpaceBase + pageSize) = true := by
  have hrun : ((spacesAfter UserFlagsOnly [.create, .switch 0x103000, .allocate,
      .mapIn 0x103000 futureUserSpaceBase 0x104000 .userReadWrite, .allocate,
      .mapIn 0x103000 (futureUserSpaceBase + pageSize) 0x108000 .userReadExecute,
      .unmap futureUserSpaceBase]).any fun s => decide (
        s.memory.isUserMapped futureUserSpaceBase = false ∧
        s.memory.isUserExecutable (futureUserSpaceBase + pageSize) = true)) = true := by
    decide +kernel
  obtain ⟨s, hs, hstate⟩ := (Option.any_eq_true _ _).mp hrun
  obtain ⟨base, hreached⟩ := spacesReached_after hs
  exact ⟨s, pageTables_refine_map hreached, of_decide_eq_true hstate⟩

end OpenKernel
