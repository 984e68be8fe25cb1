import OpenKernel.Memory.Exclusive
import OpenKernel.Memory.KernelHalf
import OpenKernel.Memory.TakenFrames

/-!
# The stacks of a thread slot

What `allocate_kernel_stack` and `allocate_user_stack` do to sound page tables,
when they succeed and when they run out of frames midway, and when they cannot
fail: the pages are not mapped and enough frames are free
(`Separate.allocateStacks_ok`).
-/

namespace OpenKernel

open Lib

/-! ## The stacks of a slot -/

theorem allocateKernelStack_run (slot : Nat) (m : Memory) :
    allocateKernelStack slot m =
      match (kernelStack slot).forM (mapNewPage .kernelReadWrite) m with
      | .ok _ m' => .ok (kernelStackBase slot + kernelStackPages * pageSize) m'
      | .error e m' => .error e m' := by
  rw [allocateKernelStack_eq]
  show EStateM.bind ((kernelStack slot).forM (mapNewPage .kernelReadWrite)) _ m = _
  unfold EStateM.bind
  cases (kernelStack slot).forM (mapNewPage .kernelReadWrite) m <;> rfl

theorem allocateUserStack_run (slot : Nat) (m : Memory) :
    allocateUserStack slot m =
      match (userStack slot).forM
        (mapNewUserPage m.activeAddressSpace .userReadWrite) m with
      | .ok _ m' => .ok (userStackTop slot) m'
      | .error e m' => .error e m' := by
  have hturn : ∀ page : Nat, (do
      let frame ← allocatePhysicalFrame
      modify (·.zeroPhysicalFrame frame)
      mapUserPageIn m.activeAddressSpace (userStackTop slot - page * pageSize) frame
        .userReadWrite : Paging Unit) =
      mapNewUserPage m.activeAddressSpace .userReadWrite
        (userStackTop slot - page * pageSize) := by
    intro page
    funext m₁
    rw [mapNewUserPage_run, newUserPage_run]
    show EStateM.bind allocatePhysicalFrame _ m₁ = _
    unfold EStateM.bind allocatePhysicalFrame
    cases hx : m₁.frames.allocate with
    | mk result frames =>
      cases result with
      | none => rw [FrameAllocator.allocate_none hx]
      | some frame =>
        dsimp only
        show mapUserPageIn m.activeAddressSpace (userStackTop slot - page * pageSize) frame
          .userReadWrite (({ m₁ with frames } : Memory).zeroPhysicalFrame frame) = _
        cases mapUserPageIn m.activeAddressSpace (userStackTop slot - page * pageSize) frame
          .userReadWrite (({ m₁ with frames } : Memory).zeroPhysicalFrame frame) <;> rfl
  have hloop : (List.range' 1 userStackPages).forM (fun page =>
      mapNewUserPage m.activeAddressSpace .userReadWrite (userStackTop slot - page * pageSize)) =
      (userStack slot).forM (mapNewUserPage m.activeAddressSpace .userReadWrite) :=
    List.forM_map.symm
  show allocateUserStackIn m.activeAddressSpace slot m = _
  unfold allocateUserStackIn
  simp only [hturn]
  rw [hloop]
  show EStateM.bind ((userStack slot).forM
    (mapNewUserPage m.activeAddressSpace .userReadWrite)) _ m = _
  unfold EStateM.bind
  cases (userStack slot).forM (mapNewUserPage m.activeAddressSpace .userReadWrite) m <;> rfl

section Slot

variable {boot : Nat} {base : Memory} {places places' : Places} {s : SpaceState}
  {root slot v : Nat} {m' : Memory}

theorem Takes.separate (ht : Takes places s.memory places' m')
    (h : Separate boot base places s) : Separate boot base places' { s with memory := m' } :=
  h.touched ht.owned (ht.touches.mono fun _ hf => hf.elim) rfl
    fun _ hf => h.hand_kept ht.touches hf id

/-- The two kernel stacks of a thread lie in the window. -/
theorem stacksInWindow (hslot : slot < maxThreads) :
    StackInWindow slot ∧ StackInWindow (slot + maxThreads) :=
  ⟨stackInWindow_of_lt (Nat.lt_of_lt_of_le hslot (by decide)),
    stackInWindow_of_lt (show slot + 8 < 8 + 8 from Nat.add_lt_add_right hslot 8)⟩

theorem mapsKernelStack (hslot : StackInWindow slot) :
    MapsEach .window root (kernelStack slot) (mapNewPage .kernelReadWrite) :=
  fun _ hv _ _ ho hr => (hr.access (mem_kernelStack hslot hv)).mapsPage ho .kernelReadWrite

theorem userStack_inUser (hslot : slot < maxThreads) (hv : v ∈ userStack slot) :
    InUserSpace v := by
  refine ⟨?_, userStack_lt hv⟩
  obtain ⟨page, hpage, rfl⟩ := List.mem_map.mp hv
  have hlt := (List.mem_range'_1.mp hpage).2
  have hend : userSpaceEnd = 2 ^ 47 := by decide
  have hbase : futureUserSpaceBase = 2 ^ 30 := by decide
  simp only [userStackTop, userStackPages, pageSize, maxThreads] at *
  omega

theorem mapsUserStack (hslot : slot < maxThreads) :
    MapsEach (.space root) root (userStack slot) (mapNewUserPage root .userReadWrite) :=
  fun _ hv _ _ ho hr => ho.mapsPage hr.place (userStack_inUser hslot hv) (by decide)

theorem distinct_kernelStack (slot : Nat) :
    (kernelStack slot).Pairwise fun v w => v / pageSize ≠ w / pageSize := by
  unfold kernelStack
  apply List.pairwise_map.mpr
  apply (List.pairwise_lt_range (n := kernelStackPages)).imp
  intro p q hlt
  have hguard : kernelStackGuardPage = 4096 * 0xFFFFFF1000000 := by decide
  simp only [kernelStackBase, hguard, kernelStackPages, pageSize]
  omega

theorem distinct_userStack (hslot : slot < maxThreads) :
    (userStack slot).Pairwise fun v w => v / pageSize ≠ w / pageSize := by
  unfold userStack
  apply List.pairwise_map.mpr
  apply (List.pairwise_lt_range' (s := 1) (n := userStackPages)).imp_of_mem
  intro p q hp hq hlt
  have hp := (List.mem_range'_1.mp hp).2
  have hq := (List.mem_range'_1.mp hq).2
  have hend : userSpaceEnd = 2 ^ 47 := by decide
  simp only [userStackTop, userStackPages, pageSize, maxThreads] at *
  omega

/-- The window looks the same from the active space. -/
theorem Separate.lookup_active (h : Separate boot base places s)
    (hv : kernelStackGuardPage ≤ v) (hv' : v < windowEnd) :
    s.memory.lookup s.memory.activeAddressSpace v =
      pageTree.entry s.memory.words (windowIndices v) (leafIndex v)
        (target (s.memory.words boot windowEntry)) :=
  h.lookup_window h.active (base_le_of_guard hv) hv'

/-- What `allocate_kernel_stack` does, whether it fails or not. -/
theorem Separate.allocateKernelStack (h : Separate boot base places s)
    (hslot : StackInWindow slot) :
    match OpenKernel.allocateKernelStack slot s.memory with
    | .ok _ m' => ∃ places', Takes places s.memory places' m' ∧ Spends 16 s.memory m' ∧
        SameEntries places s.memory m' (PageEntries .window (kernelStack slot))
    | .error _ m' => ∃ places', Takes places s.memory places' m' := by
  have hloop := (mapsKernelStack hslot).forM h.owned h.reach_window
  rw [allocateKernelStack_run]
  cases hx : (kernelStack slot).forM (mapNewPage .kernelReadWrite) s.memory with
  | ok u m' =>
    rw [hx] at hloop
    exact hloop
  | error e m' =>
    rw [hx] at hloop
    exact hloop

/-- The first frame that a kernel stack takes is a page or lost. -/
theorem Separate.allocateKernelStack_held {frame : Nat} {frames : FrameAllocator}
    (h : Separate boot base places s) (hslot : StackInWindow slot)
    (halloc : s.memory.frames.allocate = (some frame, frames)) :
    match OpenKernel.allocateKernelStack slot s.memory with
    | .ok _ m' | .error _ m' => ∃ places', Takes places s.memory places' m' ∧
        Held frame places' m' := by
  obtain ⟨v, rest, hstack⟩ : ∃ v rest, kernelStack slot = v :: rest := ⟨_, _, rfl⟩
  have hv : v ∈ kernelStack slot := by
    rw [hstack]
    exact List.mem_cons_self
  have hreach := h.reach_window
  have hfirst := (hreach.access (mem_kernelStack hslot hv)).takesNewPage h.owned
    .kernelReadWrite halloc
  have hturns : MapsEach .window (target (s.memory.words boot windowEntry)) (v :: rest)
      (mapNewPage .kernelReadWrite) := by
    rw [← hstack]
    exact mapsKernelStack hslot
  rw [allocateKernelStack_run, hstack, forM_cons_run]
  cases hx : mapNewPage .kernelReadWrite v s.memory with
  | error e m₁ =>
    rw [hx] at hfirst
    obtain ⟨places₁, htakes, hheld, -⟩ := hfirst
    exact ⟨places₁, htakes, hheld⟩
  | ok u m₁ =>
    rw [hx] at hfirst
    obtain ⟨places₁, htakes, hheld⟩ := hfirst
    have hloop := hturns.tail.forM htakes.owned (hreach.touches htakes.touches)
    dsimp only
    cases hy : rest.forM (mapNewPage .kernelReadWrite) m₁ with
    | error e m₂ =>
      rw [hy] at hloop
      obtain ⟨places₂, htakes'⟩ := hloop
      exact ⟨places₂, htakes.trans htakes', htakes'.held hheld⟩
    | ok u' m₂ =>
      rw [hy] at hloop
      obtain ⟨places₂, htakes', -⟩ := hloop
      exact ⟨places₂, htakes.trans htakes', htakes'.held hheld⟩

/-- With enough frames, a kernel stack that is not mapped gets mapped. -/
theorem Separate.allocateKernelStack_ok (h : Separate boot base places s)
    (hslot : StackInWindow slot)
    (hnone : ∀ v ∈ kernelStack slot, s.memory.lookup s.memory.activeAddressSpace v = none)
    (hcard : 16 < s.memory.frames.freeSet.card) :
    ∃ top m', OpenKernel.allocateKernelStack slot s.memory = .ok top m' := by
  have hwindow : ∀ v ∈ kernelStack slot, kernelStackGuardPage ≤ v ∧ v < windowEnd :=
    fun v hv => mem_kernelStack hslot hv
  have hdistinct : (kernelStack slot).Pairwise fun v w =>
      ¬ (windowIndices w = windowIndices v ∧ leafIndex w = leafIndex v) := by
    apply (distinct_kernelStack slot).imp_of_mem
    rintro v w hv hw hne ⟨hindices, hleaf⟩
    obtain ⟨hguard, hend⟩ := hwindow v hv
    exact hne (stack_page (hwindow w hw) ⟨base_le_of_guard hguard, hend⟩ hindices hleaf).symm
  have hentries : ∀ v ∈ kernelStack slot, pageTree.entry s.memory.words (windowIndices v)
      (leafIndex v) (target (s.memory.words boot windowEntry)) = none := by
    intro v hv
    obtain ⟨hguard, hend⟩ := hwindow v hv
    rw [← hnone v hv, h.lookup_active hguard hend]
  obtain ⟨m', hloop⟩ := (mapsKernelStack hslot).forM_ok h.owned h.reach_window hwindow
    hdistinct hentries hcard
  rw [allocateKernelStack_run, hloop]
  exact ⟨_, m', rfl⟩

/-- What `allocate_user_stack` does, whether it fails or not. -/
theorem Separate.allocateUserStack (h : Separate boot base places s)
    (hactive : s.memory.activeAddressSpace ∈ s.live) (hslot : slot < maxThreads) :
    match OpenKernel.allocateUserStack slot s.memory with
    | .ok _ m' | .error _ m' => ∃ places', Takes places s.memory places' m' := by
  have hloop := (mapsUserStack hslot).forM h.owned (h.reach_space hactive)
  rw [allocateUserStack_run]
  cases hx : (userStack slot).forM
      (mapNewUserPage s.memory.activeAddressSpace .userReadWrite) s.memory with
  | ok u m' =>
    rw [hx] at hloop
    obtain ⟨places', htakes, -⟩ := hloop
    exact ⟨places', htakes⟩
  | error e m' =>
    rw [hx] at hloop
    exact hloop

/-- With enough frames, a user stack that is not mapped gets mapped. -/
theorem Separate.allocateUserStack_ok (h : Separate boot base places s)
    (hactive : s.memory.activeAddressSpace ∈ s.live) (hslot : slot < maxThreads)
    (hnone : ∀ v ∈ userStack slot, s.memory.lookup s.memory.activeAddressSpace v = none)
    (hcard : 16 < s.memory.frames.freeSet.card) :
    ∃ m', OpenKernel.allocateUserStack slot s.memory = .ok (userStackTop slot) m' := by
  have hdistinct : (userStack slot).Pairwise fun v w =>
      ¬ (upperIndices w = upperIndices v ∧ leafIndex w = leafIndex v) := by
    apply (distinct_userStack hslot).imp_of_mem
    intro v w hv hw hne hpath
    exact hne ((same_page (userStack_lt hw) (userStack_lt hv)).mp hpath).symm
  have hentries : ∀ v ∈ userStack slot, pageTree.entry s.memory.words (upperIndices v)
      (leafIndex v) s.memory.activeAddressSpace = none := by
    intro v hv
    rw [← hnone v hv, h.lookup_space hactive]
  obtain ⟨m', hloop⟩ := (mapsUserStack hslot).forM_ok h.owned (h.reach_space hactive)
    (fun v hv => userStack_lt hv) hdistinct hentries hcard
  rw [allocateUserStack_run, hloop]
  exact ⟨m', rfl⟩

/-- A new kernel stack changes no lookup of another stack. -/
theorem Takes.lookup_kept {slot' : Nat} (ht : Takes places s.memory places' m')
    (h : Separate boot base places s) (hslot : StackInWindow slot)
    (hsame : SameEntries places s.memory m' (PageEntries .window (kernelStack slot))) :
    (∀ v ∈ userStack slot', s.memory.activeAddressSpace ∈ s.live →
      m'.lookup m'.activeAddressSpace v = s.memory.lookup s.memory.activeAddressSpace v) ∧
    (StackInWindow slot' → slot' ≠ slot → ∀ v ∈ kernelStack slot',
      m'.lookup m'.activeAddressSpace v =
        s.memory.lookup s.memory.activeAddressSpace v) := by
  have hactive : m'.activeAddressSpace = s.memory.activeAddressSpace :=
    congrArg target ht.touches.cr3
  have h' := ht.separate h
  rw [hactive]
  constructor
  · intro v hv hlive
    exact h.lookup_kept hsame hlive (userStack_lt hv) fun hbad => by cases hbad.1
  · intro hslot' hne v hv
    obtain ⟨hguard, hend⟩ := mem_kernelStack hslot' hv
    have hboot : m'.words boot = s.memory.words boot :=
      h.boot_kept (ht.touches.mono fun _ hf => hf.elim)
    have hlookup := h'.lookup_active hguard hend
    dsimp only at hlookup
    rw [hactive, hboot] at hlookup
    rw [hlookup, h.lookup_active hguard hend]
    exact hsame .window _ _ _ h.window.2.2 rfl (within_window v)
      (not_pageEntries hslot' hslot hv hne)

end Slot

/-! ## Slots that are not mapped -/

section Vacant

variable {boot : Nat} {base : Memory} {places : Places} {s : SpaceState} {v : Nat}

theorem translate_eq (m : Memory) (v : Nat) :
    m.translate v = m.translateIn m.activeAddressSpace v := by
  unfold Memory.translate Memory.translateIn Memory.activeAddressSpace
  rw [target_target]

/-- What the hardware does not translate, the kernel's walk does not find. -/
theorem lookup_of_translate {m : Memory} (h : m.translate v = none) :
    m.lookup m.activeAddressSpace v = none := by
  cases hx : m.lookup m.activeAddressSpace v with
  | none => rfl
  | some leaf =>
    rw [translate_eq, translateIn_of_lookup hx] at h
    cases h

/-- So many free frames suffice for the stacks of a thread and their page tables. -/
def enoughFrames : Nat := 49

/-- With enough free frames the stacks of a slot that are not mapped get mapped. -/
theorem Separate.allocateStacks_ok (h : Separate boot base places s)
    (hactive : s.memory.activeAddressSpace ∈ s.live) {slot : Nat} (hslot : slot < maxThreads)
    {user : Bool} (hunmapped : ∀ v ∈ kernelStack slot ++ kernelStack (slot + maxThreads) ++
      (if user then userStack slot else []), s.memory.lookup s.memory.activeAddressSpace v = none)
    (hcard : enoughFrames ≤ s.memory.frames.freeSet.card) :
    ∃ top m₁ syscallTop m₂ m₃, OpenKernel.allocateKernelStack slot s.memory = .ok top m₁ ∧
      OpenKernel.allocateKernelStack (slot + maxThreads) m₁ = .ok syscallTop m₂ ∧
      (user = true → OpenKernel.allocateUserStack slot m₂ = .ok (userStackTop slot) m₃) := by
  unfold enoughFrames at hcard
  obtain ⟨hfirst, hsecond⟩ := stacksInWindow hslot
  have hne : slot + maxThreads ≠ slot := by
    show slot + 8 ≠ slot
    omega
  simp only [List.mem_append] at hunmapped
  obtain ⟨top, m₁, hx₁⟩ := h.allocateKernelStack_ok hfirst
    (fun v hv => hunmapped v (.inl (.inl hv))) (by omega)
  have hends₁ := h.allocateKernelStack hfirst
  rw [hx₁] at hends₁
  obtain ⟨places₁, ht₁, hspends₁, hsame₁⟩ := hends₁
  have h₁ := ht₁.separate h
  have hactive₁ : m₁.activeAddressSpace = s.memory.activeAddressSpace :=
    congrArg target ht₁.touches.cr3
  unfold Spends at hspends₁
  obtain ⟨syscallTop, m₂, hx₂⟩ := h₁.allocateKernelStack_ok hsecond (fun v hv => by
    rw [(ht₁.lookup_kept h hfirst hsame₁).2 hsecond hne v hv]
    exact hunmapped v (.inl (.inr hv))) (by dsimp only; omega)
  have hends₂ := h₁.allocateKernelStack hsecond
  rw [hx₂] at hends₂
  obtain ⟨places₂, ht₂, hspends₂, hsame₂⟩ := hends₂
  have h₂ := ht₂.separate h₁
  have hactive₂ : m₂.activeAddressSpace = m₁.activeAddressSpace :=
    congrArg target ht₂.touches.cr3
  unfold Spends at hspends₂
  cases user with
  | false => exact ⟨top, m₁, syscallTop, m₂, m₂, hx₁, hx₂, fun hbad => by cases hbad⟩
  | true =>
    have hlive₁ : m₁.activeAddressSpace ∈ s.live := by rwa [hactive₁]
    obtain ⟨m₃, hx₃⟩ := h₂.allocateUserStack_ok (by rw [hactive₂]; exact hlive₁) hslot
      (fun v hv => by
        rw [(ht₂.lookup_kept h₁ hsecond hsame₂).1 v hv hlive₁,
          (ht₁.lookup_kept h hfirst hsame₁).1 v hv hactive]
        exact hunmapped v (.inr hv)) (by dsimp only at hspends₂ ⊢; omega)
    exact ⟨top, m₁, syscallTop, m₂, m₃, hx₁, hx₂, fun _ => hx₃⟩

end Vacant

/-! ## Page tables -/

/-- The frame is a page table of the active address space. -/
def PageTable (m : Memory) (frame : Nat) : Prop :=
  ∃ indices, indices.length ≤ 3 ∧ (∀ index ∈ indices, index < 512) ∧
    m.walk indices m.activeAddressSpace = some frame

/-- A frame that was free when the kernel was booted, and is held, is no page
table. -/
theorem Held.not_pageTable {boot frame : Nat} {base : Memory} {places : Places} {s : SpaceState}
    (hf : Held frame places s.memory) (h : Separate boot base places s)
    (hactive : s.memory.activeAddressSpace ∈ s.live) (hboot : ¬ BootFrame base boot frame) :
    ¬ PageTable s.memory frame := by
  rintro ⟨indices, hlen, hindices, hwalk⟩
  by_cases hhead : indices.headD 0 < 256
  · rw [walk_eq] at hwalk
    have hplace := h.owned.forest.walk_place (h.place hactive)
      (by rw [List.length_nil, Nat.zero_add]; exact Nat.le_succ_of_le hlen)
      (within_of_lt _ [] hindices fun _ => hhead) hwalk
    have hdepth := hf.2 _ _ hplace
    rw [List.append_nil, List.length_reverse] at hdepth
    change indices.length = 4 at hdepth
    omega
  · cases indices with
    | nil => exact hhead (by decide)
    | cons index rest =>
      have htable : KernelHalfTable s.memory s.memory.activeAddressSpace frame :=
        ⟨index, rest, Nat.le_of_not_lt hhead, hindices index List.mem_cons_self,
          Nat.le_of_succ_le_succ hlen,
          fun i hi => hindices i (List.mem_cons_of_mem index hi), hwalk⟩
      rcases h.kernelHalfTable_place (.inr hactive) htable with ⟨path, hplace, hle⟩ | hbad
      · have hdepth := hf.2 _ _ hplace
        change path.length = 3 at hdepth
        omega
      · exact hboot hbad

end OpenKernel
