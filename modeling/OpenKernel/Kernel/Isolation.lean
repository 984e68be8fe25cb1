import OpenKernel.Kernel.ProcessLifetime
import OpenKernel.Memory.Exclusive

/-!
# Isolation of the processes

The frames of an address space belong to it alone, and a step changes nothing
in the address space of a process whose threads it does not run.

The second half is a frame rule.  The tree of an address space that is not
active can be set aside: the rest is still sound, so every call works around
the frames of the tree as it works around the kernel's own.
-/

namespace OpenKernel

open Lib

/-- The address space leads to the same pages with the same permissions, and
they hold the same bytes. -/
structure Undisturbed (space : Nat) (m m' : Memory) : Prop where
  lookup : ∀ v < userSpaceEnd, m'.lookup space v = m.lookup space v
  byte : ∀ v < userSpaceEnd, m'.byteIn space v = m.byteIn space v

theorem Undisturbed.refl (space : Nat) (m : Memory) : Undisturbed space m m :=
  ⟨fun _ _ => rfl, fun _ _ => rfl⟩

theorem Undisturbed.trans {space : Nat} {m m' m'' : Memory} (h : Undisturbed space m m')
    (h' : Undisturbed space m' m'') : Undisturbed space m m'' where
  lookup v hv := (h'.lookup v hv).trans (h.lookup v hv)
  byte v hv := (h'.byte v hv).trans (h.byte v hv)

section Spaces

variable {boot : Nat} {base : Memory} {places places' : Places} {s s' : SpaceState}
  {g : Ground} {live live' : List Nat} {m m' : Memory} {r r' v : Nat}

/-- The entries of a space depend on the frames of its tree. -/
theorem Separate.lookup_congr (h : Separate boot base places s) (hr : r ∈ s.live)
    (hwords : ∀ f path, places f = some (.space r, path) → m'.words f = s.memory.words f)
    (hv : v < userSpaceEnd) : m'.lookup r v = s.memory.lookup r v := by
  have hplace := h.place hr
  have hlen : ([] : List Nat).length + (upperIndices v).length ≤ pageTree.depth (.space r) :=
    Nat.le_of_lt (length_upperIndices v)
  rw [lookup_eq, lookup_eq, h.target_root hr]
  unfold Radix.entry
  rw [h.owned.forest.walk_congr (fun f path i hf _ _ => by rw [hwords f path hf]) hplace hlen
    (within_space r hv)]
  cases hwalk : pageTree.walk s.memory.words (upperIndices v) r with
  | none => rfl
  | some table =>
    have htable := h.owned.forest.walk_place hplace hlen (within_space r hv) hwalk
    show (if (pageTree.ref (m'.words table (leafIndex v))).isSome then
        some (m'.words table (leafIndex v)) else none) = _
    rw [hwords table _ htable]
    rfl

theorem Separate.byteIn_user (h : Separate boot base places s) (hr : r ∈ s.live)
    (hv : v < userSpaceEnd) : s.memory.byteIn r v =
      (s.memory.lookup r v).map fun leaf => s.memory.physicalByte (target leaf + v % pageSize) := by
  unfold Memory.byteIn
  rw [h.translateIn_user hr hv, Option.map_map]
  rfl

/-- A space is undisturbed when the frames of its tree hold what they held. -/
theorem Separate.same_space (h : Separate boot base places s) (hr : r ∈ s.live)
    (h' : HasSpaces g live' m') (hr' : r ∈ live')
    (hwords : ∀ f path, places f = some (.space r, path) → m'.words f = s.memory.words f) :
    Undisturbed r s.memory m' := by
  obtain ⟨places', s', hsep', -, rfl, rfl⟩ := h'
  refine ⟨fun v hv => h.lookup_congr hr hwords hv, fun v hv => ?_⟩
  rw [h.byteIn_user hr hv, hsep'.byteIn_user hr' hv, h.lookup_congr hr hwords hv]
  cases hleaf : s.memory.lookup r v with
  | none => rfl
  | some leaf =>
    obtain ⟨path, hplace, -⟩ := h.leaf_place hr hv hleaf
    have hframe : (target leaf + v % pageSize) / pageSize * pageSize = target leaf := by
      have haligned := target_mod leaf
      unfold pageSize at *
      omega
    refine congrArg some (Memory.physicalByte_congr ?_)
    rw [hframe]
    exact hwords _ _ hplace

/-! ## Setting a space aside -/

/-- The rest is sound without the tree of a space that is not active. -/
theorem Separate.setAside (h : Separate boot base places s)
    (hactive : r ≠ s.memory.activeAddressSpace) :
    Separate boot base (places.without (.space r))
      { s with live := s.live.filter (· ≠ r) } := by
  have hstays : ∀ {f o path}, places.without (.space r) f = some (o, path) →
      o ≠ .space r ∧ places f = some (o, path) := by
    intro f o path hf
    exact (without_eq_some places _ o f path).mp hf
  have hlive : ∀ r', r' ∈ s.live.filter (· ≠ r) ↔ r' ∈ s.live ∧ r' ≠ r := by
    intro r'
    rw [List.mem_filter, decide_eq_true_iff]
  refine ⟨⟨?_, ?_, ?_, ?_⟩, ?_, ?_, ⟨h.window.1, h.window.2.1, ?_⟩, ?_, ?_, ?_, ?_, h.bootTarget⟩
  · exact h.owned.forest.fell (fun f o path => without_eq_some places _ o f path)
      fun _ _ _ _ _ _ _ => rfl
  · exact fun f x hf => h.owned.notFree f x (hstays hf).2
  · exact fun f r' path hf => h.owned.allocated f r' path (hstays hf).2
  · exact fun f x hf => h.owned.aligned f x (hstays hf).2
  · intro r'
    rw [hlive, without_eq_some, h.live]
    have hne : Owner.space r' ≠ .space r ↔ r' ≠ r := by
      rw [Ne, Owner.space.injEq]
    rw [hne]
    exact and_comm
  · exact fun f r' hf => h.roots f r' (hstays hf).2
  · exact (without_eq_some places _ _ _ []).mpr ⟨(fun heq => nomatch heq), h.window.2.2⟩
  · exact fun r' hr' => h.upper r' ((hlive r').mp hr').1
  · intro f hf
    obtain ⟨hnone, hfree, hwords, hhand⟩ := h.fixed f hf
    exact ⟨without_eq_none places _ hnone, hfree, hwords, hhand⟩
  · intro f hf
    obtain ⟨hnone, hall, hfree⟩ := h.hand f hf
    exact ⟨without_eq_none places _ hnone, hall, hfree⟩
  · rcases h.active with hboot | hmem
    · exact .inl hboot
    · exact .inr ((hlive _).mpr ⟨hmem, fun heq => hactive heq.symm⟩)

/-- The ground on which the tree of a space is set aside. -/
def Ground.withTree (g : Ground) (places : Places) (r : Nat) (m : Memory) : Ground :=
  { g with
    aside := fun f => ∃ path, places f = some (.space r, path)
    words := m.words
    named := False }

theorem Separate.spares (h : Separate boot base places s) (g : Ground) (r : Nat) :
    (g.withTree places r s.memory).Spares (places.without (.space r))
      { s with live := s.live.filter (· ≠ r) } := by
  rintro f ⟨path, hplace⟩
  refine ⟨?_, h.owned.notFree f _ hplace, fun hhand => ?_, rfl⟩
  · unfold Places.without
    rw [hplace]
    simp
  · rw [(h.hand f hhand).1] at hplace
    cases hplace

/-- Whatever keeps the sound rest leaves the space that is set aside alone. -/
theorem InSpace.setAside (h : InSpace g live m) (hr : r ∈ live)
    (hactive : r ≠ m.activeAddressSpace) :
    ∃ g' : Ground, ¬ g'.named ∧ InSpace g' (live.filter (· ≠ r)) m ∧
      ∀ live₁ live₂ m', HasSpaces g' live₁ m' → HasSpaces g live₂ m' → r ∈ live₂ →
        Undisturbed r m m' := by
  obtain ⟨⟨places, s, hsep, -, rfl, rfl⟩, hmem⟩ := h
  have hrest : s.memory.activeAddressSpace ∈ s.live.filter (· ≠ r) :=
    List.mem_filter.mpr ⟨hmem, decide_eq_true (Ne.symm hactive)⟩
  have hspaces : HasSpaces (g.withTree places r s.memory) (s.live.filter (· ≠ r)) s.memory :=
    ⟨_, _, hsep.setAside hactive, hsep.spares g r, rfl, rfl⟩
  refine ⟨g.withTree places r s.memory, id, ⟨hspaces, hrest⟩, ?_⟩
  intro live₁ live₂ m' h₁ h₂ hr'
  refine hsep.same_space hr h₂ hr' fun f path hplace => ?_
  obtain ⟨places', s', -, hspares, -, rfl⟩ := h₁
  exact (hspares f ⟨path, hplace⟩).2.2.2

/-! ## Switches and destruction -/

theorem HasSpaces.undisturbed_switch (h : HasSpaces g live m) (hr : r ∈ live)
    (hr' : r' ∈ live) : Undisturbed r m (m.switchAddressSpace r') := by
  have hswitch := h.switch hr'
  obtain ⟨places, s, hsep, -, rfl, rfl⟩ := h
  exact hsep.same_space hr hswitch hr fun _ _ _ => rfl

theorem HasSpaces.undisturbed_destroy (h : HasSpaces g live m) (hr : r ∈ live)
    (hr' : r' ∈ live) (hne : r ≠ r') (hactive : r' ≠ m.activeAddressSpace) :
    Undisturbed r m (destroyUserAddressSpace r' m) := by
  have hdestroy := h.destroy hr' hactive
  obtain ⟨places, s, hsep, -, rfl, rfl⟩ := h
  refine hsep.same_space hr hdestroy ?_ fun f path hplace => ?_
  · exact List.mem_filter.mpr ⟨hr, decide_eq_true hne⟩
  · refine (destroyUserAddressSpace_released hsep.owned (hsep.place hr')).words f ?_
    rw [below_space_iff]
    rintro ⟨path', hplace'⟩
    rw [hplace] at hplace'
    exact hne (Owner.space.inj (Prod.mk.inj (Option.some.inj hplace')).1)

end Spaces

namespace Kernel

/-- The process in the slot has this address space. -/
def LivesIn (slot space : Nat) (k : Kernel) : Prop :=
  (k.processes slot).id ≠ noThread ∧ (k.processes slot).addressSpace = space

/-- The frames of the processes: page tables and pages of their lower halves. -/
structure FramesApart (k : Kernel) : Prop where
  /-- each process refers to a frame of its own, and only once -/
  once : ∀ i < maxProcesses, ∀ j < maxProcesses, ∀ r r', LivesIn i r k → LivesIn j r' k →
    ∀ path index path' index' frame, References k.memory r path index frame →
      References k.memory r' path' index' frame → i = j ∧ path = path' ∧ index = index'
  inUse : ∀ i < maxProcesses, ∀ r, LivesIn i r k → ∀ path index frame,
    References k.memory r path index frame →
      k.memory.frames.IsAllocated frame ∧ ¬ k.memory.frames.IsFree frame
  /-- the kernel uses none of them, in whichever space it runs -/
  kernel : ∀ i < maxProcesses, ∀ r, LivesIn i r k → ∀ path index frame,
    References k.memory r path index frame → ∀ j < maxProcesses, ∀ r', LivesIn j r' k →
      frame ≠ r' ∧ ¬ KernelHalfTable k.memory r' frame ∧ ¬ KernelStackPage k.memory r' frame

/-- The current thread is a user thread of the process in the slot. -/
def Runs (slot : Nat) (k : Kernel) : Prop :=
  (k.threads k.currentThread).isUser = true ∧
    (k.threads k.currentThread).process = some (slot + 1)

/-- A step while the process in the slot lives in this address space and does
not run. -/
def RunsApart (slot space : Nat) (k : Kernel) (a : Action) : Prop :=
  k.CollectsAwaited a ∧ LivesIn slot space k ∧ ¬ Runs slot k

instance (slot space : Nat) (k : Kernel) : Decidable (LivesIn slot space k) :=
  inferInstanceAs (Decidable (_ ∧ _))

instance (slot : Nat) (k : Kernel) : Decidable (Runs slot k) :=
  inferInstanceAs (Decidable (_ ∧ _))

instance (slot space : Nat) (k : Kernel) (a : Action) : Decidable (RunsApart slot space k a) :=
  inferInstanceAs (Decidable (_ ∧ _ ∧ _))

section Steps

variable {boot : Nat} {base : Memory} {k k' : Kernel} {a : Action} {slot space : Nat}

theorem Tended.mem_live (h : k.Tended boot base) (hslot : slot < maxProcesses)
    (hlives : LivesIn slot space k) : ∃ live, InSpace (.plain boot base) live k.memory ∧
      NamesSpaces live k.processes ∧ space ∈ live := by
  obtain ⟨live, hm, hnames⟩ := h.spaces
  exact ⟨live, hm, hnames, hlives.2 ▸ hnames.live slot hslot hlives.1⟩

theorem Tended.frames_apart (h : k.Tended boot base) : k.FramesApart := by
  obtain ⟨live, ⟨⟨places, s, hsep, -, rfl, hmemory⟩, -⟩, hnames⟩ := h.spaces
  have hlive : ∀ {i r}, i < maxProcesses → LivesIn i r k → r ∈ s.live :=
    fun hi hlives => hlives.2 ▸ hnames.live _ hi hlives.1
  constructor
  · intro i hi j hj r r' hr hr' path index path' index' frame href href'
    rw [← hmemory] at href href'
    have hplace := hsep.place_of_references (hlive hi hr) href
    rw [hsep.place_of_references (hlive hj hr') href'] at hplace
    obtain ⟨howner, hpath⟩ := Prod.mk.inj (Option.some.inj hplace)
    obtain ⟨hindex, hpath⟩ := List.cons.inj hpath
    have hsame := Owner.space.inj howner
    refine ⟨?_, (List.reverse_injective hpath).symm, hindex.symm⟩
    exact hnames.distinct i hi j hj hr.1 hr'.1 (hr.2.trans (hsame.symm.trans hr'.2.symm))
  · intro i hi r hr path index frame href
    rw [← hmemory] at href ⊢
    have hplace := hsep.place_of_references (hlive hi hr) href
    exact ⟨hsep.owned.allocated _ _ _ hplace, hsep.owned.notFree _ _ hplace⟩
  · intro i hi r hr path index frame href j hj r' hr'
    rw [← hmemory] at href ⊢
    have hplace := hsep.place_of_references (hlive hi hr) href
    have hlive' := hlive hj hr'
    refine ⟨?_, fun ht => ?_, fun hpage => ?_⟩
    · rintro rfl
      rw [hsep.place hlive'] at hplace
      cases (Prod.mk.inj (Option.some.inj hplace)).2
    · exact hsep.kernelHalfTable (.inr hlive') ht _ hplace
    · exact hsep.kernelStackPage (.inr hlive') hpage _ hplace

/-- The space of a process that does not run is not the one that a user thread
works in. -/
theorem Tended.apart (h : k.Tended boot base) (hw : k.WellFormed) (hslot : slot < maxProcesses)
    (hlives : LivesIn slot space k) (hruns : ¬ Runs slot k)
    (huser : (k.threads k.currentThread).isUser = true) :
    space ≠ k.memory.activeAddressSpace := by
  obtain ⟨i, hi, hprocess, hid, hspace⟩ := h.current hw huser
  obtain ⟨live, -, hnames⟩ := h.spaces
  have hused : (k.processes i).id ≠ noThread := by
    rw [hid]
    exact pid_ne_noThread hi
  rintro rfl
  obtain rfl := hnames.distinct slot hslot i hi hlives.1 hused (hlives.2.trans hspace.symm)
  exact hruns ⟨huser, hprocess⟩

/-- The switches and the destruction of another space. -/
theorem Tended.undisturbed_effect (h : k.Tended boot base) (he : SpaceEffect k k')
    (hr : k'.Records) (hslot : slot < maxProcesses) (hlives : LivesIn slot space k)
    (hlives' : LivesIn slot space k')
    (hspare : ∀ i < maxProcesses, (k.processes i).id ≠ noThread →
      (k'.processes i).id = noThread →
        (k.processes i).addressSpace ≠ k.memory.activeAddressSpace) :
    Undisturbed space k.memory k'.memory := by
  obtain ⟨live, hm, hnames, hlive⟩ := h.mem_live hslot hlives
  cases he with
  | kept hs =>
    rw [hs.memory]
    exact .refl _ _
  | entered t entered huser hspace hs hmemory =>
    obtain ⟨i, hi, hused, rfl⟩ := hs.entered hr huser hspace
    rw [hmemory]
    exact hm.spaces.undisturbed_switch hlive (hnames.live i hi hused)
  | destroyed i hi hused hempty hothers hmemory =>
    have hfree : (k'.processes i).id = noThread := by
      rw [hempty]
      rfl
    rw [hmemory]
    refine hm.spaces.undisturbed_destroy hlive (hnames.live i hi hused) (fun heq => ?_)
      (hspare i hi hused hfree)
    obtain rfl := hnames.distinct slot hslot i hi hlives.1 hused (hlives.2.trans heq)
    exact hlives'.1 hfree

/-- What a step does while the process does not run leaves its memory alone. -/
theorem Tended.step_undisturbed (h : k.Tended boot base) (hw : k.WellFormed)
    (hslot : slot < maxProcesses) (hguard : RunsApart slot space k a)
    (hstep : k.step a = some k') (hlives' : LivesIn slot space k') :
    Undisturbed space k.memory k'.memory := by
  obtain ⟨hcollects, hlives, hruns⟩ := hguard
  have h' := h.step hw hcollects hstep
  have hr := (hw.step hstep).toRecords
  have hspare : ∀ i < maxProcesses, (k.processes i).id ≠ noThread →
      (k'.processes i).id = noThread →
        (k.processes i).addressSpace ≠ k.memory.activeAddressSpace :=
    fun i hi hused hfree => h.spare hw hcollects hi ⟨hused, k', hstep, hfree⟩
  obtain ⟨live, hm, -, hlive⟩ := h.mem_live hslot hlives
  cases memoryStep hw hcollects.1.2 hstep with
  | effect he => exact h.undisturbed_effect he hr hslot hlives hlives' hspare
  | call hcaller hkeeps =>
    -- the call keeps the rest sound when the tree of the process is set aside
    have hactive := h.apart hw hslot hlives hruns (hcaller hcollects.1.1)
    obtain ⟨g', hnamed, hrest, hkept⟩ := hm.setAside hlive hactive
    obtain ⟨live₁, h₁, -⟩ := hkeeps g' ⟨_, hrest, fun hn => absurd hn hnamed⟩
    obtain ⟨live₂, h₂, -, hlive₂⟩ := h'.mem_live hslot hlives'
    exact hkept live₁ live₂ _ h₁.spaces h₂.spaces hlive₂
  | store k₁ hcaller he hactive hrecords hp hkeeps =>
    have hlives₁ : LivesIn slot space k₁ := by
      unfold LivesIn
      rw [hp]
      exact hlives'
    have hfirst := h.undisturbed_effect he (hrecords hr) hslot hlives hlives₁ (by rwa [hp])
    obtain ⟨live₁, hm₁, hnames₁⟩ := h.housed.effect trivial he (hrecords hr) (by rwa [hp])
    have hlive₁ : space ∈ live₁ := hlives₁.2 ▸ (hnames₁ trivial).live slot hslot hlives₁.1
    have hne : space ≠ k₁.memory.activeAddressSpace := by
      rw [show k₁.memory.activeAddressSpace = k.memory.activeAddressSpace from hactive]
      exact h.apart hw hslot hlives hruns hcaller
    obtain ⟨g', -, hrest, hkept⟩ := hm₁.setAside hlive₁ hne
    refine hfirst.trans (hkept _ live₁ _ (hkeeps g' _ hrest).spaces ?_ hlive₁)
    exact (hkeeps _ live₁ hm₁).spaces

end Steps

section Runs

variable {places : Places} {m base : Memory} {config : PagingConfig} {k k' : Kernel}
  {slot space : Nat}

/-- In every run no two processes share a page or a page table. -/
theorem framesApart (hboot : BootTables places m)
    (hinit : initializeVirtualMemory config m = .ok () base)
    (h : ReachedFrom base CollectsAwaited k) : k.FramesApart :=
  (tended hboot hinit h).2.frames_apart

set_option maxRecDepth 100000 in
/-- Two processes with their code at the same address. -/
theorem framesApart_two : ∃ k : Kernel, k.FramesApart ∧ LivesIn 0 0x103000 k ∧
    LivesIn 1 0x125000 k ∧ k.memory.lookup 0x103000 futureUserSpaceBase = some 0x104005 ∧
    k.memory.lookup 0x125000 futureUserSpaceBase = some 0x126005 := by
  have hrun : ((boot plainMemory smallImage).bind (exec step CollectsAwaited
      [.resume, .spawnSmall])).any fun k => decide (LivesIn 0 0x103000 k ∧ LivesIn 1 0x125000 k ∧
        k.memory.lookup 0x103000 futureUserSpaceBase = some 0x104005 ∧
        k.memory.lookup 0x125000 futureUserSpaceBase = some 0x126005) := by
    decide +kernel
  obtain ⟨k, hk, hfound⟩ := ReachedFrom.of_exec hrun
  exact ⟨k, framesApart bootTables_bareMemory initialize_bareMemory hk,
    of_decide_eq_true hfound⟩

/-- As long as a process does not run, no step of the others changes what it
finds in its address space. -/
theorem undisturbed (hboot : BootTables places m)
    (hinit : initializeVirtualMemory config m = .ok () base)
    (h : ReachedFrom base CollectsAwaited k) (hslot : slot < maxProcesses)
    (hrun : Run step (RunsApart slot space) k k') (hend : LivesIn slot space k') :
    Undisturbed space k.memory k'.memory := by
  have hstart := tended hboot hinit h
  have hkeeps : ∀ (t : Kernel) a (u : Kernel),
      (t.WellFormed ∧ t.Tended (target m.cr3) base) ∧
        (LivesIn slot space t → Undisturbed space k.memory t.memory) →
      RunsApart slot space t a → t.step a = some u →
      (u.WellFormed ∧ u.Tended (target m.cr3) base) ∧
        (LivesIn slot space u → Undisturbed space k.memory u.memory) := by
    intro t a u hinv hguard hstep
    obtain ⟨⟨hw, ht⟩, hsame⟩ := hinv
    refine ⟨⟨hw.step hstep, ht.step hw hguard.1 hstep⟩, fun hlives => ?_⟩
    exact (hsame hguard.2.1).trans (ht.step_undisturbed hw hslot hguard hstep hlives)
  exact (hrun.invariant _ hkeeps ⟨hstart, fun _ => .refl _ _⟩).2 hend

set_option maxRecDepth 100000 in
/-- While PID 2 does not run, PID 1 maps memory, starts a thread and a process,
and terminates that process. -/
theorem undisturbed_sibling : ∃ k k' : Kernel, Undisturbed 0x125000 k.memory k'.memory ∧
    k.memory.byteIn 0x125000 futureUserSpaceBase = some 0x90 ∧ k.memory ≠ k'.memory := by
  have hrun : ((boot plainMemory smallImage).bind (exec step CollectsAwaited
      [.resume, .spawnSmall])).any fun k => decide (
        k.memory.byteIn 0x125000 futureUserSpaceBase = some 0x90) &&
        (exec step (RunsApart 1 0x125000) [.brk (userHeapBase + 5000),
          .threadCreate futureUserSpaceBase 0 0, .spawnSmall, .terminateProcess 3] k).any fun k' =>
          decide (LivesIn 1 0x125000 k' ∧
            k.memory.lookup 0x103000 userHeapBase ≠ k'.memory.lookup 0x103000 userHeapBase) := by
    decide +kernel
  obtain ⟨k, hk, hfound⟩ := ReachedFrom.of_exec hrun
  obtain ⟨hbyte, hrest⟩ := Bool.and_eq_true_iff.mp hfound
  obtain ⟨k', hexec, hend⟩ := (Option.any_eq_true _ _).mp hrest
  obtain ⟨hlives, hchanged⟩ := of_decide_eq_true hend
  refine ⟨k, k', ?_, of_decide_eq_true hbyte, fun heq => hchanged (by rw [heq])⟩
  exact undisturbed bootTables_bareMemory initialize_bareMemory hk (by decide)
    (run_of_exec hexec) hlives

end Runs

end Kernel

end OpenKernel
