import OpenKernel.Kernel.Cases
import OpenKernel.Memory.FreedFrames

/-!
# What a failed thread creation leaves behind

`spawn` and `spawn_user_for_process` set `stack_allocated` only after both
kernel stacks are mapped, and `release_resources` looks at nothing else.  When
they fail later than at the first frame, what they have mapped so far stays.
-/

namespace OpenKernel.Kernel

open Lib KernelCall

/-- The functions that take a thread slot. -/
inductive Creation
  /-- `spawn` -/
  | spawn (entry : Nat)
  /-- `spawn_user_for_process` -/
  | spawnUserForProcess (process : ProcessId) (entry argument tlsBase : Nat)
    (initialStack : Option Nat)

namespace Creation

def run : Creation → KernelCall ThreadId
  | .spawn entry => Kernel.spawn entry
  | .spawnUserForProcess process entry argument tlsBase initialStack =>
    Kernel.spawnUserForProcess process entry argument tlsBase initialStack

/-- The slot that the call tries. -/
def slot (k : Kernel) : Creation → Option ThreadId
  | .spawn _ => k.reusableSlot
  | .spawnUserForProcess process _ _ _ _ =>
    if (k.processAddressSpace process).isNone then none else k.reusableSlot

/-- The call maps a user stack. -/
def mapsUserStack : Creation → Bool
  | .spawn _ => false
  | .spawnUserForProcess _ _ _ _ initialStack => initialStack.isNone

/-- The pages that the call maps for a thread in this slot. -/
def pages (call : Creation) (slot : ThreadId) : List Nat :=
  kernelStack slot ++ kernelStack (slot + maxThreads) ++
    if call.mapsUserStack then userStack slot else []

/-- The kernel when the exited thread in the slot has lost its stacks. -/
def released (call : Creation) (k : Kernel) : Kernel :=
  match call.slot k with
  | some slot => k.releaseResources slot
  | none => k

end Creation

/-- The address belongs to a stack of the exited thread in this slot. -/
def StackOfExited (k : Kernel) (slot : ThreadId) (space v : Nat) : Prop :=
  (k.threads slot).state = .exited ∧ (k.threads slot).reapable = true ∧
    (k.threads slot).stackAllocated = true ∧
    (OnPages (kernelStack slot) v ∨ OnPages (kernelStack (slot + maxThreads)) v ∨
      (k.threads slot).ownsUserStack = true ∧ space = k.memory.activeAddressSpace ∧
        OnPages (userStack slot) v)

/-- The frame is a page table without an entry. -/
def EmptyPageTable (m : Memory) (frame : Nat) : Prop :=
  PageTable m frame ∧ ∀ index < 512, ¬ Present (m.words frame index)

/-- The slot can be tried again: its pages are not mapped, and the call succeeds
as soon as enough frames are free, whatever has been given back, unmapped or
destroyed to free them. -/
structure StaysUsable (boot : Nat) (s : SpaceState) (call : Creation) (slot : ThreadId)
    (k : Kernel) : Prop where
  unmapped : ∀ v ∈ call.pages slot, k.memory.translate v = none
  succeeds : ∀ later : SpaceState,
    Run (SpaceState.step boot) (fun _ a => a.frees = true) { s with memory := k.memory }
      later → enoughFrames ≤ later.memory.frames.freeSet.card →
        ∃ k', call.run { k with memory := later.memory } = .ok slot k'

/-- The call that has led from `k` to `k'` and failed has left nothing behind. -/
structure FailsAtomically (boot : Nat) (s : SpaceState) (call : Creation) (k k' : Kernel) :
    Prop where
  /-- only the stacks of an exited thread are gone -/
  translations : Unmaps (fun space v => ∃ slot, call.slot k = some slot ∧
    StackOfExited k slot space v) s.live k.memory k'.memory
  /-- a frame that the call has taken is free again, or an empty page table -/
  frames : ∀ frame, (call.released k).memory.frames.IsFree frame →
    k'.memory.frames.IsFree frame ∨ EmptyPageTable k'.memory frame
  usable : ∀ slot, call.slot k = some slot → StaysUsable boot s call slot k'

/-- Without a single free frame for the slot, and with its pages unmapped, the call
stops before it does anything. -/
def StopsAtOnce (call : Creation) (k : Kernel) : Prop :=
  ∀ slot, call.slot k = some slot →
    (∀ frame, ¬ (k.releaseResources slot).memory.frames.IsFree frame) ∧
    ∀ v ∈ call.pages slot, (k.releaseResources slot).memory.translate v = none

/-! ## The part that follows the search for a slot -/

section Fill

variable {k k' : Kernel} {call : Creation} {slot : ThreadId}

/-- What the call does once it has a slot. -/
def Creation.fill (slot : ThreadId) : Creation → KernelCall ThreadId
  | .spawn entry => do
    prepareSlot slot
    modify fun k =>
      k.install slot (newThread (k.threads slot) (some entry) none .empty false false)
    return slot
  | .spawnUserForProcess process entry argument tlsBase initialStack => do
    prepareSlot slot
    let (userStack, ownsUserStack) ← chooseUserStack slot initialStack
    modify fun k =>
      k.install slot
        (newThread (k.threads slot) none (some process)
          { rip := entry, rsp := userStack, rdi := argument, fsBase := tlsBase }
          true ownsUserStack)
    return slot

theorem Creation.run_of_none (h : call.slot k = none) : call.run k = .error .failed k := by
  cases call with
  | spawn entry =>
    have hslot : k.reusableSlot = none := h
    show EStateM.bind (ofOption k.reusableSlot) _ k = _
    rw [hslot]
    rfl
  | spawnUserForProcess process entry argument tlsBase initialStack =>
    unfold Creation.slot at h
    dsimp only at h
    show (if (k.processAddressSpace process).isNone then _ else _ : KernelCall ThreadId) k = _
    by_cases hnone : (k.processAddressSpace process).isNone
    · rw [if_pos hnone]
      rfl
    · rw [if_neg hnone] at h ⊢
      show EStateM.bind (ofOption k.reusableSlot) _ k = _
      rw [h]
      rfl

theorem Creation.run_of_some (h : call.slot k = some slot) :
    call.run k = call.fill slot k := by
  cases call with
  | spawn entry =>
    have hslot : k.reusableSlot = some slot := h
    show EStateM.bind (ofOption k.reusableSlot) _ k = _
    rw [hslot]
    rfl
  | spawnUserForProcess process entry argument tlsBase initialStack =>
    unfold Creation.slot at h
    dsimp only at h
    show (if (k.processAddressSpace process).isNone then _ else _ : KernelCall ThreadId) k = _
    by_cases hnone : (k.processAddressSpace process).isNone
    · rw [if_pos hnone] at h
      cases h
    · rw [if_neg hnone] at h ⊢
      show EStateM.bind (ofOption k.reusableSlot) _ k = _
      rw [h]
      rfl

theorem Creation.reusable (h : call.slot k = some slot) : k.reusableSlot = some slot := by
  cases call with
  | spawn entry => exact h
  | spawnUserForProcess process entry argument tlsBase initialStack =>
    unfold Creation.slot at h
    dsimp only at h
    split at h
    · cases h
    · exact h

theorem Creation.slot_quiet (hq : Quiet k k') : call.slot k' = call.slot k := by
  cases call with
  | spawn entry => exact hq.reusableSlot
  | spawnUserForProcess process entry argument tlsBase initialStack =>
    unfold Creation.slot processAddressSpace findRecord
    rw [hq.processes, hq.reusableSlot]

theorem stackAllocated_released (k : Kernel) (slot : ThreadId) :
    ((k.releaseResources slot).threads slot).stackAllocated = false := by
  unfold releaseResources
  dsimp only
  split
  · rename_i hnot
    exact Bool.eq_false_iff.mpr hnot
  · unfold updateThread
    dsimp only
    rw [put_same]

end Fill

/-! ## With a free frame -/

/-- The page tables are sound, and the frame is taken and no page table. -/
def Holding (boot : Nat) (base : Memory) (frame : Nat) (k : Kernel) : Prop :=
  ∃ places s, Separate boot base places s ∧ s.memory = k.memory ∧
    s.memory.activeAddressSpace ∈ s.live ∧ Held frame places s.memory

section Holding

variable {boot frame : Nat} {base : Memory} {places places' : Places} {s : SpaceState}
  {k k' : Kernel} {call : Creation} {slot : ThreadId}

theorem Holding.of_takes {m' : Memory} (ht : Takes places s.memory places' m')
    (h : Separate boot base places s) (hactive : s.memory.activeAddressSpace ∈ s.live)
    (hf : Held frame places' m') (hm : k.memory = m') : Holding boot base frame k := by
  refine ⟨places', _, ht.separate h, hm.symm, ?_, hf⟩
  rw [show m'.activeAddressSpace = s.memory.activeAddressSpace from congrArg target ht.touches.cr3]
  exact hactive

theorem Holding.allocateKernelStack (hslot : StackInWindow slot) :
    Keeps (Holding boot base frame) (ofMemory (OpenKernel.allocateKernelStack slot)) := by
  rintro k ⟨places, s, hsep, hm, hactive, hf⟩
  have hends := hsep.allocateKernelStack hslot
  unfold ofMemory
  rw [← hm]
  cases hx : OpenKernel.allocateKernelStack slot s.memory with
  | ok top m' =>
    rw [hx] at hends
    obtain ⟨places', htakes, -⟩ := hends
    exact .of_takes htakes hsep hactive (htakes.held hf) rfl
  | error e m' =>
    rw [hx] at hends
    obtain ⟨places', htakes⟩ := hends
    exact .of_takes htakes hsep hactive (htakes.held hf) rfl

theorem Holding.allocateUserStack (hslot : slot < maxThreads) :
    Keeps (Holding boot base frame) (ofMemory (OpenKernel.allocateUserStack slot)) := by
  rintro k ⟨places, s, hsep, hm, hactive, hf⟩
  have hends := hsep.allocateUserStack hactive hslot
  unfold ofMemory
  rw [← hm]
  cases hx : OpenKernel.allocateUserStack slot s.memory with
  | ok top m' =>
    rw [hx] at hends
    obtain ⟨places', htakes⟩ := hends
    exact .of_takes htakes hsep hactive (htakes.held hf) rfl
  | error e m' =>
    rw [hx] at hends
    obtain ⟨places', htakes⟩ := hends
    exact .of_takes htakes hsep hactive (htakes.held hf) rfl

/-- The first kernel stack takes the first free frame. -/
theorem holding_first {frames : FrameAllocator} (h : Separate boot base places s)
    (hactive : s.memory.activeAddressSpace ∈ s.live) (hslot : StackInWindow slot)
    (halloc : s.memory.frames.allocate = (some frame, frames)) :
    Spec (fun k : Kernel => k.memory = s.memory)
      (ofMemory (OpenKernel.allocateKernelStack slot))
      (fun _ => Holding boot base frame) (fun _ => Holding boot base frame) := by
  intro k hm
  have hends := h.allocateKernelStack_held hslot halloc
  unfold ofMemory
  rw [hm]
  cases hx : OpenKernel.allocateKernelStack slot s.memory with
  | ok top m' =>
    rw [hx] at hends
    obtain ⟨places', htakes, hf⟩ := hends
    exact .of_takes htakes h hactive hf rfl
  | error e m' =>
    rw [hx] at hends
    obtain ⟨places', htakes, hf⟩ := hends
    exact .of_takes htakes h hactive hf rfl

theorem Holding.memory (h : Holding boot base frame k) (hm : k'.memory = k.memory) :
    Holding boot base frame k' := by
  unfold Holding
  rw [hm]
  exact h

theorem holding_prepareSlot {frames : FrameAllocator} (h : Separate boot base places s)
    (hm : s.memory = (k.releaseResources slot).memory)
    (hactive : s.memory.activeAddressSpace ∈ s.live) (hslot : slot < maxThreads)
    (halloc : s.memory.frames.allocate = (some frame, frames)) :
    Spec (· = k) (prepareSlot slot) (fun _ => Holding boot base frame)
      (fun _ => Holding boot base frame) := by
  obtain ⟨hfirst, hsecond⟩ := stacksInWindow hslot
  refine Spec.bind (Spec.update fun _ hk => by rw [hk] :
    Spec _ _ (fun _ => (· = k.releaseResources slot)) _) fun _ => ?_
  refine Spec.bind_get fun k₁ hk₁ => ?_
  refine Spec.ite (fun _ => ?_) fun hbad => ?_
  · refine Spec.bind ((holding_first h hactive hfirst halloc).conseq ?_
      (fun _ _ hk => hk) fun _ _ hk => hk) fun top => ?_
    · rintro k₂ rfl
      rw [hk₁, hm]
    refine Spec.bind (Spec.update fun _ hk => hk.memory rfl :
      Spec _ _ (fun _ => Holding boot base frame) _) fun _ => ?_
    refine Spec.bind (Holding.allocateKernelStack hsecond) fun syscallTop => ?_
    exact Spec.update fun _ hk => hk.memory rfl
  · rw [hk₁, stackAllocated_released] at hbad
    exact absurd Bool.false_ne_true hbad

theorem holding_chooseUserStack (hslot : slot < maxThreads) (initialStack : Option Nat) :
    Keeps (Holding boot base frame) (chooseUserStack slot initialStack) := by
  cases initialStack with
  | some stack => exact Spec.pure fun _ hk => hk
  | none =>
    refine Spec.bind_read fun k₁ _ => ?_
    refine Spec.bind (Holding.allocateUserStack hslot) fun stackTop => ?_
    refine Spec.bind (Spec.update fun _ hk => hk.memory rfl :
      Spec _ _ (fun _ => Holding boot base frame) _) fun _ => ?_
    refine Spec.ite (fun _ => ?_) fun _ => Spec.pure fun _ hk => hk
    exact Spec.bind (Spec.throw fun _ hk => hk) fun _ => Spec.pure fun _ hk => hk

/-- A call that fails after it has found a free frame keeps that frame. -/
theorem holding_fill {frames : FrameAllocator} (h : Separate boot base places s)
    (hm : s.memory = (k.releaseResources slot).memory)
    (hactive : s.memory.activeAddressSpace ∈ s.live) (hslot : slot < maxThreads)
    (halloc : s.memory.frames.allocate = (some frame, frames)) :
    Spec (· = k) (call.fill slot) (fun _ _ => True) (fun _ => Holding boot base frame) := by
  have hprepare := holding_prepareSlot h hm hactive hslot halloc
  cases call with
  | spawn entry =>
    refine Spec.bind hprepare fun _ => ?_
    exact Spec.bind (Spec.update fun _ _ => trivial : Spec _ _ (fun _ _ => True) _)
      fun _ => Spec.pure fun _ _ => trivial
  | spawnUserForProcess process entry argument tlsBase initialStack =>
    refine Spec.bind hprepare fun _ => ?_
    refine Spec.bind (holding_chooseUserStack hslot initialStack) fun chosen => ?_
    exact Spec.bind (Spec.update fun _ _ => trivial : Spec _ _ (fun _ _ => True) _)
      fun _ => Spec.pure fun _ _ => trivial

end Holding

/-! ## Without a free frame -/

section Stops

variable {k : Kernel} {call : Creation} {slot : Nat} {m m₁ m₂ m₃ : Memory}

theorem allocateKernelStack_stops (slot : Nat) (hnone : m.frames.allocate.1 = none) :
    allocateKernelStack slot m = .error .frameAllocationFailed m := by
  obtain ⟨v, rest, hstack⟩ : ∃ v rest, kernelStack slot = v :: rest := ⟨_, _, rfl⟩
  have hfirst : mapNewPage .kernelReadWrite v m = .error .frameAllocationFailed m := by
    unfold mapNewPage
    show EStateM.bind allocatePhysicalFrame _ m = _
    unfold EStateM.bind allocatePhysicalFrame
    cases hx : m.frames.allocate with
    | mk result frames =>
      rw [hx] at hnone
      cases result with
      | none => rw [FrameAllocator.allocate_none hx]
      | some frame => cases hnone
  rw [allocateKernelStack_run, hstack, forM_cons_run, hfirst]

/-- Without a free frame the call has only released the old stacks. -/
theorem fill_stops (hnone : (k.releaseResources slot).memory.frames.allocate.1 = none) :
    call.fill slot k = .error .failed (k.releaseResources slot) := by
  have hprepare : prepareSlot slot k = .error .failed (k.releaseResources slot) := by
    show (if ¬ ((k.releaseResources slot).threads slot).stackAllocated = true then _ else _ :
      KernelCall Unit) (k.releaseResources slot) = _
    rw [stackAllocated_released, if_pos Bool.false_ne_true]
    show EStateM.bind (ofMemory (allocateKernelStack slot)) _ (k.releaseResources slot) = _
    unfold EStateM.bind ofMemory
    rw [allocateKernelStack_stops slot hnone]
  cases call with
  | spawn entry =>
    show EStateM.bind (prepareSlot slot) _ k = _
    unfold EStateM.bind
    rw [hprepare]
  | spawnUserForProcess process entry argument tlsBase initialStack =>
    show EStateM.bind (prepareSlot slot) _ k = _
    unfold EStateM.bind
    rw [hprepare]

/-! ## With enough free frames -/

theorem ofMemory_ok {α ε : Type} {x : EStateM ε Memory α} {a : α} (hx : x m = .ok a m₁) :
    Spec (fun k : Kernel => k.memory = m) (ofMemory x)
      (fun b k => b = a ∧ k.memory = m₁) (fun _ _ => False) := by
  rintro k rfl
  unfold ofMemory
  rw [hx]
  exact ⟨rfl, rfl⟩

/-- A call whose stacks can be mapped returns its slot. -/
theorem fill_ok (hslot : slot < maxThreads) {top syscallTop : Nat}
    (hfirst : allocateKernelStack slot (k.releaseResources slot).memory = .ok top m₁)
    (hsecond : allocateKernelStack (slot + maxThreads) m₁ = .ok syscallTop m₂)
    (huser : call.mapsUserStack = true →
      allocateUserStack slot m₂ = .ok (userStackTop slot) m₃) :
    Spec (· = k) (call.fill slot) (fun t _ => t = slot) (fun _ _ => False) := by
  have hprepare : Spec (· = k) (prepareSlot slot) (fun _ k' => k'.memory = m₂)
      (fun _ _ => False) := by
    refine Spec.bind (Spec.update fun _ hk => by rw [hk] :
      Spec _ _ (fun _ => (· = k.releaseResources slot)) _) fun _ => ?_
    refine Spec.bind_get fun k₁ hk₁ => ?_
    subst hk₁
    refine Spec.ite (fun _ => ?_) fun hbad => ?_
    · refine Spec.bind ((ofMemory_ok hfirst).conseq (fun _ hk => by rw [hk])
        (fun _ _ hk => hk.2) fun _ _ hk => hk) fun _ => ?_
      refine Spec.bind (?_ : Spec _ _ (fun _ (k' : Kernel) => k'.memory = m₁) _) fun _ => ?_
      · exact Spec.update fun _ hk => hk
      refine Spec.bind ((ofMemory_ok hsecond).conseq (fun _ hk => hk)
        (fun _ _ hk => hk.2) fun _ _ hk => hk) fun _ => ?_
      exact Spec.update fun _ hk => hk
    · rw [stackAllocated_released] at hbad
      exact absurd Bool.false_ne_true hbad
  have htop : ¬ userStackTop slot < 8 := by
    have hlt : slot < 8 := hslot
    have hend : userSpaceEnd = 2 ^ 47 := by decide
    simp only [userStackTop, userStackPages, pageSize, hend]
    omega
  cases call with
  | spawn entry =>
    refine Spec.bind hprepare fun _ => ?_
    exact Spec.bind (Spec.update fun _ _ => trivial : Spec _ _ (fun _ _ => True) _)
      fun _ => Spec.pure fun _ _ => rfl
  | spawnUserForProcess process entry argument tlsBase initialStack =>
    refine Spec.bind hprepare fun _ => ?_
    refine Spec.bind (?_ : Spec _ _ (fun _ _ => True) _) fun chosen => ?_
    · cases initialStack with
      | some stack => exact Spec.pure fun _ _ => trivial
      | none =>
        refine Spec.bind_read fun k₁ _ => ?_
        refine Spec.bind (ofMemory_ok (huser rfl)) fun stackTop => Spec.and_pre fun htop' => ?_
        refine Spec.bind (Spec.update fun _ _ => trivial : Spec _ _ (fun _ _ => True) _)
          fun _ => ?_
        refine Spec.ite (fun hbad => ?_) fun _ => Spec.pure fun _ _ => trivial
        rw [htop'] at hbad
        exact absurd hbad htop
    · exact Spec.bind (Spec.update fun _ _ => trivial : Spec _ _ (fun _ _ => True) _)
        fun _ => Spec.pure fun _ _ => rfl

end Stops

/-! ## Releasing the old stacks -/

section Released

variable {boot : Nat} {base : Memory} {places : Places} {s : SpaceState} {k : Kernel}
  {slot : Nat}

/-- `release_resources` keeps the page tables sound and takes the stacks of the
exited thread from the address spaces. -/
theorem released_separate (h : Separate boot base places s) (hm : k.memory = s.memory)
    (hactive : s.memory.activeAddressSpace ∈ s.live) (hslot : k.reusableSlot = some slot) :
    ∃ places' s', Separate boot base places' s' ∧ s'.live = s.live ∧ s'.inHand = s.inHand ∧
      s'.memory = (k.releaseResources slot).memory ∧ s'.memory.cr3 = s.memory.cr3 ∧
      Unmaps (StackOfExited k slot) s.live k.memory s'.memory := by
  obtain ⟨-, hlt, hstate, hreapable⟩ := reusableSlot_some hslot
  obtain ⟨hfirst, hsecond⟩ := stacksInWindow hlt
  unfold releaseResources
  dsimp only
  by_cases hstack : (k.threads slot).stackAllocated = true
  · rw [if_neg (not_not.mpr hstack)]
    obtain ⟨places₁, s₁, h₁, hlive₁, hhand₁, hm₁, hcr₁, hun₁⟩ := h.releaseKernelStack hfirst
    obtain ⟨places₂, s₂, h₂, hlive₂, hhand₂, hm₂, hcr₂, hun₂⟩ := h₁.releaseKernelStack hsecond
    rw [← hm₁, ← hm] at hun₁
    rw [← hm₂, hlive₁] at hun₂
    have hun := hun₁.trans hun₂
    rw [hm₁, ← hm] at hm₂
    by_cases howns : (k.threads slot).ownsUserStack = true
    · have hactive₂ : s₂.memory.activeAddressSpace = s.memory.activeAddressSpace :=
        congrArg target (hcr₂.trans hcr₁)
      obtain ⟨places₃, s₃, h₃, hlive₃, hhand₃, hm₃, hcr₃, hun₃⟩ :=
        h₂.releaseUserStack (by rw [hactive₂, hlive₂, hlive₁]; exact hactive) slot
      rw [← hm₃, hlive₂, hlive₁] at hun₃
      refine ⟨places₃, s₃, h₃, hlive₃.trans (hlive₂.trans hlive₁),
        hhand₃.trans (hhand₂.trans hhand₁), ?_, hcr₃.trans (hcr₂.trans hcr₁),
        (hun.trans hun₃).mono ?_⟩
      · rw [hm₃, hm₂, if_pos howns]
        rfl
      · rintro r v ((hv | hv) | ⟨hr, hv⟩)
        · exact ⟨hstate, hreapable, hstack, .inl hv⟩
        · exact ⟨hstate, hreapable, hstack, .inr (.inl hv)⟩
        · refine ⟨hstate, hreapable, hstack, .inr (.inr ⟨howns, ?_, hv⟩)⟩
          rw [hr, hactive₂, hm]
    · refine ⟨places₂, s₂, h₂, hlive₂.trans hlive₁, hhand₂.trans hhand₁, ?_,
        hcr₂.trans hcr₁, hun.mono ?_⟩
      · rw [hm₂, if_neg howns]
        rfl
      · rintro r v (hv | hv)
        · exact ⟨hstate, hreapable, hstack, .inl hv⟩
        · exact ⟨hstate, hreapable, hstack, .inr (.inl hv)⟩
  · rw [if_pos hstack]
    exact ⟨places, s, h, rfl, rfl, hm.symm, rfl, by rw [hm]; exact .refl⟩

/-- A slot without stacks has none to lose, whatever the memory is. -/
theorem releaseResources_twice (k : Kernel) (slot : ThreadId) (memory : Memory) :
    ({ k.releaseResources slot with memory } : Kernel).releaseResources slot =
      { k.releaseResources slot with memory } := by
  have hnot := stackAllocated_released k slot
  generalize k.releaseResources slot = k₁ at hnot
  unfold Kernel.releaseResources
  dsimp only
  exact if_pos (Bool.eq_false_iff.mp hnot)

/-- The stacks of a slot lie in the window and in user space. -/
theorem canonical_pages (call : Creation) (hslot : slot < maxThreads) :
    ∀ v ∈ call.pages slot, CanonicalAddress v := by
  intro v hv
  obtain ⟨hfirst, hsecond⟩ := stacksInWindow hslot
  have hwindow : ∀ {stack}, StackInWindow stack → v ∈ kernelStack stack →
      CanonicalAddress v := by
    intro stack hstack hmem
    obtain ⟨hlo, hhi⟩ := mem_kernelStack hstack hmem
    have hguard : 2 ^ 64 - 2 ^ 47 ≤ kernelStackGuardPage := by decide
    have hend : windowEnd ≤ 2 ^ 64 := by decide
    apply Or.inr
    omega
  unfold Creation.pages at hv
  rcases List.mem_append.mp hv with hv | hv
  · rcases List.mem_append.mp hv with hv | hv
    · exact hwindow hfirst hv
    · exact hwindow hsecond hv
  · split at hv
    · exact .inl (userStack_lt hv)
    · cases hv

/-- A slot without mapped stacks can be filled once enough frames are free. -/
theorem staysUsable_released {call : Creation} (h : Separate boot base places s)
    (hm : k.memory = s.memory) (hactive : s.memory.activeAddressSpace ∈ s.live)
    (hslot : call.slot k = some slot)
    (hunmapped : ∀ v ∈ call.pages slot, (k.releaseResources slot).memory.translate v = none) :
    StaysUsable boot s call slot (k.releaseResources slot) := by
  have hlt := (reusableSlot_some (Creation.reusable hslot)).2.1
  obtain ⟨places₁, s₁, h₁, hlive, hhand, hm₁, hcr3, -⟩ :=
    released_separate h hm hactive (Creation.reusable hslot)
  refine ⟨hunmapped, fun later hrun hcard => ?_⟩
  have hstart : Vacant boot base s.memory.cr3 (call.pages slot)
      { s with memory := (k.releaseResources slot).memory } := by
    rw [← hm₁]
    refine ⟨⟨places₁, ?_⟩, hcr3, ?_, ?_⟩
    · exact h₁.congr rfl hlive.symm hhand.symm
    · rw [show s₁.memory.activeAddressSpace = s.memory.activeAddressSpace from
        congrArg target hcr3]
      exact hactive
    · rw [hm₁]
      exact hunmapped
  have hvacant := hstart.run (canonical_pages call hlt) hrun
  obtain ⟨places₂, h₂⟩ := hvacant.separate
  have hnone : ∀ v ∈ call.pages slot,
      later.memory.lookup later.memory.activeAddressSpace v = none := by
    intro v hv
    apply lookup_of_translate
    exact hvacant.unmapped v hv
  obtain ⟨top, m₁, syscallTop, m₂, m₃, hx₁, hx₂, hx₃⟩ :=
    h₂.allocateStacks_ok hvacant.active hlt hnone hcard
  rw [show later.memory = (({ k.releaseResources slot with memory := later.memory } :
    Kernel).releaseResources slot).memory by rw [releaseResources_twice]] at hx₁
  have hquiet : Quiet k { k.releaseResources slot with memory := later.memory } :=
    (k.quiet_releaseResources slot).trans (quiet_memory _ _)
  rw [Creation.run_of_some ((Creation.slot_quiet hquiet).trans hslot)]
  have hend := fill_ok hlt hx₁ hx₂ hx₃ _ rfl
  cases hx : call.fill slot { k.releaseResources slot with memory := later.memory } with
  | ok t k' =>
    rw [hx] at hend
    obtain rfl : t = slot := hend
    exact ⟨k', rfl⟩
  | error e k' =>
    rw [hx] at hend
    exact hend.elim

end Released

/-! ## Atomic failures -/

section Atomic

variable {config : PagingConfig} {boot frame : Nat} {base : Memory} {places : Places}
  {s : SpaceState} {k k' : Kernel} {call : Creation} {slot : Nat}

/-- A call that fails after it has found a free frame keeps that frame, which is
neither free nor a page table. -/
theorem not_atomic_of_free (h : Separate boot base places s) (hm : k.memory = s.memory)
    (hactive : s.memory.activeAddressSpace ∈ s.live) (hslot : call.slot k = some slot)
    (hfree : (k.releaseResources slot).memory.frames.IsFree frame)
    (hfailed : call.run k = .error .failed k') : ¬ FailsAtomically boot s call k k' := by
  intro hatomic
  have hreusable := Creation.reusable hslot
  obtain ⟨places₁, s₁, h₁, hlive₁, -, hm₁, hcr3, -⟩ := released_separate h hm hactive hreusable
  have hlt := (reusableSlot_some hreusable).2.1
  have hactive₁ : s₁.memory.activeAddressSpace ∈ s₁.live := by
    rw [hlive₁, show s₁.memory.activeAddressSpace = s.memory.activeAddressSpace from
      congrArg target hcr3]
    exact hactive
  rw [Creation.run_of_some hslot] at hfailed
  rw [← hm₁] at hfree
  cases halloc : s₁.memory.frames.allocate with
  | mk result frames =>
    cases result with
    | none =>
      have hnone : s₁.memory.frames.allocate.1 = none := by rw [halloc]
      exact (FrameAllocator.allocate_eq_none_iff _).mp hnone frame hfree
    | some first =>
      have hfirst := (FrameAllocator.allocate_some halloc).1
      obtain ⟨places₂, s₂, h₂, hm₂, hactive₂, hheld⟩ :=
        (holding_fill h₁ hm₁ hactive₁ hlt halloc).error rfl hfailed
      have hboot : ¬ BootFrame base boot first := fun hbad => (h₁.fixed first hbad).2.1 hfirst
      have hreleased : (call.released k).memory = s₁.memory := by
        unfold Creation.released
        rw [hslot, hm₁]
      have hfate := hatomic.frames first (by rw [hreleased]; exact hfirst)
      rw [← hm₂] at hfate
      rcases hfate with hbad | hbad
      · exact hheld.1 hbad
      · exact hheld.not_pageTable h₂ hactive₂ hboot hbad.1

/-- A call that has only released the old stacks has left nothing behind. -/
theorem atomic_of_stops (h : Separate boot base places s) (hm : k.memory = s.memory)
    (hactive : s.memory.activeAddressSpace ∈ s.live) (hslot : call.slot k = some slot)
    (hunmapped : ∀ v ∈ call.pages slot, (k.releaseResources slot).memory.translate v = none) :
    FailsAtomically boot s call k (k.releaseResources slot) := by
  obtain ⟨places₁, s₁, h₁, -, -, hm₁, -, hun⟩ :=
    released_separate h hm hactive (Creation.reusable hslot)
  refine ⟨?_, fun frame hfree => .inl ?_, fun t ht => ?_⟩
  · rw [← hm₁]
    exact hun.mono fun space v hstack => ⟨slot, hslot, hstack⟩
  · unfold Creation.released at hfree
    rwa [hslot] at hfree
  · obtain rfl := Option.some.inj (hslot.symm.trans ht)
    exact staysUsable_released h hm hactive hslot hunmapped

/-- A thread creation that fails leaves nothing behind exactly when it has not
found a single free frame and the slot that it has tried is not mapped. -/
theorem failed_creation_atomic (h : SpacesReached config Always boot base s)
    (hm : k.memory = s.memory) (hactive : s.memory.activeAddressSpace ∈ s.live)
    (hfailed : call.run k = .error .failed k') :
    FailsAtomically boot s call k k' ↔ StopsAtOnce call k := by
  obtain ⟨places, hsep, -⟩ := h.separate
  cases hslot : call.slot k with
  | none =>
    have hstops : StopsAtOnce call k := by
      intro slot hbad
      rw [hslot] at hbad
      cases hbad
    rw [Creation.run_of_none hslot] at hfailed
    cases hfailed
    refine iff_of_true ⟨.refl, fun frame hfree => .inl ?_, fun slot hbad => ?_⟩ hstops
    · unfold Creation.released at hfree
      rwa [hslot] at hfree
    · rw [hslot] at hbad
      cases hbad
  | some slot =>
    constructor
    · intro hatomic t ht
      obtain rfl := Option.some.inj (hslot.symm.trans ht)
      have hnone : ∀ frame, ¬ (k.releaseResources slot).memory.frames.IsFree frame :=
        fun frame hfree => not_atomic_of_free hsep hm hactive hslot hfree hfailed hatomic
      rw [Creation.run_of_some hslot,
        fill_stops ((FrameAllocator.allocate_eq_none_iff _).mpr hnone)] at hfailed
      cases hfailed
      exact ⟨hnone, (hatomic.usable slot hslot).unmapped⟩
    · intro hstops
      obtain ⟨hnone, hunmapped⟩ := hstops slot hslot
      rw [Creation.run_of_some hslot,
        fill_stops ((FrameAllocator.allocate_eq_none_iff _).mpr hnone)] at hfailed
      cases hfailed
      exact atomic_of_stops hsep hm hactive hslot hunmapped

end Atomic

/-- PID 1 in the first address space of the bare machine, with every thread slot
exited and reapable. -/
def onlyFirst (memory : Memory) : Kernel :=
  { initial memory with
    processes := put (fun _ => .empty) 0
      { id := userProcessId, addressSpace := 0x103000, parent := none, mainThread := none } }

/-- A thread without a stack of its own. -/
def stackless (process : ProcessId) : Creation :=
  .spawnUserForProcess process futureUserSpaceBase 0 0 none

/-- A run of the bare machine to a creation that fails. -/
theorem failure_of_run {process : ProcessId} {actions : List SpaceAction} {p : Kernel → Bool}
    (h : (spacesAfter Always actions).any (fun s =>
      decide (s.memory.activeAddressSpace ∈ s.live) && p (onlyFirst s.memory) &&
        match (stackless process).run (onlyFirst s.memory) with
        | .error .failed _ => true
        | _ => false) = true) :
    ∃ (base : Memory) (s : SpaceState) (k' : Kernel),
      SpacesReached upperHalfConfig Always 0x1000 base s ∧
      s.memory.activeAddressSpace ∈ s.live ∧ p (onlyFirst s.memory) = true ∧
      (stackless process).run (onlyFirst s.memory) = .error .failed k' := by
  obtain ⟨s, hs, hfound⟩ := (Option.any_eq_true _ _).mp h
  obtain ⟨base, hreached⟩ := spacesReached_after hs
  rw [Bool.and_eq_true, Bool.and_eq_true] at hfound
  obtain ⟨⟨hactive, hp⟩, hfailed⟩ := hfound
  split at hfailed
  · rename_i k' hrun
    exact ⟨base, s, k', hreached, of_decide_eq_true hactive, hp, hrun⟩
  · cases hfailed

/-- The frames that are free after the first address space is made, when frames
256 to 309 are free before. -/
def fiftyFrames : List Nat := (List.range' 260 50).map (· * pageSize)

theorem card_of_fiftyFrames {a : FrameAllocator} (h : ∀ frame ∈ fiftyFrames, a.IsFree frame) :
    enoughFrames ≤ a.freeSet.card := by
  have hcard : fiftyFrames.toFinset.card = 50 := by decide +kernel
  have hsub : fiftyFrames.toFinset ⊆ a.freeSet := by
    intro frame hframe
    apply (FrameAllocator.mem_freeSet a frame).mpr
    exact h frame (List.mem_toFinset.mp hframe)
  have hle := Finset.card_le_card hsub
  unfold enoughFrames
  omega

set_option maxRecDepth 100000 in
/-- The last fifty frames are in hand, so that the call does not find one for slot 1.
It fails, and succeeds once they are given back. -/
theorem failed_creation_atomic_scarce :
    ∃ (base : Memory) (s later : SpaceState) (k k' k'' : Kernel),
      SpacesReached upperHalfConfig Always 0x1000 base s ∧ k.memory = s.memory ∧
      (stackless userProcessId).slot k = some 1 ∧
      (stackless userProcessId).run k = .error .failed k' ∧
      FailsAtomically 0x1000 s (stackless userProcessId) k k' ∧
      (stackless userProcessId).run { k' with memory := later.memory } = .ok 1 k'' := by
  have hrun : (spacesFrom (scarceMemory (List.range' 256 54)) Always
      (.create :: .switch 0x103000 :: List.replicate 50 .allocate)).any (fun s =>
        decide (s.memory.activeAddressSpace ∈ s.live) &&
        (decide ((stackless userProcessId).slot (onlyFirst s.memory) = some 1) &&
        (decide (s.memory.frames.frameBitmap.bytes = 2 ^ maxPhysicalFrames - 1) &&
        (decide (∀ v ∈ (stackless userProcessId).pages 1, s.memory.translate v = none) &&
        (exec (SpaceState.step 0x1000) (fun _ a => a.frees = true)
          (fiftyFrames.map .free) s).any fun later =>
            decide (∀ frame ∈ fiftyFrames, later.memory.frames.IsFree frame))))) = true := by
    decide +kernel
  obtain ⟨s, hs, hfound⟩ := (Option.any_eq_true _ _).mp hrun
  simp only [Bool.and_eq_true, decide_eq_true_iff] at hfound
  obtain ⟨hactive, hslot, hfull, hunmapped, hlater⟩ := hfound
  obtain ⟨later, hexec, hfree⟩ := (Option.any_eq_true _ _).mp hlater
  have hroot : target bareMemory.cr3 = 0x1000 := by decide
  obtain ⟨base, hreached⟩ := spacesReached_from
    (bootTables_scarceMemory (by decide)) hroot hs
  have hreleased : (onlyFirst s.memory).releaseResources 1 = onlyFirst s.memory := rfl
  have hnone : ∀ frame, ¬ ((onlyFirst s.memory).releaseResources 1).memory.frames.IsFree frame := by
    rw [hreleased]
    exact FrameAllocator.not_isFree_of_full hfull
  have hfailed : (stackless userProcessId).run (onlyFirst s.memory) =
      .error .failed (onlyFirst s.memory) := by
    rw [Creation.run_of_some hslot,
      fill_stops ((FrameAllocator.allocate_eq_none_iff _).mpr hnone), hreleased]
  have hatomic := (failed_creation_atomic hreached rfl hactive hfailed).mpr (by
    intro slot hslot'
    obtain rfl := Option.some.inj (hslot.symm.trans hslot')
    exact ⟨hnone, hunmapped⟩)
  obtain ⟨k'', hsucceeds⟩ := (hatomic.usable 1 hslot).succeeds later (run_of_exec hexec)
    (card_of_fiftyFrames (of_decide_eq_true hfree))
  exact ⟨base, s, later, _, _, k'', hreached, rfl, hslot, hfailed, hatomic, hsucceeds⟩

set_option maxRecDepth 100000 in
/-- A page of the user stack is mapped, so that the call fails with both kernel
stacks mapped and one more frame lost. -/
theorem failed_creation_leaks : ∃ (base : Memory) (s : SpaceState) (k k' : Kernel),
    SpacesReached upperHalfConfig Always 0x1000 base s ∧ k.memory = s.memory ∧
      s.memory.activeAddressSpace ∈ s.live ∧
      (stackless userProcessId).run k = .error .failed k' ∧
      ¬ FailsAtomically 0x1000 s (stackless userProcessId) k k' := by
  have hrun : (spacesAfter Always [.create, .switch 0x103000, .allocate,
      .mapIn 0x103000 (userStackTop 1 - pageSize) 0x104000 .userReadWrite]).any (fun s =>
      decide (s.memory.activeAddressSpace ∈ s.live) &&
        ((stackless userProcessId).slot (onlyFirst s.memory) == some 1 &&
          decide (((onlyFirst s.memory).releaseResources 1).memory.frames.IsFree 0x108000)) &&
        match (stackless userProcessId).run (onlyFirst s.memory) with
        | .error .failed _ => true
        | _ => false) = true := by
    decide +kernel
  obtain ⟨base, s, k', hreached, hactive, hp, hfailed⟩ :=
    @failure_of_run userProcessId _ (fun k => (stackless userProcessId).slot k == some 1 &&
      decide ((k.releaseResources 1).memory.frames.IsFree 0x108000)) hrun
  rw [Bool.and_eq_true, beq_iff_eq, decide_eq_true_iff] at hp
  obtain ⟨places, hsep, -⟩ := hreached.separate
  exact ⟨base, s, _, k', hreached, rfl, hactive, hfailed,
    not_atomic_of_free hsep rfl hactive hp.1 hp.2 hfailed⟩

end OpenKernel.Kernel
