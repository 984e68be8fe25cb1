import OpenKernel.Kernel.Instances
import OpenKernel.Memory.ActiveTable
import OpenKernel.Memory.Entries

/-!
# The active address space

Between two switches the active page table stays the same: a call that fills
another space, or that switches to it for a moment, comes back to the space
of its caller.  A switch to another user thread loads the space of its
process.  So a user thread runs in the space of its process as long as this
process has a record (`Home.step`).
-/

namespace OpenKernel

open Lib

namespace Kernel

open KernelCall

/-- `active_address_space()`. -/
def activeSpace (k : Kernel) : Nat := k.memory.activeAddressSpace

/-- A call leaves CR3 as it is, whether it returns or fails. -/
def KeepsActive {α : Type} (x : KernelCall α) : Prop :=
  ∀ cr3, Keeps (fun k : Kernel => k.memory.cr3 = cr3) x

/-! ## Calls that stay in the active space -/

section Calls

variable {α : Type} {k k' : Kernel}

theorem keepsActive_ofMemory {ε : Type} {x : EStateM ε Memory α} (h : KeepsTable x) :
    KeepsActive (ofMemory x) := by
  intro cr3 k hk
  have hx := h cr3 k.memory hk
  unfold ofMemory
  cases hxm : x k.memory with
  | ok a memory =>
    rw [hxm] at hx
    exact hx
  | error e memory =>
    rw [hxm] at hx
    exact hx

theorem keepsActive_modify {f : Kernel → Kernel}
    (h : ∀ k, (f k).memory.cr3 = k.memory.cr3) :
    KeepsActive (modify f : KernelCall PUnit) :=
  fun _ => Spec.update fun k hk => (h k).trans hk

theorem cr3_releaseResources (k : Kernel) (slot : ThreadId) :
    (k.releaseResources slot).memory.cr3 = k.memory.cr3 := by
  unfold releaseResources
  dsimp only
  split
  · rfl
  · have hkernel : ((k.memory.releaseKernelStack slot).releaseKernelStack
        (slot + maxThreads)).cr3 = k.memory.cr3 :=
      (Memory.cr3_releasePages _ _).trans (Memory.cr3_releasePages _ _)
    show (if (k.threads slot).ownsUserStack then _ else _ : Memory).cr3 = _
    split
    · exact (Memory.cr3_releasePages _ _).trans hkernel
    · exact hkernel

theorem keepsActive_prepareSlot (slot : ThreadId) : KeepsActive (prepareSlot slot) := by
  intro cr3
  refine Spec.bind (keepsActive_modify (fun k => k.cr3_releaseResources slot) cr3)
    fun _ => ?_
  refine Spec.bind_read fun _ _ => ?_
  refine Spec.ite (fun _ => ?_) fun _ => Spec.pure fun _ hk => hk
  refine Spec.bind (keepsActive_ofMemory (.allocateKernelStack _) cr3) fun stackTop => ?_
  refine Spec.bind (keepsActive_modify (fun k => ?_) cr3) fun _ => ?_
  · rfl
  refine Spec.bind (keepsActive_ofMemory (.allocateKernelStack _) cr3)
    fun syscallStackTop => ?_
  exact keepsActive_modify (fun _ => rfl) cr3

theorem keepsActive_chooseUserStack (slot : ThreadId) (stack : Option Nat) :
    KeepsActive (chooseUserStack slot stack) := by
  intro cr3
  cases stack with
  | some stack => exact Spec.pure fun _ hk => hk
  | none =>
    refine Spec.bind_read fun _ _ => ?_
    refine Spec.bind (keepsActive_ofMemory (.allocateUserStack _) cr3) fun stackTop => ?_
    refine Spec.bind (keepsActive_modify (fun k => ?_) cr3) fun _ => ?_
    · rfl
    refine Spec.ite (fun _ => ?_) fun _ => Spec.pure fun _ hk => hk
    exact Spec.bind (Spec.throw fun _ hk => hk) fun _ => Spec.pure fun _ hk => hk

theorem cr3_install (k : Kernel) (slot : ThreadId) (thread : Thread) :
    (k.install slot thread).memory = k.memory := by
  unfold install enqueue
  split <;> rfl

theorem keepsActive_spawn (entry : Nat) : KeepsActive (spawn entry) := by
  intro cr3
  refine Spec.bind_read fun k _ => ?_
  refine Spec.bind (spec_ofOption _) fun slot => Spec.and_pre fun _ => ?_
  refine Spec.bind (keepsActive_prepareSlot slot cr3) fun _ => ?_
  refine Spec.bind (keepsActive_modify (fun k => ?_) cr3) fun _ => Spec.pure fun _ hk => hk
  rw [cr3_install]

theorem keepsActive_spawnUserForProcess (process : ProcessId)
    (entry argument tlsBase : Nat) (stack : Option Nat) :
    KeepsActive (spawnUserForProcess process entry argument tlsBase stack) := by
  intro cr3
  refine Spec.bind_read fun k _ => ?_
  refine Spec.ite (fun _ => Spec.bind_throw fun _ hk => hk) fun _ => ?_
  refine Spec.bind_read fun k _ => ?_
  refine Spec.bind (spec_ofOption _) fun slot => Spec.and_pre fun _ => ?_
  refine Spec.bind (keepsActive_prepareSlot slot cr3) fun _ => ?_
  refine Spec.bind (keepsActive_chooseUserStack slot stack cr3) fun chosen => ?_
  refine Spec.bind (keepsActive_modify (fun k => ?_) cr3) fun _ => Spec.pure fun _ hk => hk
  rw [cr3_install]

theorem keepsActive_spawnUser (entry argument tlsBase : Nat) (stack : Option Nat) :
    KeepsActive (spawnUser entry argument tlsBase stack) := by
  intro cr3
  refine Spec.bind_read fun k _ => ?_
  refine Spec.ite (fun _ => Spec.bind_throw fun _ hk => hk) fun _ => ?_
  exact keepsActive_spawnUserForProcess _ _ _ _ _ cr3

theorem keepsTable_extendHeap (pages page : Nat) : KeepsTable (extendHeap pages page) := by
  induction pages generalizing page with
  | zero => exact .pure _
  | succ pages ih =>
    refine .bind .allocatePhysicalFrame fun frame => ?_
    refine .bind (.modify fun _ => rfl) fun _ => ?_
    exact .bind (.mapUserPageWithFlags _ _ _) fun _ => ih _

theorem keepsActive_brk (requestedBreak : Nat) : KeepsActive (brk requestedBreak) := by
  intro cr3
  refine Spec.bind_get fun k hk => ?_
  have hstart : ∀ s, s = k → s.memory.cr3 = cr3 := by
    intro s hs
    rw [hs]
    exact hk
  refine Spec.ite (fun _ => Spec.pure hstart) fun _ => ?_
  refine Spec.ite (fun _ => Spec.bind_throw hstart) fun _ => ?_
  refine Spec.ite (fun _ => fun s _ => hk) fun _ => ?_
  refine Spec.conseq ?_ hstart (fun _ _ h => h) (fun _ _ h => h)
  refine Spec.bind (keepsActive_ofMemory (keepsTable_extendHeap _ _) cr3) fun _ => ?_
  refine Spec.bind (keepsActive_modify (fun k => ?_) cr3) fun _ => Spec.pure fun _ hk => hk
  rfl

/-- The startup block of a program.  All that can go wrong is a page fault. -/
theorem initializeProgram_active (loaded : LoadedImage) (name : List UInt8)
    (argv : List (List UInt8)) (cr3 : Nat) :
    Spec (fun k : Kernel => k.memory.cr3 = cr3) (initializeProgram loaded name argv)
      (fun _ k => k.memory.cr3 = cr3) (fun e _ => e = .halted) := by
  have haccess : ∀ {x : Memory → Option Memory},
      (∀ m m', x m = some m' → m'.cr3 = m.cr3) →
      Spec (fun k : Kernel => k.memory.cr3 = cr3) (ofAccess x)
        (fun _ k => k.memory.cr3 = cr3) (fun e _ => e = .halted) := by
    intro x hx k hk
    unfold ofAccess
    cases hxm : x k.memory with
    | none => rfl
    | some memory => exact (hx _ _ hxm).trans hk
  refine Spec.bind (?_ : Spec _ _ (fun _ k => k.memory.cr3 = cr3) _) fun stackPointer => ?_
  · refine Spec.bind (Spec.forM fun _ _ => haccess fun m m' => Memory.cr3_storeBytes)
      fun _ => ?_
    refine Spec.bind (Spec.forM fun _ _ => haccess fun m m' => Memory.cr3_storeWord)
      fun _ => ?_
    exact Spec.pure fun _ hk => hk
  · refine Spec.ite (fun _ => ?_) fun _ => Spec.pure fun _ hk => hk
    exact Spec.bind (haccess fun m m' => Memory.cr3_storeWord) fun _ =>
      Spec.pure fun _ hk => hk

/-- What an operation keeps that leaves CR3 alone, in terms of the space. -/
theorem KeepsActive.space {x : KernelCall α} (h : KeepsActive x) (space : Nat) :
    Keeps (fun k : Kernel => k.activeSpace = space) x := by
  intro k hk
  have hx := h k.memory.cr3 k rfl
  have hspace : ∀ k' : Kernel, k'.memory.cr3 = k.memory.cr3 → k'.activeSpace = space := by
    intro k' hk'
    show target k'.memory.cr3 = space
    rw [hk']
    exact hk
  cases hxk : x k with
  | ok a k' =>
    rw [hxk] at hx
    exact hspace k' hx
  | error e k' =>
    rw [hxk] at hx
    exact hspace k' hx

theorem keepsActive_createProcess (addressSpace : Nat) :
    KeepsActive (ofResult (·.createProcess addressSpace)) := by
  intro cr3 k hk
  have hmemory : (k.createProcess addressSpace).2.memory = k.memory := by
    unfold createProcess
    split <;> rfl
  unfold ofResult
  dsimp only
  cases hx : k.createProcess addressSpace with
  | mk process k' =>
    rw [hx] at hmemory
    have hk' : k'.memory.cr3 = cr3 := (congrArg Memory.cr3 hmemory).trans hk
    cases process <;> exact hk'

/-- `user::spawn` works in the new space and comes back, unless it halts. -/
theorem spawnProgram_space (path : List UInt8) (image : Option (List UInt8))
    (argv : List (List UInt8)) (space : Nat) :
    Spec (fun k : Kernel => k.activeSpace = space) (spawnProgram path image argv)
      (fun _ k => k.activeSpace = space)
      (fun e k => e = .failed → k.activeSpace = space) := by
  have hfail : ∀ (e : Stop) (k : Kernel), k.activeSpace = space →
      e = .failed → k.activeSpace = space := fun _ _ h _ => h
  refine Spec.bind ((spec_ofOption image).mono_fail hfail)
    fun image => Spec.and_pre fun _ => ?_
  have hkeep : ∀ {β : Type} {x : KernelCall β}, KeepsActive x →
      Spec (fun k : Kernel => k.activeSpace = space) x (fun _ k => k.activeSpace = space)
        (fun e k => e = .failed → k.activeSpace = space) :=
    fun hx => (hx.space space).mono_fail hfail
  refine Spec.bind (hkeep (keepsActive_ofMemory .createUserAddressSpace))
    fun addressSpace => ?_
  refine Spec.bind (hkeep (keepsActive_createProcess _)) fun process => ?_
  refine Spec.bind (hkeep (keepsActive_modify fun k => ?_)) fun _ => ?_
  · rfl
  refine Spec.bind (hkeep (keepsActive_ofMemory (.loadUserElfInto _ _ _))) fun loaded => ?_
  refine Spec.bind (hkeep (keepsActive_modify fun k => ?_)) fun _ => ?_
  · rfl
  refine Spec.bind_read fun k hk => ?_
  refine Spec.bind (Spec.update fun k _ => ?_ :
    Spec _ _ (fun _ k => k.memory.cr3 = addressSpace) _) fun _ => ?_
  · rfl
  refine Spec.bind ((initializeProgram_active loaded path argv addressSpace).mono_fail
    fun e k he hfailed => ?_) fun stackPointer => ?_
  · rw [he] at hfailed
    cases hfailed
  refine Spec.bind (Spec.update fun k' _ => ?_ :
    Spec _ _ (fun _ k => k.activeSpace = space) _) fun _ => ?_
  · show target (target k.memory.cr3) = space
    rw [target_target]
    exact hk
  refine Spec.bind (hkeep (keepsActive_spawnUserForProcess _ _ _ _ _)) fun thread => ?_
  refine Spec.bind (hkeep (keepsActive_modify fun k => ?_)) fun _ => Spec.pure fun _ hk => hk
  unfold setProcessMainThread
  split <;> rfl

end Calls

/-! ## Steps -/

/-- The address space of a process that has a record. -/
def spaceOf (k : Kernel) (p : ProcessId) : Nat :=
  target (k.processes (p - 1)).addressSpace

/-- The current thread is not a user thread, or the space of its process is
active. -/
def Entered (k : Kernel) : Prop :=
  (k.threads k.currentThread).isUser = true →
    ∀ p, (k.threads k.currentThread).process = some p → k.HasRecord p →
      k.activeSpace = k.spaceOf p

/-- The processor has not gone to another thread or to another space. -/
structure Stays (k k' : Kernel) : Prop where
  currentThread : k'.currentThread = k.currentThread
  space : k'.activeSpace = k.activeSpace

/-- The processor has stayed, or it has loaded the space of its thread. -/
def Moved (k k' : Kernel) : Prop := k'.Records → Stays k k' ∨ k'.Entered

section Moved

variable {k k' k'' : Kernel}

theorem Stays.refl (k : Kernel) : Stays k k := ⟨rfl, rfl⟩

theorem Stays.trans (h : Stays k k') (h' : Stays k' k'') : Stays k k'' :=
  ⟨h'.currentThread.trans h.currentThread, h'.space.trans h.space⟩

theorem Stays.moved (h : Stays k k') : Moved k k' := fun _ => .inl h

theorem Moved.after (h : Moved k' k'') (hs : Stays k k') : Moved k k'' :=
  fun hr => (h hr).imp hs.trans id

theorem stays_woken (h : Woken k k') : Stays k k' where
  currentThread := h.currentThread
  space := congrArg Memory.activeAddressSpace h.memory

theorem Records.processAddressSpace (h : k.Records) {p : ProcessId}
    (hp : k.HasRecord p) :
    k.processAddressSpace p = some (k.processes (p - 1)).addressSpace := by
  obtain ⟨slot, hslot, rfl, hid⟩ := hp
  have hused : (k.processes slot).id ≠ noThread := by
    rw [hid]
    exact pid_ne_noThread hslot
  have hfind := h.findRecord_pid hslot hused
  rw [hid] at hfind
  unfold Kernel.processAddressSpace
  rw [hfind]
  rfl

/-- A switch loads the space of the next thread. -/
theorem moved_schedule (k : Kernel) (saved : Context) :
    Moved k (k.scheduleFromCurrent saved) := by
  intro hr
  obtain ⟨hd, -⟩ := k.schedule_spec saved
  generalize k.scheduleFromCurrent saved = k' at hd hr ⊢
  have hcr3 : k'.memory.cr3 = (k.spaceToEnter k'.currentThread).getD k.memory.cr3 := by
    rw [hd.memory]
  by_cases hcur : k'.currentThread = k.currentThread
  · refine .inl ⟨hcur, congrArg target ?_⟩
    rw [hcr3, spaceToEnter, if_neg fun h => h.1 hcur]
    rfl
  · refine .inr fun huser p hp hrec => congrArg target ?_
    have hspace := hr.processAddressSpace hrec
    unfold processAddressSpace findRecord at hspace
    rw [hd.processes] at hspace
    rw [hd.isUser] at huser
    rw [hd.process] at hp
    rw [hcr3, spaceToEnter, if_pos ⟨hcur, huser⟩, hp, hd.processes]
    exact congrArg (Option.getD · k.memory.cr3) hspace

theorem moved_enterAddressSpace (k : Kernel) :
    Moved k (k.enterAddressSpace k.currentThread) := by
  rw [enterAddressSpace_eq]
  intro hr
  refine .inr fun _ p hp hrec => congrArg target ?_
  have hspace := hr.processAddressSpace hrec
  show ((k.threads k.currentThread).process.bind k.processAddressSpace).getD _ = _
  change (k.threads k.currentThread).process = some p at hp
  rw [hp]
  exact congrArg (Option.getD · k.memory.cr3) hspace

theorem stays_returnValue (k : Kernel) (value : Nat) : Stays k (k.returnValue value) :=
  ⟨rfl, rfl⟩

theorem stays_enqueue (k : Kernel) (t : ThreadId) : Stays k (k.enqueue t) := by
  unfold enqueue
  split <;> exact ⟨rfl, rfl⟩

theorem stays_collect (k : Kernel) (p : ProcessId) (t : ThreadId) (status : Nat) :
    Stays k (k.collect p t status) := by
  unfold collect
  dsimp only
  split
  · exact ⟨rfl, rfl⟩
  · exact ⟨rfl, congrArg target (Memory.cr3_destroyUserAddressSpace _ _)⟩

theorem stays_finishWait (p : ProcessId) (t : ThreadId) (status : Option Nat)
    (k : Kernel) : Stays k (finishWait p t status k) := by
  cases status with
  | none => exact ⟨rfl, rfl⟩
  | some status => exact (k.stays_collect p t status).trans ⟨rfl, rfl⟩

theorem stays_markReapable (k : Kernel) (t : ThreadId) : Stays k (k.markReapable t) := by
  unfold markReapable
  split <;> exact ⟨rfl, rfl⟩

theorem stays_dropJoinWaiter (k : Kernel) (t : ThreadId) :
    Stays k (k.dropJoinWaiter t) := by
  unfold dropJoinWaiter
  split <;> exact ⟨rfl, rfl⟩

theorem stays_tryJoin (k : Kernel) (t : ThreadId) : Stays k (k.tryJoin t).2 := by
  unfold tryJoin
  dsimp only
  split
  · exact .refl k
  · exact k.stays_markReapable t

theorem stays_reparent (k : Kernel) (t : ThreadId) :
    Stays k (k.reparentChildrenOfExitedProcess t) := by
  unfold reparentChildrenOfExitedProcess
  split
  · exact .refl k
  · rename_i slot _
    obtain ⟨log, heq, -⟩ := k.reparentChildren_spec (k.processes slot).id t
    rw [heq]
    exact ⟨rfl, rfl⟩

theorem moved_yieldNow (k : Kernel) : Moved k k.yieldNow := by
  unfold yieldNow
  dsimp only
  split
  · exact (Stays.refl k).moved
  · split
    · exact k.moved_schedule _
    · refine (moved_schedule _ _).after (Stays.trans ?_ (stays_enqueue _ _))
      exact ⟨rfl, rfl⟩

theorem moved_blockCurrent (k : Kernel) (saved : Context) :
    Moved k (k.blockCurrent saved) := by
  unfold blockCurrent
  dsimp only
  split
  · exact Stays.moved ⟨rfl, rfl⟩
  · exact (moved_schedule _ _).after ⟨rfl, rfl⟩

theorem moved_join (k : Kernel) (t : ThreadId) (saved : Context)
    {goOn : Option Nat → Kernel → Kernel} (hgo : ∀ status k, Stays k (goOn status k)) :
    Moved k (k.join t saved goOn) := by
  unfold join
  dsimp only
  split
  · exact (hgo _ _).moved
  · split
    · exact ((k.stays_markReapable t).trans (hgo _ _)).moved
    · split
      · exact (hgo _ _).moved
      · exact (moved_blockCurrent _ _).after ⟨rfl, rfl⟩

theorem stays_finishJoin (k : Kernel) (t : ThreadId)
    {goOn : Option Nat → Kernel → Kernel} (hgo : ∀ status k, Stays k (goOn status k)) :
    Stays k (k.finishJoin t goOn) := by
  unfold finishJoin
  dsimp only
  split
  · exact hgo _ _
  · exact ((k.stays_dropJoinWaiter t).trans (stays_markReapable _ t)).trans (hgo _ _)

theorem stays_finishJoinCall (status : Option Nat) (k : Kernel) :
    Stays k (finishJoinCall status k) := ⟨rfl, rfl⟩

theorem moved_exitCurrent (k : Kernel) (status : Nat) : Moved k (k.exitCurrent status) := by
  unfold exitCurrent
  dsimp only
  split
  · exact (Stays.refl k).moved
  · refine (moved_schedule _ _).after (Stays.trans ?_ (stays_reparent _ _))
    have hwoken := fun k₁ : Kernel => stays_woken (k₁.woken_wakeJoinWaiters k.currentThread)
    exact ⟨(hwoken _).currentThread, (hwoken _).space⟩

/-- A call of a kernel function that can fail. -/
theorem stays_call {x : KernelCall Nat}
    (hx : Spec (fun s : Kernel => s.activeSpace = k.activeSpace) x
      (fun _ s => s.activeSpace = k.activeSpace)
      (fun e s => e = .failed → s.activeSpace = k.activeSpace))
    (hcurrent : k'.currentThread = k.currentThread) (h : k.call x = some k') :
    Stays k k' := by
  have hspec := hx k rfl
  unfold call at h
  cases hxk : x k with
  | ok value k₁ =>
    rw [hxk] at h hspec
    obtain rfl := Option.some.inj h
    exact ⟨hcurrent, hspec⟩
  | error e k₁ =>
    rw [hxk] at h hspec
    cases e with
    | failed =>
      obtain rfl := Option.some.inj h
      exact ⟨hcurrent, hspec rfl⟩
    | halted => cases h

theorem moved_goOn {c : Context} (h : k.goOn c = some k') : Moved k k' := by
  cases c with
  | trampoline =>
    unfold goOn startThread at h
    dsimp only at h
    split at h
    · obtain rfl := Option.some.inj h
      exact k.moved_enterAddressSpace
    · split at h
      · obtain rfl := Option.some.inj h
        exact (Stays.refl _).moved
      · obtain ⟨-, -, rfl⟩ := Option.map_eq_some_iff.mp h
        exact (Stays.refl _).moved
  | yielded | blocked =>
    obtain rfl := Option.some.inj h
    exact (Stays.refl _).moved
  | sleeping _ | futexWaiting _ _ =>
    obtain rfl := Option.some.inj h
    exact (stays_returnValue _ _).moved
  | joining t =>
    obtain rfl := Option.some.inj h
    exact (stays_finishJoin _ t stays_finishJoinCall).moved
  | waiting p t =>
    obtain rfl := Option.some.inj h
    exact (stays_finishJoin _ t (stays_finishWait p t)).moved
  | finished => cases h

end Moved

theorem stays_syscallReapAnyChild {k k' : Kernel} {pointer : Nat}
    (h : k.syscallReapAnyChild pointer = some k') : Stays k k' := by
  have hreap : Stays k k.reapAnyChild.2 := by
    unfold reapAnyChild
    split
    · exact .refl k
    · rename_i p t _
      have hjoin := k.stays_tryJoin t
      cases hx : k.tryJoin t with
      | mk status k₁ =>
        rw [hx] at hjoin
        cases status with
        | none => exact hjoin
        | some status => exact hjoin.trans (stays_collect _ _ _ _)
  unfold syscallReapAnyChild at h
  cases hx : k.reapAnyChild with
  | mk result k₁ =>
    rw [hx] at h hreap
    cases result with
    | none =>
      obtain rfl := Option.some.inj h
      exact hreap.trans (stays_returnValue k₁ _)
    | some found =>
      dsimp only at h
      split at h
      · obtain ⟨memory, hstore, rfl⟩ := Option.map_eq_some_iff.mp h
        refine ⟨hreap.currentThread, Eq.trans ?_ hreap.space⟩
        exact congrArg target (Memory.cr3_storeBytes hstore)
      · obtain rfl := Option.some.inj h
        exact hreap.trans (stays_returnValue k₁ _)

theorem stays_terminateProcess (k : Kernel) (p : ProcessId) :
    Stays k (k.terminateProcess p).2 := by
  unfold terminateProcess
  split
  · exact .refl k
  · rename_i t _
    split
    · exact .refl k
    · have hwoken := fun k₁ : Kernel => stays_woken (k₁.woken_wakeJoinWaiters t)
      exact ⟨(hwoken _).currentThread, (hwoken _).space⟩

theorem currentThread_of_handed {k k' : Kernel} {slot : ThreadId} {entry : Option Nat}
    {process : Option ProcessId} {isUser : Bool}
    (h : k.Handed slot entry process isUser k') : k'.currentThread = k.currentThread := by
  obtain ⟨k₁, userContext, ownsUserStack, hq, -, rfl⟩ := h
  unfold install enqueue
  split <;> exact hq.currentThread

theorem currentThread_of_recorded {k k' : Kernel} {p : ProcessId} (h : k.Recorded p k') :
    k'.currentThread = k.currentThread := by
  obtain ⟨k₁, k₂, space, hq, hcreate, hq'⟩ := h
  obtain ⟨slot, -, -, -, -, rfl⟩ := createProcess_some hcreate
  exact hq'.currentThread.trans hq.currentThread

theorem stays_leaveJoin (k : Kernel) (t : ThreadId) : Stays k (k.leaveJoin t) := by
  have hclear : Stays k { k with resuming := none } := ⟨rfl, rfl⟩
  exact (hclear.trans (stays_dropJoinWaiter _ t)).trans (stays_markReapable _ t)

theorem currentThread_of_setMain (k : Kernel) (p : ProcessId) (t : ThreadId) :
    (k.setProcessMainThread p t).currentThread = k.currentThread := by
  unfold setProcessMainThread
  split <;> rfl

/-- The actions that neither yield nor exit nor block do not switch. -/
theorem currentThread_of_effect {k k' : Kernel} {a : Action} (h : Effect k a k')
    (hyield : a ≠ .yieldNow) (hexit : ∀ status, a ≠ .exit status)
    (hblock : a.mayBlock = false) : k'.currentThread = k.currentThread := by
  cases h with
  | quiet hq => exact hq.currentThread
  | woken _ hw hq => exact hq.currentThread.trans hw.woken.currentThread
  | resumed _ _ hq => exact hq.currentThread
  | joined _ _ hq => exact hq.currentThread.trans (k.stays_leaveJoin _).currentThread
  | waited _ _ hq =>
    exact hq.currentThread.trans
      ((k.stays_leaveJoin _).trans (stays_collect _ _ _ _)).currentThread
  | yielded => exact absurd rfl hyield
  | exited status => exact absurd rfl (hexit status)
  | blocked _ _ hreg => cases hreg <;> cases hblock
  | reaped _ _ _ _ hq => exact hq.currentThread.trans (stays_markReapable _ _).currentThread
  | collected _ _ _ _ _ hq =>
    exact hq.currentThread.trans
      ((stays_markReapable _ _).trans (stays_collect _ _ _ _)).currentThread
  | terminated _ _ _ _ hq =>
    exact hq.currentThread.trans (woken_wakeJoinWaiters _ _).currentThread
  | handed _ _ _ _ hhanded hq =>
    exact hq.currentThread.trans (currentThread_of_handed hhanded)
  | recorded _ _ hrec => exact currentThread_of_recorded hrec
  | spawned _ _ hrec hhanded hq =>
    exact hq.currentThread.trans ((currentThread_of_setMain _ _ _).trans
      ((currentThread_of_handed hhanded).trans (currentThread_of_recorded hrec)))

/-- The inversion of a step, as far as the active space is concerned. -/
theorem step_moved {k k' : Kernel} (hw : k.WellFormed) {a : Action}
    (hstep : k.step a = some k') : Moved k k' := by
  have heffect := step_effect hw.idle.1 hstep
  unfold step at hstep
  split at hstep
  · have hsame : ∀ {x : KernelCall Nat}, KeepsActive x →
        Spec (fun s : Kernel => s.activeSpace = k.activeSpace) x
          (fun _ s => s.activeSpace = k.activeSpace)
          (fun e s => e = .failed → s.activeSpace = k.activeSpace) :=
      fun hx => (hx.space _).mono_fail fun _ _ h _ => h
    cases a with
    | resume =>
      obtain ⟨c, hr, hgo⟩ := Option.bind_eq_some_iff.mp hstep
      exact (moved_goOn hgo).after ⟨rfl, rfl⟩
    | tick =>
      obtain rfl := Option.some.inj hstep
      exact (stays_woken k.woken_tick).moved
    | yieldNow =>
      obtain rfl := Option.some.inj hstep
      exact k.moved_yieldNow
    | spawn entry =>
      have hcurrent :=
        currentThread_of_effect heffect (fun h => nomatch h) (fun _ h => nomatch h) rfl
      exact (stays_call (hsame (keepsActive_spawn entry))
        hcurrent hstep).moved
    | wake t =>
      obtain rfl := Option.some.inj hstep
      exact (stays_woken (k.woken_wake t)).moved
    | exit status =>
      obtain rfl := Option.some.inj hstep
      exact k.moved_exitCurrent status
    | join t =>
      obtain rfl := Option.some.inj hstep
      exact k.moved_join t _ stays_finishJoinCall
    | blockCurrent =>
      obtain rfl := Option.some.inj hstep
      exact k.moved_blockCurrent _
    | sleep milliseconds =>
      obtain rfl := Option.some.inj hstep
      unfold sleep
      split
      · exact (stays_returnValue _ _).moved
      · split
        · exact (stays_returnValue _ _).moved
        · dsimp only
          split
          · exact (moved_blockCurrent _ _).after ⟨rfl, rfl⟩
          · exact (stays_returnValue _ _).moved
    | threadCreate entry argument tlsBase =>
      have hcurrent :=
        currentThread_of_effect heffect (fun h => nomatch h) (fun _ h => nomatch h) rfl
      exact (stays_call (hsame (keepsActive_spawnUser _ _ _ _))
        hcurrent hstep).moved
    | brk requestedBreak =>
      have hcurrent :=
        currentThread_of_effect heffect (fun h => nomatch h) (fun _ h => nomatch h) rfl
      exact (stays_call (hsame (keepsActive_brk requestedBreak))
        hcurrent hstep).moved
    | futexWait address actual expected timeout =>
      obtain rfl := Option.some.inj hstep
      unfold futexWait
      split
      · exact (stays_returnValue _ _).moved
      · split
        · exact (stays_returnValue _ _).moved
        · split
          · exact (stays_returnValue _ _).moved
          · dsimp only
            split
            · exact (moved_blockCurrent _ _).after ⟨rfl, rfl⟩
            · exact (stays_returnValue _ _).moved
    | futexWake address count =>
      obtain rfl := Option.some.inj hstep
      unfold futexWake
      split
      · exact (stays_returnValue _ _).moved
      · exact ((stays_woken (Wakes.futex address count).woken).trans
          (stays_returnValue _ _)).moved
    | processSpawn path image argv =>
      have hcurrent :=
        currentThread_of_effect heffect (fun h => nomatch h) (fun _ h => nomatch h) rfl
      exact (stays_call (spawnProgram_space path image argv _)
        hcurrent hstep).moved
    | waitProcess p =>
      obtain rfl := Option.some.inj hstep
      unfold waitProcess
      split
      · exact (stays_returnValue _ _).moved
      · exact moved_join _ _ _ (stays_finishWait _ _)
    | tryWaitProcess p =>
      obtain rfl := Option.some.inj hstep
      unfold tryWaitProcess
      split
      · exact (stays_returnValue _ _).moved
      · exact ((k.stays_tryJoin _).trans (stays_finishWait _ _ _ _)).moved
    | reapAnyChild pointer => exact (stays_syscallReapAnyChild hstep).moved
    | terminateProcess p =>
      obtain rfl := Option.some.inj hstep
      exact ((k.stays_terminateProcess p).trans (stays_returnValue _ _)).moved
  · cases hstep

/-! ## What a step keeps of a thread and of a record -/

/-- The threads belong to the same processes, and these have the same address
spaces. -/
structure SameHomes (k k' : Kernel) : Prop where
  process : ∀ t, (k'.threads t).process = (k.threads t).process
  isUser : ∀ t, (k'.threads t).isUser = (k.threads t).isUser
  id : ∀ slot, (k'.processes slot).id = (k.processes slot).id
  space : ∀ slot, (k'.processes slot).addressSpace = (k.processes slot).addressSpace

section Homes

variable {k k' k'' : Kernel}

theorem SameHomes.refl (k : Kernel) : SameHomes k k :=
  ⟨fun _ => rfl, fun _ => rfl, fun _ => rfl, fun _ => rfl⟩

theorem SameHomes.trans (h : SameHomes k k') (h' : SameHomes k' k'') :
    SameHomes k k'' where
  process t := (h'.process t).trans (h.process t)
  isUser t := (h'.isUser t).trans (h.isUser t)
  id slot := (h'.id slot).trans (h.id slot)
  space slot := (h'.space slot).trans (h.space slot)

/-- A change of threads alone. -/
theorem sameHomes_of_processes (hprocesses : k'.processes = k.processes)
    (hprocess : ∀ t, (k'.threads t).process = (k.threads t).process)
    (huser : ∀ t, (k'.threads t).isUser = (k.threads t).isUser) : SameHomes k k' := by
  refine ⟨hprocess, huser, fun slot => ?_, fun slot => ?_⟩ <;> rw [hprocesses]

theorem sameHomes_update (k : Kernel) (t : ThreadId) {f : Thread → Thread}
    (hprocess : ∀ thread, (f thread).process = thread.process)
    (huser : ∀ thread, (f thread).isUser = thread.isUser) :
    SameHomes k (k.updateThread t f) := by
  have hput : ∀ u, (k.updateThread t f).threads u =
      if u = t then f (k.threads t) else k.threads u := fun u => put_apply ..
  refine ⟨fun u => ?_, fun u => ?_, fun _ => rfl, fun _ => rfl⟩
  · rw [hput]
    split
    · rename_i hu
      rw [hprocess, hu]
    · rfl
  · rw [hput]
    split
    · rename_i hu
      rw [huser, hu]
    · rfl

theorem sameHomes_quiet (h : Quiet k k') : SameHomes k k' :=
  sameHomes_of_processes h.processes h.process h.isUser

theorem sameHomes_woken (h : Woken k k') : SameHomes k k' :=
  sameHomes_of_processes h.processes (fun t => h.field t Thread.process fun _ _ => rfl)
    fun t => h.field t Thread.isUser fun _ _ => rfl

theorem sameHomes_schedule (k : Kernel) (saved : Context) :
    SameHomes k (k.scheduleFromCurrent saved) :=
  have hd := (k.schedule_spec saved).1
  sameHomes_of_processes hd.processes hd.process hd.isUser

theorem sameHomes_clear (k : Kernel) (c : Option Context) :
    SameHomes k { k with resuming := c } :=
  ⟨fun _ => rfl, fun _ => rfl, fun _ => rfl, fun _ => rfl⟩

theorem sameHomes_markReapable (k : Kernel) (t : ThreadId) :
    SameHomes k (k.markReapable t) := by
  unfold markReapable
  split
  · exact k.sameHomes_update t (fun _ => rfl) fun _ => rfl
  · exact .refl k

theorem sameHomes_leaveJoin (k : Kernel) (t : ThreadId) :
    SameHomes k (k.leaveJoin t) := by
  refine ((k.sameHomes_clear none).trans ?_).trans (sameHomes_markReapable _ t)
  unfold dropJoinWaiter
  split
  · exact sameHomes_update _ t (fun _ => rfl) fun _ => rfl
  · exact .refl _

theorem sameHomes_record (k : Kernel) (e : Event) : SameHomes k (k.record e) :=
  ⟨fun _ => rfl, fun _ => rfl, fun _ => rfl, fun _ => rfl⟩

theorem sameHomes_enqueue (k : Kernel) (t : ThreadId) : SameHomes k (k.enqueue t) := by
  unfold enqueue
  split <;> exact ⟨fun _ => rfl, fun _ => rfl, fun _ => rfl, fun _ => rfl⟩

theorem sameHomes_reparent (k : Kernel) (t : ThreadId) :
    SameHomes k (k.reparentChildrenOfExitedProcess t) := by
  unfold reparentChildrenOfExitedProcess
  split
  · exact .refl k
  · rename_i slot _
    obtain ⟨log, heq, -⟩ := k.reparentChildren_spec (k.processes slot).id t
    rw [heq]
    refine ⟨fun _ => rfl, fun _ => rfl, fun i => ?_, fun i => ?_⟩ <;> dsimp only <;> split
    · exact adopt_id _ _
    · rfl
    · exact adopt_addressSpace _ _
    · rfl

theorem sameHomes_setMain (k : Kernel) (p : ProcessId) (t : ThreadId) :
    SameHomes k (k.setProcessMainThread p t) := by
  unfold setProcessMainThread
  split
  · exact .refl k
  · rename_i slot _
    have hput : ∀ i, put k.processes slot { k.processes slot with mainThread := some t } i =
        if i = slot then { k.processes slot with mainThread := some t }
        else k.processes i := fun i => put_apply ..
    refine ⟨fun _ => rfl, fun _ => rfl, fun i => ?_, fun i => ?_⟩
    · show (put k.processes slot _ i).id = _
      rw [hput]
      split
      · rename_i hi
        rw [hi]
      · rfl
    · show (put k.processes slot _ i).addressSpace = _
      rw [hput]
      split
      · rename_i hi
        rw [hi]
      · rfl

theorem sameHomes_yieldNow (k : Kernel) : SameHomes k k.yieldNow := by
  unfold yieldNow
  dsimp only
  split
  · exact .refl k
  · split
    · exact k.sameHomes_schedule _
    · have hready : SameHomes k (k.setState k.currentThread .ready) :=
        k.sameHomes_update _ (fun _ => rfl) fun _ => rfl
      exact (hready.trans (sameHomes_enqueue _ _)).trans (sameHomes_schedule _ _)

theorem sameHomes_blockCurrent (k : Kernel) (saved : Context) :
    SameHomes k (k.blockCurrent saved) := by
  unfold blockCurrent
  dsimp only
  split
  · exact k.sameHomes_clear _
  · have hblocked : SameHomes k (k.setState k.currentThread .blocked) :=
      k.sameHomes_update _ (fun _ => rfl) fun _ => rfl
    exact (hblocked.trans (sameHomes_record _ _)).trans (sameHomes_schedule _ _)

theorem sameHomes_exitCurrent (k : Kernel) (status : Nat) :
    SameHomes k (k.exitCurrent status) := by
  unfold exitCurrent
  dsimp only
  split
  · exact .refl k
  · have hended : SameHomes k (k.updateThread k.currentThread fun t =>
        { t with
          state := .exited
          entry := none
          exitStatus := status
          reapable := !t.isUser }) := k.sameHomes_update _ (fun _ => rfl) fun _ => rfl
    have hexited := hended.trans (sameHomes_record _ (.exited k.currentThread status))
    have hwoken := hexited.trans
      (sameHomes_woken (woken_wakeJoinWaiters _ k.currentThread))
    exact (hwoken.trans (sameHomes_reparent _ _)).trans (sameHomes_schedule _ _)

theorem sameHomes_registers {a : Action} {c : Context} (h : k.Registers a c k') :
    SameHomes k k' := by
  cases h with
  | raw => exact .refl k
  | sleep | futex => exact ⟨fun _ => rfl, fun _ => rfl, fun _ => rfl, fun _ => rfl⟩
  | join t | wait _ t => exact k.sameHomes_update t (fun _ => rfl) fun _ => rfl

theorem sameHomes_endThread (k : Kernel) (p : ProcessId) (t : ThreadId) :
    SameHomes k (k.endThread p t) := by
  refine SameHomes.trans (sameHomes_update k t (fun _ => ?_) fun _ => ?_)
    (sameHomes_record _ (.terminated p t))
  · rfl
  · rfl

/-- Only the thread in the slot that is given changes its owner, and a record
in use keeps its pid and its space until it is cleared. -/
structure KeepsHomes (k : Kernel) (given : Option ThreadId) (k' : Kernel) : Prop where
  owner : ∀ t, given ≠ some t → (k'.threads t).process = (k.threads t).process ∧
    (k'.threads t).isUser = (k.threads t).isUser
  record : ∀ slot, (k.processes slot).id ≠ noThread → (k'.processes slot).id ≠ noThread →
    (k'.processes slot).id = (k.processes slot).id ∧
      (k'.processes slot).addressSpace = (k.processes slot).addressSpace

theorem SameHomes.keeps (h : SameHomes k k') (given : Option ThreadId) :
    KeepsHomes k given k' where
  owner t _ := ⟨h.process t, h.isUser t⟩
  record slot _ _ := ⟨h.id slot, h.space slot⟩

theorem KeepsHomes.after {given : Option ThreadId} (h' : KeepsHomes k' given k'')
    (h : SameHomes k k') : KeepsHomes k given k'' where
  owner t ht := by
    rw [← h.process, ← h.isUser]
    exact h'.owner t ht
  record slot hused hused' := by
    rw [← h.id, ← h.space]
    exact h'.record slot (by rwa [h.id]) hused'

theorem KeepsHomes.before {given : Option ThreadId} (h : KeepsHomes k given k')
    (h' : SameHomes k' k'') : KeepsHomes k given k'' where
  owner t ht := by
    rw [h'.process, h'.isUser]
    exact h.owner t ht
  record slot hused hused' := by
    rw [h'.id, h'.space]
    exact h.record slot hused (by rwa [← h'.id])

theorem keepsHomes_collect (k : Kernel) (p : ProcessId) (t : ThreadId) (status : Nat)
    (given : Option ThreadId) : KeepsHomes k given (k.collect p t status) := by
  unfold collect
  dsimp only
  split
  · exact (k.sameHomes_record _).keeps given
  · rename_i slot _
    refine ⟨fun _ _ => ⟨rfl, rfl⟩, fun i _ hused => ?_⟩
    have hput : ∀ i, put k.processes slot .empty i =
        if i = slot then .empty else k.processes i := fun i => put_apply ..
    change (put k.processes slot .empty i).id ≠ noThread at hused
    show (put k.processes slot .empty i).id = _ ∧
      (put k.processes slot .empty i).addressSpace = _
    rw [hput] at hused ⊢
    split
    · rename_i hi
      rw [if_pos hi] at hused
      exact absurd rfl hused
    · exact ⟨rfl, rfl⟩

theorem Handed.keepsHomes {slot : ThreadId} {entry : Option Nat}
    {process : Option ProcessId} {isUser : Bool}
    (h : k.Handed slot entry process isUser k') : KeepsHomes k (some slot) k' := by
  obtain ⟨k₁, userContext, ownsUserStack, hq, -, rfl⟩ := h
  refine KeepsHomes.after ?_ (sameHomes_quiet hq)
  unfold install
  refine KeepsHomes.before ?_ (sameHomes_enqueue _ slot)
  refine ⟨fun t ht => ?_, fun _ _ _ => ⟨rfl, rfl⟩⟩
  have hsame : ∀ thread, put k₁.threads slot thread t = k₁.threads t :=
    fun thread => put_other fun heq => ht (congrArg some heq).symm
  exact ⟨congrArg Thread.process (hsame _), congrArg Thread.isUser (hsame _)⟩

theorem Recorded.keepsHomes {p : ProcessId} (h : k.Recorded p k')
    (given : Option ThreadId) : KeepsHomes k given k' := by
  obtain ⟨k₁, k₂, space, hq, hcreate, hq'⟩ := h
  obtain ⟨slot, -, -, -, hfree, rfl⟩ := createProcess_some hcreate
  refine KeepsHomes.after (KeepsHomes.before ?_ (sameHomes_quiet hq')) (sameHomes_quiet hq)
  refine ⟨fun _ _ => ⟨rfl, rfl⟩, fun i hused _ => ?_⟩
  have hi : i ≠ slot := fun heq => hused (heq ▸ hfree)
  have hsame : ∀ record, put k₁.processes slot record i = k₁.processes i :=
    fun record => put_other hi
  exact ⟨congrArg Process.id (hsame _), congrArg Process.addressSpace (hsame _)⟩

theorem KeepsHomes.trans {given : Option ThreadId} (h : KeepsHomes k given k')
    (h' : KeepsHomes k' given k'')
    (hused : ∀ slot, (k.processes slot).id ≠ noThread →
      (k'.processes slot).id ≠ noThread) : KeepsHomes k given k'' where
  owner t ht := by
    rw [← (h.owner t ht).1, ← (h.owner t ht).2]
    exact h'.owner t ht
  record slot hslot hslot' := by
    have hmiddle := hused slot hslot
    have hfirst := h.record slot hslot hmiddle
    rw [← hfirst.1, ← hfirst.2]
    exact h'.record slot hmiddle hslot'

/-- The slot that a step gives to a new thread, if it gives one. -/
def slotToGive (k : Kernel) (a : Action) : Option ThreadId :=
  if a.spawns then k.reusableSlot else none

/-- The inversion of a step, as far as owners and spaces are concerned. -/
theorem step_keepsHomes (hw : k.WellFormed) {a : Action} (hstep : k.step a = some k') :
    KeepsHomes k (k.slotToGive a) k' := by
  have hgives : ∀ {slot : ThreadId}, a.spawns = true → k.reusableSlot = some slot →
      k.slotToGive a = some slot := by
    intro slot hspawns hslot
    unfold slotToGive
    rw [if_pos hspawns, hslot]
  cases step_effect hw.idle.1 hstep with
  | quiet hq => exact (sameHomes_quiet hq).keeps _
  | woken _ hwakes hq =>
    exact ((sameHomes_woken hwakes.woken).trans (sameHomes_quiet hq)).keeps _
  | resumed _ _ hq => exact ((k.sameHomes_clear none).trans (sameHomes_quiet hq)).keeps _
  | joined _ _ hq => exact ((k.sameHomes_leaveJoin _).trans (sameHomes_quiet hq)).keeps _
  | waited _ _ hq =>
    exact ((keepsHomes_collect _ _ _ _ _).after (k.sameHomes_leaveJoin _)).before
      (sameHomes_quiet hq)
  | yielded => exact k.sameHomes_yieldNow.keeps _
  | exited status => exact (k.sameHomes_exitCurrent status).keeps _
  | blocked _ _ hreg =>
    exact ((sameHomes_registers hreg).trans (sameHomes_blockCurrent _ _)).keeps _
  | reaped _ _ _ _ hq =>
    exact ((k.sameHomes_markReapable _).trans (sameHomes_quiet hq)).keeps _
  | collected _ _ _ _ _ hq =>
    exact ((keepsHomes_collect _ _ _ _ _).after (k.sameHomes_markReapable _)).before
      (sameHomes_quiet hq)
  | @terminated p t _ _ _ _ _ _ hq =>
    have hwoken := (k.sameHomes_endThread p t).trans
      (sameHomes_woken (woken_wakeJoinWaiters _ t))
    exact (hwoken.trans (sameHomes_quiet hq)).keeps _
  | handed _ hspawns _ _ hhanded hq =>
    rw [hgives hspawns hhanded.reusableSlot]
    exact hhanded.keepsHomes.before (sameHomes_quiet hq)
  | recorded _ _ hrec => exact hrec.keepsHomes _
  | spawned _ _ hrec hhanded hq =>
    rw [hgives rfl (hrec.reusableSlot ▸ hhanded.reusableSlot)]
    refine ((hrec.keepsHomes _).trans hhanded.keepsHomes fun slot hslot => ?_).before
      ((sameHomes_setMain _ _ _).trans (sameHomes_quiet hq))
    obtain ⟨i, -, hi, rfl, hfree, space, hprocesses⟩ := hrec.slot
    have hne : slot ≠ i := by
      rintro rfl
      exact hslot hfree
    rw [hprocesses, put_other hne]
    exact hslot

end Homes

/-! ## The current thread is at home -/

/-- The space of the process is active while a user thread of it runs. -/
def Home (k : Kernel) (p : ProcessId) : Prop :=
  (k.threads k.currentThread).isUser = true →
    (k.threads k.currentThread).process = some p → k.HasRecord p →
      k.activeSpace = k.spaceOf p

/-- A process that has a record when its thread goes on gets its own space. -/
theorem Home.step {k k' : Kernel} {p : ProcessId} (h : k.Home p) (hw : k.WellFormed)
    {a : Action} (hrecord : (k.threads k.currentThread).process = some p → k.HasRecord p)
    (hstep : k.step a = some k') : k'.Home p := by
  intro huser hprocess hrecord'
  rcases step_moved hw hstep (hw.step hstep).toRecords with hstays | hentered
  · have hkeeps := step_keepsHomes hw hstep
    have hgiven : k.slotToGive a ≠ some k.currentThread := by
      unfold slotToGive
      split
      · intro hslot
        obtain ⟨hpos, -, -, hreapable⟩ := reusableSlot_some hslot
        have hkept := hw.current_kept (Nat.one_le_iff_ne_zero.mp hpos)
        rw [hkept] at hreapable
        cases hreapable
      · exact fun heq => nomatch heq
    obtain ⟨hsame, hkind⟩ := hkeeps.owner _ hgiven
    rw [hstays.currentThread] at huser hprocess
    rw [hkind] at huser
    rw [hsame] at hprocess
    have hold := hrecord hprocess
    have hspace := h huser hprocess hold
    obtain ⟨slot, hslot, rfl, hid⟩ := hold
    obtain ⟨slot', -, hpid, hid'⟩ := hrecord'
    obtain rfl : slot = slot' := Nat.succ.inj hpid
    have hfields := hkeeps.record slot (by rw [hid]; exact pid_ne_noThread hslot)
      (by rw [hid']; exact pid_ne_noThread hslot)
    rw [hstays.space, hspace]
    exact (congrArg target hfields.2).symm
  · exact hentered huser p hprocess hrecord'

/-! ## Boot -/

/-- PID 1 has this address space, and it is active. -/
private def InFirstSpace (space : Nat) (k : Kernel) : Prop :=
  k.memory.cr3 = space ∧ (k.processes 0).addressSpace = space

private theorem inFirstSpace_quiet {α : Type} {x : KernelCall α} (space : Nat)
    (hactive : KeepsActive x) (hquiet : ∀ k, Keeps (Quiet k) x) :
    Spec (InFirstSpace space) x (fun _ => InFirstSpace space) fun _ _ => True := by
  rintro k ⟨hcr3, hspace⟩
  have h := ((hactive space).and (hquiet k)) k ⟨hcr3, .refl k⟩
  cases hx : x k with
  | ok a k' =>
    rw [hx] at h
    obtain ⟨hcr3', hq⟩ := h
    exact ⟨hcr3', (congrArg (Process.addressSpace <| · 0) hq.processes).trans hspace⟩
  | error e k' => trivial

private theorem inFirstSpace_spawnUser (space entry argument tlsBase : Nat)
    (stack : Option Nat) :
    Spec (InFirstSpace space) (spawnUser entry argument tlsBase stack)
      (fun _ => InFirstSpace space) fun _ _ => True := by
  rintro k ⟨hcr3, hspace⟩
  have hspawn : Spec (Quiet k) (spawnUser entry argument tlsBase stack)
      (fun slot => Handed k slot none (some userProcessId) true) fun _ => Quiet k :=
    spawnUser_spec entry argument tlsBase stack
  have h := ((keepsActive_spawnUser entry argument tlsBase stack space).and hspawn) k
    ⟨hcr3, .refl k⟩
  cases hx : spawnUser entry argument tlsBase stack k with
  | ok slot k' =>
    rw [hx] at h
    obtain ⟨hcr3', hhanded⟩ := h
    obtain ⟨k₁, hq, -, -, -, hprocesses⟩ := hhanded.threads
    exact ⟨hcr3', by rw [hprocesses, hq.processes, hspace]⟩
  | error e k' => trivial

private theorem inFirstSpace_ensureIdle (space : Nat) :
    Spec (InFirstSpace space) ensureIdle (fun _ => InFirstSpace space)
      fun _ _ => True := by
  have hstack : ∀ slot, Spec (InFirstSpace space) (ofMemory (allocateKernelStack slot))
      (fun _ => InFirstSpace space) fun _ _ => True := fun slot =>
    inFirstSpace_quiet space (keepsActive_ofMemory (.allocateKernelStack slot))
      fun _ => quiet_ofMemory _
  refine Spec.bind_read fun k _ => ?_
  refine Spec.ite (fun _ => Spec.pure fun _ h => h) fun _ => ?_
  refine Spec.bind (hstack _) fun stackTop => ?_
  refine Spec.bind (hstack _) fun syscallStackTop => ?_
  refine Spec.update fun k h => ?_
  obtain ⟨-, -, hprocesses, -, hmemory, -⟩ := (k.updateThread idleThread fun t =>
    { t with
      stackTop
      syscallStackTop
      stackAllocated := true
      entry := some idleEntry
      state := .ready }).enqueue_fields idleThread
  refine ⟨(congrArg Memory.cr3 hmemory).trans h.1, ?_⟩
  exact (congrArg (Process.addressSpace <| · 0) hprocesses).trans h.2

private theorem inFirstSpace_startFirst {space : Nat} {k : Kernel}
    (h : InFirstSpace space k) : InFirstSpace space k.scheduleFromScheduler := by
  obtain ⟨passed, q, -, hcases⟩ :=
    nextReadyLoop_spec k.runQueue.count k (Nat.le_refl _)
  unfold scheduleFromScheduler nextReady
  rcases hcases with ⟨-, -, heq⟩ | ⟨next, -, -, heq⟩
  · rw [heq]
    exact h
  · rw [heq]
    exact h

private theorem inFirstSpace_runDemo (image : List UInt8) :
    Spec (fun _ => True) (runDemo image) (fun _ k => ∃ space, InFirstSpace space k)
      fun _ _ => True := by
  have hany : ∀ {α : Type} (x : KernelCall α),
      Spec (fun _ => True) x (fun _ _ => True) fun _ _ => True := by
    intro α x k _
    cases x k <;> trivial
  refine Spec.bind (hany _) fun space => ?_
  refine Spec.bind (hany _) fun loaded => ?_
  refine Spec.bind (hany _) fun _ => ?_
  refine Spec.bind (hany _) fun _ => ?_
  refine Spec.bind (Spec.update fun k _ => ?_ :
    Spec _ _ (fun _ k => k.memory.cr3 = space) _) fun _ => ?_
  · rfl
  refine Spec.bind ((initializeProgram_active loaded _ _ space).mono_fail
    fun _ _ _ => trivial) fun stackPointer => ?_
  refine Spec.bind (Spec.update fun k hcr3 => ?_ :
    Spec _ _ (fun _ => InFirstSpace space) _) fun _ => ?_
  · exact ⟨hcr3, congrArg Process.addressSpace (put_same _ _ _)⟩
  refine Spec.bind (inFirstSpace_spawnUser space _ _ _ _) fun _ => ?_
  refine Spec.bind (inFirstSpace_ensureIdle space) fun _ => ?_
  exact Spec.update fun k h => ⟨space, inFirstSpace_startFirst h⟩

/-- The first thread starts in the space of PID 1. -/
theorem boot_home {memory : Memory} {image : List UInt8} {k : Kernel}
    (h : boot memory image = some k) (p : ProcessId) : k.Home p := by
  intro _ hprocess _
  have hbooted := boot_booted h
  obtain ⟨userContext, hfirst⟩ := hbooted.first
  rw [hbooted.currentThread] at hprocess
  have hpid : some userProcessId = some p :=
    (congrArg Thread.process hfirst).symm.trans hprocess
  obtain rfl := Option.some.inj hpid
  have hspec := inFirstSpace_runDemo image (initial memory) trivial
  unfold boot at h
  split at h
  · rename_i heq
    rw [heq] at hspec
    obtain rfl := Option.some.inj h
    obtain ⟨space, hcr3, hspace⟩ := hspec
    show target _ = target _
    rw [hcr3]
    exact congrArg target hspace.symm
  · cases h

/-- PID 1 always has its record, so its threads run in its space. -/
theorem home_first {memory : Memory} {guard : Kernel → Action → Prop} {k : Kernel}
    (h : ReachedFrom memory guard k) : k.Home userProcessId := by
  obtain ⟨image, k₀, hboot, hrun⟩ := h
  have hkeeps : ∀ k a k', k.WellFormed ∧ k.Home userProcessId → guard k a →
      k.step a = some k' → k'.WellFormed ∧ k'.Home userProcessId := by
    rintro k a k' ⟨hw, hhome⟩ - hstep
    exact ⟨hw.step hstep, hhome.step hw (fun _ => ⟨0, by decide, rfl, hw.first.1⟩) hstep⟩
  exact (hrun.invariant (fun k => k.WellFormed ∧ k.Home userProcessId) hkeeps
    ⟨(boot_booted hboot).wellFormed, boot_home hboot _⟩).2

end Kernel

end OpenKernel
