import OpenKernel.Kernel.Boot

/-!
# The kernel stacks of the threads

A slot has two kernel stacks: one for its interrupts and one for its
syscalls.  `Stacked` says that a thread whose slot cannot be reused has both,
and that they are the ones that belong to the slot.
-/

namespace OpenKernel

open Lib

/-- The top of the kernel stack with this number. -/
def kernelStackTop (slot : Nat) : Nat := kernelStackBase slot + kernelStackPages * pageSize

namespace Kernel

/-- The stack fields of a thread in the slot `t` hold the tops of its stacks. -/
def OwnTops (t : ThreadId) (thread : Thread) : Prop :=
  thread.stackTop = kernelStackTop t ∧ thread.syscallStackTop = kernelStackTop (t + maxThreads)

/-- The idle thread gets its stacks last, when the kernel is `started`. -/
structure Stacked (started : Prop) (k : Kernel) : Prop where
  tops : ∀ t, (k.threads t).stackAllocated = true → OwnTops t (k.threads t)
  kept : ∀ t, (k.threads t).reapable = false ∨ started ∧ t = idleThread →
    (k.threads t).stackAllocated = true

/-- No stack has come or gone, and no slot has been taken. -/
structure SameStacks (k k' : Kernel) : Prop where
  stackAllocated : ∀ t, (k'.threads t).stackAllocated = (k.threads t).stackAllocated
  stackTop : ∀ t, (k'.threads t).stackTop = (k.threads t).stackTop
  syscallStackTop : ∀ t, (k'.threads t).syscallStackTop = (k.threads t).syscallStackTop
  reapable : ∀ t, (k'.threads t).reapable = false → (k.threads t).reapable = false

section Steps

variable {started : Prop} {k k' k'' : Kernel} {t : ThreadId}

theorem Stacked.same (h : Stacked started k) (hs : SameStacks k k') : Stacked started k' where
  tops t ht := by
    rw [hs.stackAllocated] at ht
    obtain ⟨hstack, hsyscall⟩ := h.tops t ht
    exact ⟨(hs.stackTop t).trans hstack, (hs.syscallStackTop t).trans hsyscall⟩
  kept t ht := by
    rw [hs.stackAllocated]
    exact h.kept t (ht.imp_left (hs.reapable t))

namespace SameStacks

theorem refl (k : Kernel) : SameStacks k k :=
  ⟨fun _ => rfl, fun _ => rfl, fun _ => rfl, fun _ ht => ht⟩

theorem trans (h : SameStacks k k') (h' : SameStacks k' k'') : SameStacks k k'' where
  stackAllocated t := (h'.stackAllocated t).trans (h.stackAllocated t)
  stackTop t := (h'.stackTop t).trans (h.stackTop t)
  syscallStackTop t := (h'.syscallStackTop t).trans (h.syscallStackTop t)
  reapable t ht := h.reapable t (h'.reapable t ht)

/-- Only the threads matter. -/
theorem of_threads (h : k'.threads = k.threads) : SameStacks k k' := by
  refine ⟨fun t => ?_, fun t => ?_, fun t => ?_, fun t ht => ?_⟩
  · rw [h]
  · rw [h]
  · rw [h]
  · rwa [h] at ht

theorem woken (h : Woken k k') : SameStacks k k' where
  stackAllocated t := h.field t Thread.stackAllocated fun _ _ => rfl
  stackTop t := h.field t Thread.stackTop fun _ _ => rfl
  syscallStackTop t := h.field t Thread.syscallStackTop fun _ _ => rfl
  reapable t ht := by rwa [h.reapable] at ht

theorem dispatched {saved : Context} (h : Dispatched k saved k') : SameStacks k k' where
  stackAllocated t := h.field t Thread.stackAllocated fun _ _ _ => rfl
  stackTop t := h.field t Thread.stackTop fun _ _ _ => rfl
  syscallStackTop t := h.field t Thread.syscallStackTop fun _ _ _ => rfl
  reapable t ht := by rwa [h.reapable] at ht

/-- One thread changes other fields. -/
theorem updateThread (k : Kernel) (u : ThreadId) {f : Thread → Thread}
    (hallocated : (f (k.threads u)).stackAllocated = (k.threads u).stackAllocated)
    (hstack : (f (k.threads u)).stackTop = (k.threads u).stackTop)
    (hsyscall : (f (k.threads u)).syscallStackTop = (k.threads u).syscallStackTop)
    (hreapable : (f (k.threads u)).reapable = false → (k.threads u).reapable = false) :
    SameStacks k (k.updateThread u f) := by
  have hself : (k.updateThread u f).threads u = f (k.threads u) := put_same _ _ _
  have hother : ∀ t, t ≠ u → (k.updateThread u f).threads t = k.threads t :=
    fun t ht => put_other ht
  have hfield : ∀ {α : Type} (g : Thread → α), g (f (k.threads u)) = g (k.threads u) →
      ∀ t, g ((k.updateThread u f).threads t) = g (k.threads t) := by
    intro α g hg t
    by_cases ht : t = u
    · rw [ht, hself, hg]
    · rw [hother t ht]
  refine ⟨hfield _ hallocated, hfield _ hstack, hfield _ hsyscall, fun t ht => ?_⟩
  by_cases htu : t = u
  · rw [htu, hself] at ht
    rw [htu]
    exact hreapable ht
  · rwa [hother t htu] at ht

end SameStacks

/-! ## The actions that make no thread -/

theorem sameStacks_setState (k : Kernel) (u : ThreadId) (state : ThreadState) :
    SameStacks k (k.setState u state) :=
  .updateThread k u rfl rfl rfl id

theorem sameStacks_schedule (k : Kernel) (saved : Context) :
    SameStacks k (k.scheduleFromCurrent saved) :=
  .dispatched (schedule_spec k saved).1

theorem sameStacks_yieldNow (k : Kernel) : SameStacks k k.yieldNow := by
  unfold yieldNow
  dsimp only
  split
  · exact .refl k
  · split
    · exact sameStacks_schedule k _
    · exact ((sameStacks_setState k _ _).trans (.woken (woken_enqueue _ _))).trans
        (sameStacks_schedule _ _)

theorem sameStacks_blockCurrent (k : Kernel) (saved : Context) :
    SameStacks k (k.blockCurrent saved) := by
  unfold blockCurrent
  dsimp only
  split
  · exact .of_threads rfl
  · have hset : SameStacks k ((k.setState k.currentThread .blocked).record
        (.blocked k.currentThread saved)) :=
      (sameStacks_setState k k.currentThread .blocked).trans (.of_threads rfl)
    exact hset.trans (sameStacks_schedule _ _)

theorem sameStacks_reparent (k : Kernel) (t : ThreadId) :
    SameStacks k (k.reparentChildrenOfExitedProcess t) := by
  unfold reparentChildrenOfExitedProcess
  split
  · exact .refl k
  · rename_i slot _
    obtain ⟨log, heq, -⟩ := k.reparentChildren_spec (k.processes slot).id t
    rw [heq]
    exact .of_threads rfl

/-- The slot of a user thread that exits stays taken until it is collected. -/
theorem sameStacks_exitCurrent (status : Nat)
    (hkept : k.currentThread ≠ idleThread →
      (k.threads k.currentThread).reapable = false) :
    SameStacks k (k.exitCurrent status) := by
  unfold exitCurrent
  dsimp only
  split
  · exact .refl k
  · rename_i hallowed
    have hidle := (not_or.mp hallowed).2
    have hupdate := SameStacks.updateThread k k.currentThread (f := fun t =>
      { t with
        state := .exited
        entry := none
        exitStatus := status
        reapable := !t.isUser }) rfl rfl rfl fun _ => hkept hidle
    have hended : SameStacks k ((k.updateThread k.currentThread fun t =>
        { t with
          state := .exited
          entry := none
          exitStatus := status
          reapable := !t.isUser }).record (.exited k.currentThread status)) :=
      { hupdate with }
    exact ((hended.trans (.woken (woken_wakeJoinWaiters _ _))).trans
      (sameStacks_reparent _ _)).trans (sameStacks_schedule _ _)

theorem sameStacks_markReapable (k : Kernel) (t : ThreadId) :
    SameStacks k (k.markReapable t) := by
  unfold markReapable
  split
  · exact .updateThread k t rfl rfl rfl fun h => nomatch h
  · exact .refl k

theorem sameStacks_dropJoinWaiter (k : Kernel) (t : ThreadId) :
    SameStacks k (k.dropJoinWaiter t) := by
  unfold dropJoinWaiter
  split
  · exact .updateThread k t rfl rfl rfl id
  · exact .refl k

theorem sameStacks_collect (k : Kernel) (p : ProcessId) (t : ThreadId) (status : Nat) :
    SameStacks k (k.collect p t status) := by
  unfold collect
  dsimp only
  split <;> exact .of_threads rfl

theorem sameStacks_finishWait (p : ProcessId) (t : ThreadId) (status : Option Nat)
    (k : Kernel) : SameStacks k (finishWait p t status k) := by
  cases status with
  | none => exact .of_threads rfl
  | some status => exact (sameStacks_collect k p t status).trans (.of_threads rfl)

theorem sameStacks_join (k : Kernel) (t : ThreadId) (saved : Context)
    {goOn : Option Nat → Kernel → Kernel} (hgo : ∀ status k, SameStacks k (goOn status k)) :
    SameStacks k (k.join t saved goOn) := by
  unfold join
  dsimp only
  split
  · exact hgo _ _
  · split
    · exact (sameStacks_markReapable k t).trans (hgo _ _)
    · split
      · exact hgo _ _
      · have hadd : SameStacks k (k.addJoinWaiter t) := .updateThread k t rfl rfl rfl id
        exact hadd.trans (sameStacks_blockCurrent _ _)

theorem sameStacks_finishJoin (k : Kernel) (t : ThreadId)
    {goOn : Option Nat → Kernel → Kernel} (hgo : ∀ status k, SameStacks k (goOn status k)) :
    SameStacks k (k.finishJoin t goOn) := by
  unfold finishJoin
  dsimp only
  split
  · exact hgo _ _
  · exact ((sameStacks_dropJoinWaiter k t).trans (sameStacks_markReapable _ t)).trans (hgo _ _)

theorem sameStacks_tryJoin (k : Kernel) (t : ThreadId) : SameStacks k (k.tryJoin t).2 := by
  unfold tryJoin
  dsimp only
  split
  · exact .refl k
  · exact sameStacks_markReapable k t

theorem sameStacks_reapAnyChild (k : Kernel) : SameStacks k k.reapAnyChild.2 := by
  unfold reapAnyChild
  split
  · exact .refl k
  · rename_i p t _
    have hjoin := sameStacks_tryJoin k t
    split
    · rename_i k₁ heq
      rwa [heq] at hjoin
    · rename_i status k₁ heq
      rw [heq] at hjoin
      exact hjoin.trans (sameStacks_collect _ _ _ _)

theorem sameStacks_syscallReapAnyChild {pointer : Nat}
    (h : k.syscallReapAnyChild pointer = some k') : SameStacks k k' := by
  have hreap := sameStacks_reapAnyChild k
  unfold syscallReapAnyChild at h
  split at h
  · rename_i k₁ heq
    rw [heq] at hreap
    obtain rfl := Option.some.inj h
    exact hreap.trans (.of_threads rfl)
  · rename_i p status k₁ heq
    rw [heq] at hreap
    split at h
    · obtain ⟨memory, -, rfl⟩ := Option.map_eq_some_iff.mp h
      exact hreap.trans (.of_threads rfl)
    · obtain rfl := Option.some.inj h
      exact hreap.trans (.of_threads rfl)

theorem sameStacks_terminateProcess (k : Kernel) (p : ProcessId) :
    SameStacks k (k.terminateProcess p).2 := by
  unfold terminateProcess
  split
  · exact .refl k
  · rename_i t _
    split
    · exact .refl k
    · have hupdate := SameStacks.updateThread k t (f := fun t =>
        { t with
          state := .exited
          entry := none
          exitStatus := terminatedStatus }) rfl rfl rfl id
      have hended : SameStacks k ((k.updateThread t fun t =>
          { t with
            state := .exited
            entry := none
            exitStatus := terminatedStatus }).record (.terminated p t)) :=
        { hupdate with }
      exact hended.trans (.woken (woken_wakeJoinWaiters _ _))

theorem sameStacks_waitProcess (k : Kernel) (p : ProcessId) :
    SameStacks k (k.waitProcess p) := by
  unfold waitProcess
  split
  · exact .of_threads rfl
  · exact sameStacks_join k _ _ fun status k => sameStacks_finishWait p _ status k

theorem sameStacks_tryWaitProcess (k : Kernel) (p : ProcessId) :
    SameStacks k (k.tryWaitProcess p) := by
  unfold tryWaitProcess
  split
  · exact .of_threads rfl
  · exact (sameStacks_tryJoin k _).trans (sameStacks_finishWait p _ _ _)

/-! ## New threads -/

open KernelCall

/-- The slot can be filled: nothing depends on its stacks. -/
structure Fillable (started : Prop) (slot : ThreadId) (k : Kernel) : Prop
    extends Stacked started k where
  reapable : (k.threads slot).reapable = true
  ne_idle : slot ≠ idleThread

/-- The slot has its stacks. -/
def Filled (started : Prop) (slot : ThreadId) (k : Kernel) : Prop :=
  Fillable started slot k ∧ (k.threads slot).stackAllocated = true

variable {slot : ThreadId}

/-- The stack fields of the slot change, and the tops are right once they
count. -/
theorem Fillable.updateThread (h : Fillable started slot k) {f : Thread → Thread}
    (htops : (f (k.threads slot)).stackAllocated = true → OwnTops slot (f (k.threads slot)))
    (hreapable : (f (k.threads slot)).reapable = (k.threads slot).reapable) :
    Fillable started slot (k.updateThread slot f) := by
  have hself : (k.updateThread slot f).threads slot = f (k.threads slot) := put_same _ _ _
  have hother : ∀ t, t ≠ slot → (k.updateThread slot f).threads t = k.threads t :=
    fun t ht => put_other ht
  refine ⟨⟨fun t ht => ?_, fun t ht => ?_⟩, ?_, h.ne_idle⟩
  · by_cases hts : t = slot
    · subst hts
      rw [hself] at ht ⊢
      exact htops ht
    · rw [hother t hts] at ht ⊢
      exact h.tops t ht
  · by_cases hts : t = slot
    · subst hts
      rw [hself, hreapable, h.reapable] at ht
      rcases ht with ht | ⟨-, ht⟩
      · cases ht
      · exact absurd ht h.ne_idle
    · rw [hother t hts] at ht ⊢
      exact h.kept t ht
  · rw [hself, hreapable, h.reapable]

theorem Fillable.same (h : Fillable started slot k) (hthreads : k'.threads = k.threads) :
    Fillable started slot k' :=
  ⟨h.toStacked.same (.of_threads hthreads), by rw [hthreads]; exact h.reapable, h.ne_idle⟩

theorem keeps_ofMemory {R : Kernel → Prop}
    (hR : ∀ k k' : Kernel, k'.threads = k.threads → R k → R k') {ε α : Type}
    (x : EStateM ε Memory α) : Keeps R (ofMemory x) := by
  intro k hk
  unfold ofMemory
  cases x k.memory <;> exact hR k _ rfl hk

/-- A stack that has been allocated is the slot's own. -/
theorem allocateKernelStack_top {R : Kernel → Prop}
    (hR : ∀ k k' : Kernel, k'.threads = k.threads → R k → R k') (slot : Nat) :
    Spec R (ofMemory (allocateKernelStack slot))
      (fun top k => top = kernelStackTop slot ∧ R k) (fun _ => R) := by
  have htop : Spec (fun _ => True) (allocateKernelStack slot)
      (fun top _ => top = kernelStackTop slot) fun _ _ => True := by
    have hany : ∀ {α : Type} (x : Paging α),
        Spec (fun _ => True) x (fun _ _ => True) fun _ _ => True := by
      intro α x m _
      cases x m <;> trivial
    exact Spec.bind (hany _) fun _ => Spec.pure fun _ _ => rfl
  intro k hk
  have hspec := htop k.memory trivial
  unfold ofMemory
  cases hx : allocateKernelStack slot k.memory with
  | ok top memory =>
    rw [hx] at hspec
    exact ⟨hspec, hR k _ rfl hk⟩
  | error e memory => exact hR k _ rfl hk

theorem fillable_releaseResources (h : Fillable started slot k) :
    Fillable started slot (k.releaseResources slot) := by
  unfold releaseResources
  dsimp only
  split
  · exact h
  · refine Fillable.updateThread (f := fun t =>
      { t with
        stackTop := 0
        syscallStackTop := 0
        stackAllocated := false
        ownsUserStack := false }) (h.same ?_) (fun hallocated => ?_) rfl
    · rfl
    · cases hallocated

theorem filled_prepareSlot :
    Spec (Fillable started slot) (prepareSlot slot) (fun _ => Filled started slot)
      (fun _ => Stacked started) := by
  have hfail : ∀ (e : Stop) k, Fillable started slot k → Stacked started k :=
    fun _ _ h => h.toStacked
  refine Spec.bind (Spec.update fun k h => fillable_releaseResources h :
    Spec _ _ (fun _ => Fillable started slot) _) fun _ => ?_
  refine Spec.bind_get fun k h => ?_
  have hstart : ∀ k', k' = k → Fillable started slot k' := fun k' heq => heq ▸ h
  refine Spec.ite (fun _ => Spec.conseq ?_ hstart (fun _ _ hk => hk) fun _ _ hk => hk)
    fun hallocated => Spec.pure fun k' heq => ?_
  · refine Spec.bind ((allocateKernelStack_top (fun _ _ hk h => h.same hk) slot).mono_fail
      hfail) fun stackTop => Spec.and_pre fun htop => ?_
    refine Spec.bind (Spec.update fun k h => ?_ : Spec _ _ (fun _ k =>
      Fillable started slot k ∧ (k.threads slot).stackTop = kernelStackTop slot) _) fun _ => ?_
    · refine ⟨Fillable.updateThread (f := fun t => { t with stackTop }) h
        (fun hallocated => ⟨htop, (h.tops slot hallocated).2⟩) rfl, ?_⟩
      exact (congrArg Thread.stackTop (put_same _ _ _)).trans htop
    refine Spec.bind ((allocateKernelStack_top (R := fun k => Fillable started slot k ∧
      (k.threads slot).stackTop = kernelStackTop slot) (fun k k' hk h => ⟨h.1.same hk, ?_⟩)
      (slot + maxThreads)).mono_fail fun e k h => hfail e k h.1) fun syscallStackTop =>
        Spec.and_pre fun hsyscall => ?_
    · rw [hk]
      exact h.2
    refine Spec.update fun k h => ⟨Fillable.updateThread
      (f := fun t => { t with syscallStackTop, stackAllocated := true }) h.1
      (fun _ => ⟨h.2, hsyscall⟩) rfl, ?_⟩
    exact congrArg Thread.stackAllocated (put_same _ _ _)
  · rw [heq]
    exact ⟨h, not_not.mp hallocated⟩

theorem filled_chooseUserStack (stack : Option Nat) :
    Spec (Filled started slot) (chooseUserStack slot stack) (fun _ => Filled started slot)
      (fun _ => Stacked started) := by
  have hfail : ∀ (e : Stop) k, Filled started slot k → Stacked started k :=
    fun _ _ h => h.1.toStacked
  have hsame : ∀ k k' : Kernel, k'.threads = k.threads → Filled started slot k →
      Filled started slot k' := by
    intro k k' hk h
    refine ⟨h.1.same hk, ?_⟩
    rw [hk]
    exact h.2
  cases stack with
  | some stack => exact Spec.pure fun _ h => h
  | none =>
    refine Spec.bind_read fun _ _ => ?_
    refine Spec.bind ((keeps_ofMemory hsame _).mono_fail hfail) fun stackTop => ?_
    refine Spec.bind (Spec.update fun k h => ?_ :
      Spec _ _ (fun _ => Filled started slot) _) fun _ => ?_
    · exact hsame k _ rfl h
    refine Spec.ite (fun _ => ?_) fun _ => Spec.pure fun _ h => h
    exact Spec.bind (Spec.throw (hfail .failed)) fun _ => Spec.pure fun _ h => h

/-- A new thread takes over the stacks of its slot. -/
theorem Filled.install (h : Filled started slot k) (entry : Option Nat)
    (process : Option ProcessId) (userContext : UserContext) (isUser ownsUserStack : Bool) :
    Stacked started (k.install slot (newThread (k.threads slot) entry process userContext
      isUser ownsUserStack)) := by
  have htops := h.1.tops slot h.2
  generalize hthread : newThread (k.threads slot) entry process userContext isUser
    ownsUserStack = thread
  have hfields : thread.stackAllocated = true ∧ OwnTops slot thread := by
    rw [← hthread]
    exact ⟨rfl, htops⟩
  have hupdated : Stacked started (k.updateThread slot fun _ => thread) := by
    have hself : (k.updateThread slot fun _ => thread).threads slot = thread := put_same _ _ _
    have hother : ∀ t, t ≠ slot →
        (k.updateThread slot fun _ => thread).threads t = k.threads t := fun t ht => put_other ht
    refine ⟨fun t ht => ?_, fun t ht => ?_⟩
    · by_cases hts : t = slot
      · rw [hts, hself]
        exact hfields.2
      · rw [hother t hts] at ht ⊢
        exact h.1.tops t ht
    · by_cases hts : t = slot
      · rw [hts, hself]
        exact hfields.1
      · rw [hother t hts] at ht ⊢
        exact h.1.kept t ht
  unfold Kernel.install
  have hrecorded : SameStacks (k.updateThread slot fun _ => thread)
      ((k.updateThread slot fun _ => thread).record (.handed slot)) := .of_threads rfl
  exact (hupdated.same hrecorded).same (.woken (woken_enqueue _ slot))

theorem Stacked.fillable (h : Stacked started k) (hslot : k.reusableSlot = some slot) :
    Fillable started slot k := by
  obtain ⟨hpos, -, -, hreapable⟩ := reusableSlot_some hslot
  exact ⟨h, hreapable, Nat.one_le_iff_ne_zero.mp hpos⟩

theorem stacked_spawn (entry : Nat) : Keeps (Stacked started) (spawn entry) := by
  refine Spec.bind_get fun k h => ?_
  have hstart : ∀ k', k' = k → Stacked started k' := fun k' heq => heq ▸ h
  refine Spec.bind ((spec_ofOption _).mono_fail fun _ => hstart) fun slot =>
    Spec.and_pre fun hslot => ?_
  refine Spec.bind (Spec.conseq filled_prepareSlot (fun k' heq => ?_) (fun _ _ h => h)
    fun _ _ h => h) fun _ => ?_
  · rw [heq]
    exact h.fillable hslot
  refine Spec.bind (Spec.update fun k h => h.install _ _ _ _ _ :
    Spec _ _ (fun _ => Stacked started) _) fun _ => Spec.pure fun _ h => h

theorem stacked_spawnUserForProcess (process : ProcessId) (entry argument tlsBase : Nat)
    (stack : Option Nat) :
    Keeps (Stacked started) (spawnUserForProcess process entry argument tlsBase stack) := by
  refine Spec.bind_read fun k _ => ?_
  refine Spec.ite (fun _ => Spec.bind_throw fun _ h => h) fun _ => ?_
  refine Spec.bind_get fun k h => ?_
  have hstart : ∀ k', k' = k → Stacked started k' := fun k' heq => heq ▸ h
  refine Spec.bind ((spec_ofOption _).mono_fail fun _ => hstart) fun slot =>
    Spec.and_pre fun hslot => ?_
  refine Spec.bind (Spec.conseq filled_prepareSlot (fun k' heq => ?_) (fun _ _ h => h)
    fun _ _ h => h) fun _ => ?_
  · rw [heq]
    exact h.fillable hslot
  refine Spec.bind (filled_chooseUserStack stack) fun chosen => ?_
  refine Spec.bind (Spec.update fun k h => h.install _ _ _ _ _ :
    Spec _ _ (fun _ => Stacked started) _) fun _ => Spec.pure fun _ h => h

theorem stacked_spawnUser (entry argument tlsBase : Nat) (stack : Option Nat) :
    Keeps (Stacked started) (spawnUser entry argument tlsBase stack) := by
  refine Spec.bind_read fun k _ => ?_
  refine Spec.ite (fun _ => Spec.bind_throw fun _ h => h) fun _ => ?_
  exact stacked_spawnUserForProcess _ _ _ _ _

/-- Code that leaves the thread table alone. -/
theorem Stacked.of_threads (h : Stacked started k) (hk : k'.threads = k.threads) :
    Stacked started k' :=
  h.same (.of_threads hk)

theorem stacked_modify {f : Kernel → Kernel} (hf : ∀ k, (f k).threads = k.threads) :
    Keeps (Stacked started) (modify f : KernelCall PUnit) :=
  Spec.update fun k h => h.of_threads (hf k)

theorem stacked_ofAccess (x : Memory → Option Memory) : Keeps (Stacked started) (ofAccess x) := by
  intro k h
  unfold ofAccess
  cases x k.memory with
  | none => exact h
  | some memory => exact h.of_threads rfl

theorem stacked_initializeProgram (loaded : LoadedImage) (name : List UInt8)
    (argv : List (List UInt8)) : Keeps (Stacked started) (initializeProgram loaded name argv) := by
  refine Spec.bind (?_ : Keeps (Stacked started) _) fun stackPointer => ?_
  · refine Spec.bind (Spec.forM fun _ _ => stacked_ofAccess _) fun _ => ?_
    refine Spec.bind (Spec.forM fun _ _ => stacked_ofAccess _) fun _ => ?_
    exact Spec.pure fun _ h => h
  · refine Spec.ite (fun _ => ?_) fun _ => Spec.pure fun _ h => h
    exact Spec.bind (stacked_ofAccess _) fun _ => Spec.pure fun _ h => h

theorem stacked_spawnProgram (path : List UInt8) (image : Option (List UInt8))
    (argv : List (List UInt8)) : Keeps (Stacked started) (spawnProgram path image argv) := by
  have hmemory : ∀ {ε α : Type} (x : EStateM ε Memory α), Keeps (Stacked started) (ofMemory x) :=
    fun x => keeps_ofMemory (fun _ _ hk h => h.of_threads hk) x
  refine Spec.bind ((spec_ofOption image).conseq (fun _ h => h) (fun _ _ h => h.2)
    fun _ _ h => h) fun image => ?_
  refine Spec.bind (hmemory _) fun space => ?_
  refine Spec.bind (?_ : Keeps (Stacked started) _) fun process => ?_
  · intro k h
    unfold ofResult
    dsimp only
    rcases hcreate : k.createProcess space with ⟨_ | process, k'⟩
    · rw [createProcess_none hcreate]
      exact h
    · obtain ⟨slot, -, -, -, -, rfl⟩ := createProcess_some hcreate
      exact h.of_threads rfl
  refine Spec.bind (stacked_modify fun _ => rfl) fun _ => ?_
  refine Spec.bind (hmemory _) fun loaded => ?_
  refine Spec.bind (stacked_modify fun _ => rfl) fun _ => ?_
  refine Spec.bind_read fun k _ => ?_
  refine Spec.bind (stacked_modify fun _ => rfl) fun _ => ?_
  refine Spec.bind (stacked_initializeProgram loaded path argv) fun stackPointer => ?_
  refine Spec.bind (stacked_modify fun _ => rfl) fun _ => ?_
  refine Spec.bind (stacked_spawnUserForProcess _ _ _ _ _) fun thread => ?_
  refine Spec.bind (stacked_modify fun k => ?_) fun _ => Spec.pure fun _ h => h
  unfold setProcessMainThread
  split <;> rfl

theorem stacked_brk (requestedBreak : Nat) : Keeps (Stacked started) (brk requestedBreak) := by
  refine Spec.bind_get fun k h => ?_
  have hstart : ∀ k', k' = k → Stacked started k' := fun k' heq => heq ▸ h
  refine Spec.ite (fun _ => Spec.pure hstart) fun _ => ?_
  refine Spec.ite (fun _ => Spec.bind_throw hstart) fun _ => ?_
  refine Spec.ite (fun _ => ?_) fun _ => ?_
  · exact fun _ _ => h.of_threads rfl
  · refine Spec.conseq ?_ hstart (fun _ _ h => h) fun _ _ h => h
    refine Spec.bind (keeps_ofMemory (fun _ _ hk h => h.of_threads hk) _) fun _ => ?_
    exact Spec.bind (stacked_modify fun _ => rfl) fun _ => Spec.pure fun _ h => h

/-! ## Runs -/

theorem Stacked.call {x : KernelCall Nat} (h : Stacked started k)
    (hx : Keeps (Stacked started) x) (hcall : k.call x = some k') : Stacked started k' := by
  unfold Kernel.call at hcall
  split at hcall
  · rename_i heq
    obtain rfl := Option.some.inj hcall
    exact (hx.ok h heq).of_threads rfl
  · rename_i heq
    obtain rfl := Option.some.inj hcall
    exact (hx.error h heq).of_threads rfl
  · cases hcall

theorem sameStacks_goOn {c : Context} (h : k.goOn c = some k') : SameStacks k k' := by
  cases c with
  | trampoline =>
    unfold goOn startThread at h
    dsimp only at h
    split at h
    · obtain rfl := Option.some.inj h
      rw [enterAddressSpace_eq]
      exact .of_threads rfl
    · split at h
      · obtain rfl := Option.some.inj h
        exact .refl k
      · obtain ⟨-, -, rfl⟩ := Option.map_eq_some_iff.mp h
        exact .refl k
  | yielded | blocked | sleeping due | futexWaiting address due =>
    obtain rfl := Option.some.inj h
    exact .of_threads rfl
  | joining t =>
    obtain rfl := Option.some.inj h
    exact sameStacks_finishJoin k t fun _ _ => .of_threads rfl
  | waiting p t =>
    obtain rfl := Option.some.inj h
    exact sameStacks_finishJoin k t (sameStacks_finishWait p t)
  | finished => cases h

theorem Stacked.step (h : Stacked started k) (hw : k.WellFormed) {a : Action}
    (hstep : k.step a = some k') : Stacked started k' := by
  unfold Kernel.step at hstep
  split at hstep
  · cases a with
    | resume =>
      obtain ⟨c, -, hgo⟩ := Option.bind_eq_some_iff.mp hstep
      have hclear : Stacked started { k with resuming := none } :=
        h.of_threads rfl
      exact hclear.same (sameStacks_goOn hgo)
    | tick =>
      obtain rfl := Option.some.inj hstep
      exact h.same (.woken k.woken_tick)
    | yieldNow =>
      obtain rfl := Option.some.inj hstep
      exact h.same (sameStacks_yieldNow k)
    | exit status =>
      obtain rfl := Option.some.inj hstep
      exact h.same (sameStacks_exitCurrent status hw.current_kept)
    | join t =>
      obtain rfl := Option.some.inj hstep
      exact h.same (sameStacks_join k t _ fun _ _ => .of_threads rfl)
    | sleep milliseconds =>
      obtain rfl := Option.some.inj hstep
      unfold sleep
      split
      · exact h.of_threads rfl
      · split
        · exact h.of_threads rfl
        · dsimp only
          split
          · refine Stacked.same ?_ (sameStacks_blockCurrent _ _)
            exact h.of_threads rfl
          · exact h.of_threads rfl
    | threadCreate entry argument tlsBase => exact h.call (stacked_spawnUser _ _ _ _) hstep
    | brk requestedBreak => exact h.call (stacked_brk _) hstep
    | futexWait address actual expected timeout =>
      obtain rfl := Option.some.inj hstep
      unfold futexWait
      split
      · exact h.of_threads rfl
      · split
        · exact h.of_threads rfl
        · split
          · exact h.of_threads rfl
          · dsimp only
            split
            · refine Stacked.same ?_ (sameStacks_blockCurrent _ _)
              exact h.of_threads rfl
            · exact h.of_threads rfl
    | futexWake address count =>
      obtain rfl := Option.some.inj hstep
      unfold futexWake
      split
      · exact h.of_threads rfl
      · exact (h.same (.woken (Wakes.futex (k := k) address count).woken)).of_threads rfl
    | processSpawn path image argv => exact h.call (stacked_spawnProgram _ _ _) hstep
    | waitProcess p =>
      obtain rfl := Option.some.inj hstep
      exact h.same (sameStacks_waitProcess k p)
    | tryWaitProcess p =>
      obtain rfl := Option.some.inj hstep
      exact h.same (sameStacks_tryWaitProcess k p)
    | reapAnyChild pointer => exact h.same (sameStacks_syscallReapAnyChild hstep)
    | terminateProcess p =>
      obtain rfl := Option.some.inj hstep
      exact (h.same (sameStacks_terminateProcess k p)).of_threads rfl
    | spawn entry => exact h.call (stacked_spawn entry) hstep
    | blockCurrent =>
      obtain rfl := Option.some.inj hstep
      exact h.same (sameStacks_blockCurrent k _)
    | wake t =>
      obtain rfl := Option.some.inj hstep
      exact h.same (.woken (k.woken_wake t))
  · cases hstep

/-- Before `ensure_idle`. -/
def Unstarted (k : Kernel) : Prop := Stacked False k ∧ k.idleCreated = false

/-- `ensure_idle` starts the kernel. -/
theorem stacked_ensureIdle :
    Spec Unstarted ensureIdle (fun _ => Stacked True) fun _ _ => True := by
  have htop : ∀ slot, Spec (Stacked False) (ofMemory (allocateKernelStack slot))
      (fun top k => top = kernelStackTop slot ∧ Stacked False k) fun _ _ => True := fun slot =>
    (allocateKernelStack_top (fun _ _ hk h => h.of_threads hk) slot).mono_fail
      fun _ _ _ => trivial
  refine Spec.bind_read fun k hk => ?_
  refine Spec.ite (fun hcreated => ?_) fun _ => ?_
  · rw [hk.2] at hcreated
    cases hcreated
  refine Spec.conseq ?_ (fun k (h : Unstarted k) => h.1) (fun _ _ h => h) fun _ _ h => h
  refine Spec.bind (htop _) fun stackTop => Spec.and_pre fun hstack => ?_
  refine Spec.bind (htop _) fun syscallStackTop => Spec.and_pre fun hsyscall => ?_
  refine Spec.update fun k h => ?_
  generalize hthread : ({ k.threads idleThread with
    stackTop, syscallStackTop, stackAllocated := true, entry := some idleEntry
    state := .ready } : Thread) = thread
  have hfields : thread.stackAllocated = true ∧ OwnTops idleThread thread := by
    rw [← hthread]
    exact ⟨rfl, hstack, hsyscall⟩
  have hupdated : Stacked True { k with threads := put k.threads idleThread thread } := by
    refine ⟨fun t ht => ?_, fun t ht => ?_⟩
    · by_cases hidle : t = idleThread
      · subst hidle
        dsimp only
        rw [put_same]
        exact hfields.2
      · dsimp only at ht ⊢
        rw [put_other hidle] at ht ⊢
        exact h.tops t ht
    · by_cases hidle : t = idleThread
      · subst hidle
        dsimp only
        rw [put_same]
        exact hfields.1
      · dsimp only at ht ⊢
        rw [put_other hidle] at ht ⊢
        exact h.kept t (ht.imp_right fun h => absurd h.2 hidle)
  have hwoken := woken_enqueue { k with threads := put k.threads idleThread thread } idleThread
  rw [← hthread] at hupdated hwoken
  exact (hupdated.same (.woken hwoken)).of_threads rfl

theorem stacked_initial (memory : Memory) : Unstarted (initial memory) := by
  refine ⟨⟨fun t ht => ?_, fun t ht => ?_⟩, rfl⟩
  · cases ht
  · rcases ht with ht | ht
    · cases ht
    · exact ht.1.elim

theorem idleCreated_spawnUser (entry argument tlsBase : Nat) (stack : Option Nat) :
    Spec (fun k => k.idleCreated = false) (spawnUser entry argument tlsBase stack)
      (fun _ k => k.idleCreated = false) fun _ _ => True := by
  intro k hk
  split
  · rename_i heq
    obtain ⟨k₁, userContext, ownsUserStack, hq, -, rfl⟩ :=
      (spawnUser_spec entry argument tlsBase stack).ok (.refl k) heq
    unfold Kernel.install Kernel.enqueue
    split <;> exact hq.idleCreated.trans hk
  · trivial

theorem sameStacks_scheduleFromScheduler (k : Kernel) :
    SameStacks k k.scheduleFromScheduler := by
  obtain ⟨passed, q, -, hcases⟩ := nextReadyLoop_spec k.runQueue.count k (Nat.le_refl _)
  have hfirst : ∀ (k' : Kernel) next, k'.threads = k.threads →
      SameStacks k (k'.startFirst next) := by
    intro k' next hthreads
    have hsame : SameStacks k { k' with currentThread := next } := .of_threads hthreads
    exact (hsame.trans (sameStacks_setState _ next .running)).trans (.of_threads rfl)
  unfold scheduleFromScheduler nextReady
  rcases hcases with ⟨-, -, heq⟩ | ⟨next, -, -, heq⟩
  · rw [heq]
    exact hfirst _ _ rfl
  · rw [heq]
    exact hfirst _ _ rfl

theorem stacked_boot {memory : Memory} {image : List UInt8}
    (h : boot memory image = some k) : Stacked True k := by
  have hkeep : ∀ {α : Type} {x : KernelCall α}, Keeps (Stacked False) x →
      (∀ k₀, Keeps (Quiet k₀) x) →
        Spec Unstarted x (fun _ => Unstarted) fun _ _ => True := by
    intro α x hstacked hquiet
    have hidle := keeps_of_quiet hquiet (R := fun k => k.idleCreated = false)
      fun _ _ h hq => hq.idleCreated.trans h
    exact (hstacked.and hidle).mono_fail fun _ _ _ => trivial
  have hmemory : ∀ {ε α : Type} (x : EStateM ε Memory α),
      Spec Unstarted (ofMemory x) (fun _ => Unstarted) fun _ _ => True := fun x =>
    hkeep (keeps_ofMemory (fun _ _ hk h => h.of_threads hk) x) fun _ => quiet_ofMemory x
  have hspec : Spec Unstarted (runDemo image) (fun _ => Stacked True) fun _ _ => True := by
    refine Spec.bind (hmemory _) fun space => ?_
    refine Spec.bind (hmemory _) fun loaded => ?_
    refine Spec.bind (Spec.update fun k h => ?_ : Spec _ _ (fun _ => Unstarted) _) fun _ => ?_
    · exact ⟨h.1.of_threads rfl, h.2⟩
    refine Spec.bind (hmemory _) fun _ => ?_
    refine Spec.bind (Spec.update fun k h => ?_ : Spec _ _ (fun _ => Unstarted) _) fun _ => ?_
    · exact ⟨h.1.of_threads rfl, h.2⟩
    refine Spec.bind (hkeep (stacked_initializeProgram _ _ _)
      fun _ => quiet_initializeProgram _ _ _) fun stackPointer => ?_
    refine Spec.bind (Spec.update fun k h => ?_ : Spec _ _ (fun _ => Unstarted) _) fun _ => ?_
    · exact ⟨h.1.of_threads rfl, h.2⟩
    refine Spec.bind (?_ : Spec _ _ (fun _ => Unstarted) _) fun _ => ?_
    · exact ((stacked_spawnUser _ _ _ _).and (idleCreated_spawnUser _ _ _ _)).mono_fail
        fun _ _ _ => trivial
    refine Spec.bind stacked_ensureIdle fun _ => ?_
    exact Spec.update fun k h => h.same (sameStacks_scheduleFromScheduler k)
  unfold boot at h
  split at h
  · rename_i heq
    obtain rfl := Option.some.inj h
    exact hspec.ok (stacked_initial memory) heq
  · cases h

end Steps

namespace ReachedFrom

variable {memory : Memory} {guard : Kernel → Action → Prop} {k : Kernel}

theorem stacked (h : ReachedFrom memory guard k) : Stacked True k := by
  obtain ⟨image, k₀, hk₀, hrun⟩ := h
  have hkeeps : ∀ (k : Kernel) a (k' : Kernel), k.WellFormed ∧ Stacked True k →
      guard k a → k.step a = some k' → k'.WellFormed ∧ Stacked True k' := by
    intro k a k' hinv _ hstep
    exact ⟨hinv.1.step hstep, hinv.2.step hinv.1 hstep⟩
  exact (hrun.invariant _ hkeeps ⟨(boot_booted hk₀).wellFormed, stacked_boot hk₀⟩).2

end ReachedFrom

end Kernel

end OpenKernel
