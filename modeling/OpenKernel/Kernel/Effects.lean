import OpenKernel.Kernel.Step
import OpenKernel.Lib.Effect
import OpenKernel.Lib.History

/-!
# What the kernel functions change

One description for each kind of change, so that an invariant needs one
lemma for each kind and none for each function.

* `Quiet`: memory, stacks and heap bounds; nothing that the scheduler and
  the process calls decide on.
* `Woken`: blocked threads become ready.
* `Dispatched`: the processor goes to the next thread.
-/

namespace OpenKernel

open Lib

/-- A thread without the fields that describe its stacks. -/
def Thread.core (t : Thread) : Thread :=
  { t with
    stackTop := 0
    syscallStackTop := 0
    stackAllocated := false
    ownsUserStack := false }

namespace Event

/-- Events of memory and of returns to user mode. -/
def IsQuiet : Event → Prop
  | stackMapped _ _ | returned _ _ => True
  | _ => False

/-- Events of the run queue. -/
def IsQueue : Event → Prop
  | enqueued _ | dropped _ | skipped _ | dispatched _ _ | idled => True
  | _ => False

end Event

/-! ## Quiet changes -/

/-- Only memory, stacks and heap bounds have changed. -/
structure Quiet (k k' : Kernel) : Prop where
  core : ∀ t, (k'.threads t).core = (k.threads t).core
  runQueue : k'.runQueue = k.runQueue
  currentThread : k'.currentThread = k.currentThread
  processes : k'.processes = k.processes
  timerTicks : k'.timerTicks = k.timerTicks
  sleepers : k'.sleepers = k.sleepers
  futexWaiters : k'.futexWaiters = k.futexWaiters
  resuming : k'.resuming = k.resuming
  idleCreated : k'.idleCreated = k.idleCreated
  log : Extends Event.IsQuiet k.log k'.log

namespace Quiet

variable {k k' k'' : Kernel}

theorem refl (k : Kernel) : Quiet k k :=
  ⟨fun _ => rfl, rfl, rfl, rfl, rfl, rfl, rfl, rfl, rfl, .refl⟩

theorem trans (h : Quiet k k') (h' : Quiet k' k'') : Quiet k k'' where
  core t := (h'.core t).trans (h.core t)
  runQueue := h'.runQueue.trans h.runQueue
  currentThread := h'.currentThread.trans h.currentThread
  processes := h'.processes.trans h.processes
  timerTicks := h'.timerTicks.trans h.timerTicks
  sleepers := h'.sleepers.trans h.sleepers
  futexWaiters := h'.futexWaiters.trans h.futexWaiters
  resuming := h'.resuming.trans h.resuming
  idleCreated := h'.idleCreated.trans h.idleCreated
  log := h.log.trans h'.log

/-- A field that the stacks do not affect is the same. -/
theorem field {α : Type} (h : Quiet k k') (t : ThreadId) (f : Thread → α)
    (hf : ∀ t : Thread, f t.core = f t) :
    f (k'.threads t) = f (k.threads t) := by
  rw [← hf, h.core, hf]

section Fields

variable (h : Quiet k k') (t : ThreadId)
include h

theorem state : (k'.threads t).state = (k.threads t).state :=
  h.field t Thread.state fun _ => rfl

theorem process : (k'.threads t).process = (k.threads t).process :=
  h.field t Thread.process fun _ => rfl

theorem isUser : (k'.threads t).isUser = (k.threads t).isUser :=
  h.field t Thread.isUser fun _ => rfl

theorem reapable : (k'.threads t).reapable = (k.threads t).reapable :=
  h.field t Thread.reapable fun _ => rfl

theorem exitStatus : (k'.threads t).exitStatus = (k.threads t).exitStatus :=
  h.field t Thread.exitStatus fun _ => rfl

theorem context : (k'.threads t).context = (k.threads t).context :=
  h.field t Thread.context fun _ => rfl

theorem joinWaiters : (k'.threads t).joinWaiters = (k.threads t).joinWaiters :=
  h.field t Thread.joinWaiters fun _ => rfl

theorem joinWaiterCount :
    (k'.threads t).joinWaiterCount = (k.threads t).joinWaiterCount :=
  h.field t Thread.joinWaiterCount fun _ => rfl

theorem contextOf : k'.contextOf t = k.contextOf t := by
  unfold Kernel.contextOf
  rw [h.currentThread, h.resuming, h.context]

end Fields

theorem reusableSlot (h : Quiet k k') : k'.reusableSlot = k.reusableSlot := by
  unfold Kernel.reusableSlot
  simp only [h.state, h.reapable]

end Quiet

namespace Kernel

theorem quiet_returnValue (k : Kernel) (value : Nat) :
    Quiet k (k.returnValue value) :=
  { Quiet.refl k with log := .cons .refl trivial }

theorem quiet_memory (k : Kernel) (memory : Memory) :
    Quiet k { k with memory } :=
  { Quiet.refl k with }

/-- A change of the stack fields of one thread. -/
theorem quiet_updateThread (k : Kernel) (slot : ThreadId) {f : Thread → Thread}
    (hf : ∀ t : Thread, (f t).core = t.core) :
    Quiet k (k.updateThread slot f) := by
  refine { Quiet.refl k with core := fun t => ?_ }
  by_cases ht : t = slot
  · subst ht
    show (put k.threads t _ t).core = _
    rw [put_same, hf]
  · show (put k.threads slot _ t).core = _
    rw [put_other ht]

theorem quiet_releaseResources (k : Kernel) (slot : ThreadId) :
    Quiet k (k.releaseResources slot) := by
  unfold releaseResources
  dsimp only
  split
  · exact Quiet.refl k
  · exact (quiet_memory k _).trans (quiet_updateThread _ _ fun _ => rfl)

/-! ## Waking -/

end Kernel

/-- Some blocked threads have been made ready. -/
structure Woken (k k' : Kernel) : Prop where
  threads : ∀ t, k'.threads t = k.threads t ∨
    (k.threads t).state = .blocked ∧
      k'.threads t = { k.threads t with state := .ready }
  currentThread : k'.currentThread = k.currentThread
  processes : k'.processes = k.processes
  resuming : k'.resuming = k.resuming
  memory : k'.memory = k.memory
  log : Extends Event.IsQueue k.log k'.log

namespace Woken

variable {k k' k'' : Kernel}

theorem refl (k : Kernel) : Woken k k :=
  ⟨fun _ => .inl rfl, rfl, rfl, rfl, rfl, .refl⟩

theorem trans (h : Woken k k') (h' : Woken k' k'') : Woken k k'' where
  threads t := by
    rcases h.threads t with ht | ⟨hb, ht⟩
    · rw [← ht]
      exact h'.threads t
    · rcases h'.threads t with ht' | ⟨hb', -⟩
      · exact .inr ⟨hb, ht'.trans ht⟩
      · rw [ht] at hb'
        cases hb'
  currentThread := h'.currentThread.trans h.currentThread
  processes := h'.processes.trans h.processes
  resuming := h'.resuming.trans h.resuming
  memory := h'.memory.trans h.memory
  log := h.log.trans h'.log

/-- A field other than the state is the same. -/
theorem field {α : Type} (h : Woken k k') (t : ThreadId) (f : Thread → α)
    (hf : ∀ (t : Thread) s, f { t with state := s } = f t) :
    f (k'.threads t) = f (k.threads t) := by
  rcases h.threads t with ht | ⟨-, ht⟩
  · rw [ht]
  · rw [ht, hf]

/-- The only new state is ready, and only for a blocked thread. -/
theorem state (h : Woken k k') (t : ThreadId) :
    (k'.threads t).state = (k.threads t).state ∨
      (k.threads t).state = .blocked ∧ (k'.threads t).state = .ready := by
  rcases h.threads t with ht | ⟨hb, ht⟩
  · exact .inl (by rw [ht])
  · exact .inr ⟨hb, by rw [ht]⟩

theorem exited_iff (h : Woken k k') (t : ThreadId) :
    (k'.threads t).state = .exited ↔ (k.threads t).state = .exited := by
  rcases h.state t with ht | ⟨hb, ht⟩
  · rw [ht]
  · rw [hb, ht]
    simp

section Fields

variable (h : Woken k k') (t : ThreadId)
include h

theorem process : (k'.threads t).process = (k.threads t).process :=
  h.field t Thread.process fun _ _ => rfl

theorem isUser : (k'.threads t).isUser = (k.threads t).isUser :=
  h.field t Thread.isUser fun _ _ => rfl

theorem reapable : (k'.threads t).reapable = (k.threads t).reapable :=
  h.field t Thread.reapable fun _ _ => rfl

theorem exitStatus : (k'.threads t).exitStatus = (k.threads t).exitStatus :=
  h.field t Thread.exitStatus fun _ _ => rfl

theorem context : (k'.threads t).context = (k.threads t).context :=
  h.field t Thread.context fun _ _ => rfl

theorem joinWaiters : (k'.threads t).joinWaiters = (k.threads t).joinWaiters :=
  h.field t Thread.joinWaiters fun _ _ => rfl

theorem joinWaiterCount :
    (k'.threads t).joinWaiterCount = (k.threads t).joinWaiterCount :=
  h.field t Thread.joinWaiterCount fun _ _ => rfl

theorem contextOf : k'.contextOf t = k.contextOf t := by
  unfold Kernel.contextOf
  rw [h.currentThread, h.resuming, h.context]

end Fields

/-- The loop rule. -/
theorem foldl {α : Type} {f : Kernel → α → Kernel}
    (hf : ∀ k a, Woken k (f k a)) (as : List α) (k : Kernel) :
    Woken k (as.foldl f k) := by
  induction as generalizing k with
  | nil => exact refl k
  | cons a as ih => exact (hf k a).trans (ih (f k a))

end Woken

namespace Kernel

theorem enqueue_fields (k : Kernel) (t : ThreadId) :
    (k.enqueue t).threads = k.threads ∧
      (k.enqueue t).currentThread = k.currentThread ∧
      (k.enqueue t).processes = k.processes ∧
      (k.enqueue t).resuming = k.resuming ∧
      (k.enqueue t).memory = k.memory ∧
      Extends Event.IsQueue k.log (k.enqueue t).log := by
  unfold enqueue
  split <;> exact ⟨rfl, rfl, rfl, rfl, rfl, .cons .refl trivial⟩

theorem woken_makeReady (k : Kernel) (t : ThreadId) :
    Woken k (k.makeReady t) := by
  unfold makeReady
  split
  · rename_i hb
    obtain ⟨h1, h2, h3, h4, h5, h6⟩ := (k.setState t .ready).enqueue_fields t
    refine ⟨fun u => ?_, h2, h3, h4, h5, h6⟩
    rw [h1]
    show put k.threads t _ u = _ ∨ _ ∧ put k.threads t _ u = _
    by_cases hu : u = t
    · subst hu
      rw [put_same]
      exact .inr ⟨hb, rfl⟩
    · rw [put_other hu]
      exact .inl rfl
  · exact .refl k

theorem woken_wake (k : Kernel) (t : ThreadId) : Woken k (k.wake t).2 := by
  unfold wake
  split
  · exact .refl k
  · exact k.woken_makeReady t

theorem woken_wakeJoinWaiters (k : Kernel) (t : ThreadId) :
    Woken k (k.wakeJoinWaiters t) :=
  Woken.foldl (fun k _ => k.woken_makeReady _) _ k

theorem woken_expireSleeper (k : Kernel) (index : Nat) :
    Woken k (k.expireSleeper index) := by
  unfold expireSleeper
  split
  · exact .refl k
  · split
    · refine Woken.trans ?_ (woken_wake _ _)
      exact { Woken.refl k with }
    · exact .refl k

theorem woken_fireFutex (k : Kernel) (index : Nat) (entry : FutexWaiter) :
    Woken k (k.fireFutex index entry).2 := by
  refine Woken.trans ?_ (woken_wake _ _)
  exact { Woken.refl k with }

theorem woken_expireFutex (k : Kernel) (index : Nat) :
    Woken k (k.expireFutex index) := by
  unfold expireFutex
  split
  · exact .refl k
  · split
    · exact k.woken_fireFutex index _
    · exact .refl k

theorem woken_tick (k : Kernel) : Woken k k.tick := by
  have hclock : Woken k { k with timerTicks := k.timerTicks + 1 } :=
    { Woken.refl k with }
  exact (hclock.trans (Woken.foldl woken_expireSleeper _ _)).trans
    (Woken.foldl woken_expireFutex _ _)

end Kernel

/-! ## Dispatch -/

namespace Kernel

/-- What `next_ready` does: it passes over the exited threads at the front
of the queue and takes the first other one. -/
theorem nextReadyLoop_spec :
    ∀ (turns : Nat) (k : Kernel), k.runQueue.count ≤ turns →
      ∃ (passed : List ThreadId) (q : RunQueue),
        (∀ t ∈ passed, (k.threads t).state = .exited) ∧
        ((k.runQueue.contents = passed ∧ q.contents = [] ∧
            nextReadyLoop turns k =
              (none, { k with
                runQueue := q
                log := (passed.map Event.skipped).reverse ++ k.log })) ∨
          ∃ next, k.runQueue.contents = passed ++ next :: q.contents ∧
            (k.threads next).state ≠ .exited ∧
            nextReadyLoop turns k =
              (some next, { k with
                runQueue := q
                log := .dispatched next (k.threads next).state ::
                  ((passed.map Event.skipped).reverse ++ k.log) })) := by
  intro turns
  induction turns with
  | zero =>
    intro k hk
    have hnil : k.runQueue.contents = [] :=
      (Ring.contents_eq_nil_iff _).mpr (Nat.le_zero.mp hk)
    exact ⟨[], k.runQueue, by simp, .inl ⟨hnil, hnil, rfl⟩⟩
  | succ turns ih =>
    intro k hk
    cases hc : k.runQueue.contents with
    | nil =>
      refine ⟨[], k.runQueue, by simp, .inl ⟨rfl, hc, ?_⟩⟩
      rw [nextReadyLoop, RunQueue.dequeue_of_nil _ hc]
      rfl
    | cons t rest =>
      obtain ⟨q, hq, hrest⟩ := k.runQueue.dequeue_of_cons hc
      by_cases hexited : (k.threads t).state = .exited
      · have hcount : q.count ≤ turns := by
          have h1 := Ring.length_contents k.runQueue.toRing
          have h2 := Ring.length_contents q.toRing
          rw [hc, List.length_cons] at h1
          rw [hrest] at h2
          omega
        obtain ⟨passed, q', hpassed, hcases⟩ :=
          ih ({ k with runQueue := q }.record (.skipped t)) hcount
        have hloop : nextReadyLoop (turns + 1) k =
            nextReadyLoop turns ({ k with runQueue := q }.record (.skipped t)) := by
          rw [nextReadyLoop, hq]
          exact if_pos hexited
        refine ⟨t :: passed, q', ?_, ?_⟩
        · intro u hu
          rcases List.mem_cons.mp hu with rfl | hu
          · exact hexited
          · exact hpassed u hu
        · rcases hcases with ⟨hc', hq', heq⟩ | ⟨next, hc', hne, heq⟩
          · refine .inl ⟨by rw [← hrest, ← hc']; rfl, hq', ?_⟩
            rw [hloop, heq]
            simp [record]
          · refine .inr ⟨next, by rw [← hrest]; exact congrArg _ hc', hne, ?_⟩
            rw [hloop, heq]
            simp [record]
      · refine ⟨[], q, by simp, .inr ⟨t, by rw [hrest]; rfl, hexited, ?_⟩⟩
        rw [nextReadyLoop, hq]
        exact if_neg hexited

/-- The address space that `schedule_from_current` loads for `next`. -/
def spaceToEnter (k : Kernel) (next : ThreadId) : Option Nat :=
  if next ≠ k.currentThread ∧ (k.threads next).isUser then
    (k.threads next).process.bind k.processAddressSpace
  else none

end Kernel

/-- The processor has gone from the current thread, which goes on at `saved`
later, to the current thread of `k'`. -/
structure Dispatched (k : Kernel) (saved : Context) (k' : Kernel) : Prop where
  runnable : k'.currentThread = idleThread ∨
    (k.threads k'.currentThread).state ≠ .exited
  threads : ∀ t, k'.threads t =
    { k.threads t with
      state := if t = k'.currentThread then .running else (k.threads t).state
      context :=
        if t = k.currentThread ∧ t ≠ k'.currentThread then saved
        else (k.threads t).context }
  contextOf : ∀ t, k'.contextOf t =
    if t = k.currentThread then some saved else k.contextOf t
  processes : k'.processes = k.processes
  timerTicks : k'.timerTicks = k.timerTicks
  sleepers : k'.sleepers = k.sleepers
  futexWaiters : k'.futexWaiters = k.futexWaiters
  memory : k'.memory = { k.memory with
    cr3 := (k.spaceToEnter k'.currentThread).getD k.memory.cr3 }
  log : Extends Event.IsQueue k.log k'.log

namespace Dispatched

variable {k k' : Kernel} {saved : Context}

/-- A field other than the state and the context is the same. -/
theorem field {α : Type} (h : Dispatched k saved k') (t : ThreadId)
    (f : Thread → α)
    (hf : ∀ (t : Thread) s c, f { t with state := s, context := c } = f t) :
    f (k'.threads t) = f (k.threads t) := by
  rw [h.threads, hf]

section Fields

variable (h : Dispatched k saved k') (t : ThreadId)
include h

theorem process : (k'.threads t).process = (k.threads t).process :=
  h.field t Thread.process fun _ _ _ => rfl

theorem isUser : (k'.threads t).isUser = (k.threads t).isUser :=
  h.field t Thread.isUser fun _ _ _ => rfl

theorem reapable : (k'.threads t).reapable = (k.threads t).reapable :=
  h.field t Thread.reapable fun _ _ _ => rfl

theorem exitStatus : (k'.threads t).exitStatus = (k.threads t).exitStatus :=
  h.field t Thread.exitStatus fun _ _ _ => rfl

theorem joinWaiters : (k'.threads t).joinWaiters = (k.threads t).joinWaiters :=
  h.field t Thread.joinWaiters fun _ _ _ => rfl

theorem joinWaiterCount :
    (k'.threads t).joinWaiterCount = (k.threads t).joinWaiterCount :=
  h.field t Thread.joinWaiterCount fun _ _ _ => rfl

theorem state : (k'.threads t).state =
    if t = k'.currentThread then .running else (k.threads t).state := by
  rw [h.threads]

theorem state_of_ne (ht : t ≠ k'.currentThread) :
    (k'.threads t).state = (k.threads t).state := by
  rw [h.state, if_neg ht]

end Fields

end Dispatched

namespace Kernel

theorem enterAddressSpace_eq (k : Kernel) (thread : ThreadId) :
    k.enterAddressSpace thread =
      { k with
        memory := { k.memory with
          cr3 := ((k.threads thread).process.bind k.processAddressSpace).getD
            k.memory.cr3 } } := by
  unfold enterAddressSpace
  split <;> rename_i h <;> rw [h] <;> rfl

theorem dispatched_switchTo (k : Kernel) (next : ThreadId) (saved : Context)
    (hnext : next = idleThread ∨ (k.threads next).state ≠ .exited) :
    (k.switchTo next saved).currentThread = next ∧
      Dispatched k saved (k.switchTo next saved) := by
  unfold switchTo
  by_cases hcur : next = k.currentThread
  · subst hcur
    rw [if_pos rfl]
    refine ⟨rfl, ⟨hnext, fun t => ?_, fun t => ?_, rfl, rfl, rfl, rfl, ?_, .refl⟩⟩
    · by_cases ht : t = k.currentThread <;> simp [setState, updateThread, ht]
    · by_cases ht : t = k.currentThread <;>
        simp [contextOf, setState, updateThread, ht]
    · simp [spaceToEnter, setState, updateThread]
  · rw [if_neg hcur]
    have hspace : (if (({ k with currentThread := next }.setState next
            .running).threads next).isUser then
          ({ k with currentThread := next }.setState next
            .running).enterAddressSpace next
        else { k with currentThread := next }.setState next .running) =
        { { k with currentThread := next }.setState next .running with
          memory := { k.memory with
            cr3 := (k.spaceToEnter next).getD k.memory.cr3 } } := by
      unfold spaceToEnter
      by_cases hu : (k.threads next).isUser = true
      · rw [if_pos (by simpa [setState, updateThread] using hu),
          if_pos ⟨hcur, hu⟩, enterAddressSpace_eq]
        simp only [setState, updateThread, put_same]
        rfl
      · rw [if_neg (by simpa [setState, updateThread] using hu),
          if_neg fun h => hu h.2]
        rfl
    dsimp only
    rw [hspace]
    have hcur' : k.currentThread ≠ next := fun h => hcur h.symm
    refine ⟨rfl, ⟨hnext, fun t => ?_, fun t => ?_, rfl, rfl, rfl, rfl, rfl, .refl⟩⟩
    · by_cases ht : t = next
      · simp [setState, updateThread, ht, hcur]
      · by_cases ht' : t = k.currentThread <;>
          simp [setState, updateThread, ht, ht', hcur']
    · by_cases ht : t = next
      · simp [contextOf, setState, updateThread, ht, hcur]
      · by_cases ht' : t = k.currentThread <;>
          simp [contextOf, setState, updateThread, ht, ht', hcur']

/-- How a switch has changed the run queue: the entries of exited threads at
its front are gone, and the next entry, if any, is the thread that runs. -/
def Taken (k k' : Kernel) : Prop :=
  ∃ passed : List ThreadId, (∀ t ∈ passed, (k.threads t).state = .exited) ∧
    ((k.runQueue.contents = passed ∧ k'.runQueue.contents = [] ∧
        k'.currentThread = idleThread ∧
        k'.log = .idled :: ((passed.map Event.skipped).reverse ++ k.log)) ∨
      k.runQueue.contents = passed ++ k'.currentThread :: k'.runQueue.contents ∧
        (k.threads k'.currentThread).state ≠ .exited ∧
        k'.log = .dispatched k'.currentThread
          (k.threads k'.currentThread).state ::
            ((passed.map Event.skipped).reverse ++ k.log))

theorem switchTo_queue (k : Kernel) (next : ThreadId) (saved : Context) :
    (k.switchTo next saved).runQueue = k.runQueue ∧
      (k.switchTo next saved).log = k.log := by
  unfold switchTo enterAddressSpace
  dsimp only
  split
  · exact ⟨rfl, rfl⟩
  · split
    · split <;> exact ⟨rfl, rfl⟩
    · exact ⟨rfl, rfl⟩

private theorem extends_skipped (passed : List ThreadId) (log : List Event) :
    Extends Event.IsQueue log ((passed.map Event.skipped).reverse ++ log) := by
  refine ⟨_, rfl, fun e he => ?_⟩
  obtain ⟨t, -, rfl⟩ := List.mem_map.mp (List.mem_reverse.mp he)
  trivial

private theorem switchTo_after (k : Kernel) (q : RunQueue) {log : List Event}
    (hlog : Extends Event.IsQueue k.log log) (next : ThreadId)
    (saved : Context)
    (hnext : next = idleThread ∨ (k.threads next).state ≠ .exited)
    {k' : Kernel}
    (hk' : k' = switchTo { k with runQueue := q, log } next saved) :
    k'.currentThread = next ∧ Dispatched k saved k' ∧ k'.runQueue = q ∧
      k'.log = log := by
  subst hk'
  obtain ⟨hcur, hd⟩ :=
    dispatched_switchTo { k with runQueue := q, log } next saved hnext
  obtain ⟨hq, hlog'⟩ := switchTo_queue { k with runQueue := q, log } next saved
  refine ⟨hcur, { hd with log := ?_ }, hq, hlog'⟩
  rw [hlog']
  exact hlog

/-- What `schedule_from_current` does. -/
theorem schedule_spec (k : Kernel) (saved : Context) :
    Dispatched k saved (k.scheduleFromCurrent saved) ∧
      k.Taken (k.scheduleFromCurrent saved) := by
  obtain ⟨passed, q, hpassed, hcases⟩ :=
    nextReadyLoop_spec k.runQueue.count k (Nat.le_refl _)
  have hskip := extends_skipped passed k.log
  rcases hcases with ⟨hc, hq, heq⟩ | ⟨next, hc, hne, heq⟩
  · have hlog : Extends Event.IsQueue k.log
        (.idled :: ((passed.map Event.skipped).reverse ++ k.log)) :=
      hskip.cons trivial
    obtain ⟨hcur, hd, hrun, hlog'⟩ :=
      switchTo_after k q hlog idleThread saved (.inl rfl) rfl
    rw [scheduleFromCurrent, nextReady, heq]
    exact ⟨hd, passed, hpassed,
      .inl ⟨hc, (congrArg (·.contents) hrun).trans hq, hcur, hlog'⟩⟩
  · have hlog : Extends Event.IsQueue k.log
        (.dispatched next (k.threads next).state ::
          ((passed.map Event.skipped).reverse ++ k.log)) :=
      hskip.cons trivial
    obtain ⟨hcur, hd, hrun, hlog'⟩ :=
      switchTo_after k q hlog next saved (.inr hne) rfl
    rw [scheduleFromCurrent, nextReady, heq]
    refine ⟨hd, passed, hpassed, .inr ?_⟩
    dsimp only
    rw [hcur, hrun]
    exact ⟨hc, hne, hlog'⟩

end Kernel

/-! ## Process records -/

namespace Kernel

/-- A record after its parent `exitedProcess` is gone. -/
def adopt (exitedProcess : ProcessId) (record : Process) : Process :=
  if record.parent = some exitedProcess then
    { record with parent := some userProcessId }
  else record

@[simp] theorem adopt_id (p : ProcessId) (r : Process) :
    (adopt p r).id = r.id := by
  unfold adopt
  split <;> rfl

@[simp] theorem adopt_addressSpace (p : ProcessId) (r : Process) :
    (adopt p r).addressSpace = r.addressSpace := by
  unfold adopt
  split <;> rfl

@[simp] theorem adopt_mainThread (p : ProcessId) (r : Process) :
    (adopt p r).mainThread = r.mainThread := by
  unfold adopt
  split <;> rfl

/-- A record without a parent is nobody's child. -/
theorem adopt_orphan (p : ProcessId) {r : Process} (h : r.parent = none) :
    adopt p r = r := by
  unfold adopt
  rw [h]
  rfl

theorem reparentChildren_spec (k : Kernel) (exitedProcess : ProcessId)
    (thread : ThreadId) :
    ∃ log, k.reparentChildren exitedProcess thread =
        { k with
          processes := fun slot =>
            if slot < maxProcesses then
              adopt exitedProcess (k.processes slot)
            else k.processes slot
          log } ∧
      Extends (fun e => ∃ child, e = .reparented child exitedProcess thread)
        k.log log := by
  unfold reparentChildren
  induction maxProcesses with
  | zero => exact ⟨k.log, by simp, .refl⟩
  | succ n ih =>
    obtain ⟨log, heq, hlog⟩ := ih
    rw [List.range_succ, List.foldl_append, heq]
    simp only [List.foldl_cons, List.foldl_nil, Nat.lt_irrefl, if_false]
    by_cases hp : (k.processes n).parent = some exitedProcess
    · rw [if_pos hp]
      refine ⟨.reparented (k.processes n).id exitedProcess thread :: log, ?_,
        hlog.cons ⟨_, rfl⟩⟩
      unfold record
      congr 1
      funext slot
      dsimp only
      rw [put_apply]
      by_cases hs : slot = n
      · subst hs
        rw [if_pos rfl, if_pos (Nat.lt_succ_self _), adopt, if_pos hp]
      · have hlt : slot < n + 1 ↔ slot < n := by omega
        rw [if_neg hs]
        simp only [hlt]
    · rw [if_neg hp]
      refine ⟨log, ?_, hlog⟩
      congr 1
      funext slot
      by_cases hs : slot = n
      · subst hs
        rw [if_neg (Nat.lt_irrefl _), if_pos (Nat.lt_succ_self _), adopt,
          if_neg hp]
      · have hlt : slot < n + 1 ↔ slot < n := by omega
        simp only [hlt]

end Kernel

/-! ## Calls that can fail -/

namespace KernelCall

variable {k₀ : Kernel} {α : Type}

/-- A change that is quiet wherever it happens. -/
theorem quiet_modify {f : Kernel → Kernel} (hf : ∀ k, Quiet k (f k)) :
    Keeps (Quiet k₀) (modify f : KernelCall PUnit) :=
  Spec.update fun k hk => hk.trans (hf k)

theorem quiet_ofMemory {ε : Type} (x : EStateM ε Memory α) :
    Keeps (Quiet k₀) (ofMemory x) := by
  intro k hk
  unfold ofMemory
  cases x k.memory with
  | ok a memory => exact hk.trans (k.quiet_memory memory)
  | error e memory => exact hk.trans (k.quiet_memory memory)

theorem quiet_ofAccess (x : Memory → Option Memory) :
    Keeps (Quiet k₀) (ofAccess x) := by
  intro k hk
  unfold ofAccess
  cases x k.memory with
  | none => exact hk
  | some memory => exact hk.trans (k.quiet_memory memory)

/-- What quiet changes keep, a quiet call keeps. -/
theorem keeps_of_quiet {R : Kernel → Prop} {x : KernelCall α}
    (hx : ∀ k₀, Keeps (Quiet k₀) x) (hR : ∀ k k', R k → Quiet k k' → R k') :
    Keeps R x := by
  intro k hk
  have h := hx k k (Quiet.refl k)
  cases hxk : x k with
  | ok a k' =>
    rw [hxk] at h
    exact hR k k' hk h
  | error e k' =>
    rw [hxk] at h
    exact hR k k' hk h

theorem spec_ofOption {pre : Kernel → Prop} (x : Option α) :
    Spec pre (ofOption x) (fun a k => x = some a ∧ pre k) (fun _ => pre) := by
  cases x with
  | none => exact Spec.throw fun _ hk => hk
  | some a => exact Spec.pure fun _ hk => ⟨rfl, hk⟩

end KernelCall

namespace Kernel

variable {k₀ : Kernel}

open KernelCall

theorem quiet_prepareSlot (slot : ThreadId) :
    Keeps (Quiet k₀) (prepareSlot slot) := by
  unfold prepareSlot
  refine Spec.bind (quiet_modify fun k => k.quiet_releaseResources slot)
    fun _ => ?_
  refine Spec.bind_read fun _ _ => ?_
  refine Spec.ite (fun _ => ?_) fun _ => Spec.pure fun _ hk => hk
  refine Spec.bind (quiet_ofMemory _) fun stackTop => ?_
  refine Spec.bind (quiet_modify fun k => k.quiet_updateThread slot fun _ => rfl)
    fun _ => ?_
  refine Spec.bind (quiet_ofMemory _) fun syscallStackTop => ?_
  exact quiet_modify fun k => k.quiet_updateThread slot fun _ => rfl

theorem quiet_chooseUserStack (slot : ThreadId) (stack : Option Nat) :
    Keeps (Quiet k₀) (chooseUserStack slot stack) := by
  cases stack with
  | some stack => exact Spec.pure fun _ hk => hk
  | none =>
    refine Spec.bind_read fun _ _ => ?_
    refine Spec.bind (quiet_ofMemory _) fun stackTop => ?_
    refine Spec.bind (quiet_modify fun k => ?_) fun _ => ?_
    · exact { Quiet.refl k with log := .cons .refl trivial }
    · refine Spec.ite (fun _ => ?_) fun _ => Spec.pure fun _ hk => hk
      exact Spec.bind (Spec.throw fun _ hk => hk) fun _ => Spec.pure fun _ hk => hk

theorem quiet_initializeProcessStack (stackPointer : Nat) (name : List UInt8)
    (argv : List (List UInt8)) :
    Keeps (Quiet k₀) (initializeProcessStack stackPointer name argv) := by
  refine Spec.bind (Spec.forM fun _ _ => quiet_ofAccess _) fun _ => ?_
  refine Spec.bind (Spec.forM fun _ _ => quiet_ofAccess _) fun _ => ?_
  exact Spec.pure fun _ hk => hk

theorem quiet_initializeProgram (loaded : LoadedImage) (name : List UInt8)
    (argv : List (List UInt8)) :
    Keeps (Quiet k₀) (initializeProgram loaded name argv) := by
  refine Spec.bind (quiet_initializeProcessStack _ name argv)
    fun stackPointer => ?_
  refine Spec.ite (fun _ => ?_) fun _ => Spec.pure fun _ hk => hk
  exact Spec.bind (quiet_ofAccess _) fun _ => Spec.pure fun _ hk => hk

theorem quiet_brk (requestedBreak : Nat) :
    Keeps (Quiet k₀) (brk requestedBreak) := by
  refine Spec.bind_get fun k hk => ?_
  have hstart : ∀ s, s = k → Quiet k₀ s := by
    intro s hs
    rw [hs]
    exact hk
  refine Spec.ite (fun _ => Spec.pure hstart) fun _ => ?_
  refine Spec.ite (fun _ => Spec.bind_throw hstart) fun _ => ?_
  refine Spec.ite (fun _ => ?_) fun _ => ?_
  · refine fun s _ => hk.trans ?_
    exact { Quiet.refl k with }
  · refine Spec.conseq ?_ hstart (fun _ _ h => h) (fun _ _ h => h)
    refine Spec.bind (quiet_ofMemory _) fun _ => ?_
    refine Spec.bind (quiet_modify fun k => ?_) fun _ => Spec.pure fun _ hk => hk
    exact { Quiet.refl k with }

/-- The state after a spawn has given `slot` to a new thread. -/
def Handed (k₀ : Kernel) (slot : ThreadId) (entry : Option Nat)
    (process : Option ProcessId) (isUser : Bool) (k : Kernel) : Prop :=
  ∃ (k₁ : Kernel) (userContext : UserContext) (ownsUserStack : Bool),
    Quiet k₀ k₁ ∧ k₀.reusableSlot = some slot ∧
      k = k₁.install slot (newThread (k₁.threads slot) entry process userContext
        isUser ownsUserStack)

/-- A slot that a spawn has found and prepared can be handed out. -/
private theorem handed_install {k k₁ : Kernel} {slot : ThreadId}
    (entry : Option Nat) (process : Option ProcessId)
    (userContext : UserContext) (isUser ownsUserStack : Bool)
    (hk : Quiet k₀ k) (hslot : k.reusableSlot = some slot) (h₁ : Quiet k₀ k₁) :
    Handed k₀ slot entry process isUser
      (k₁.install slot (newThread (k₁.threads slot) entry process userContext
        isUser ownsUserStack)) :=
  ⟨k₁, userContext, ownsUserStack, h₁, by rw [← hk.reusableSlot, hslot], rfl⟩

theorem spawn_spec (entry : Nat) :
    Spec (Quiet k₀) (spawn entry)
      (fun slot k => Handed k₀ slot (some entry) none false k)
      (fun _ => Quiet k₀) := by
  refine Spec.bind_read fun k hk => ?_
  refine Spec.bind (spec_ofOption _) fun slot => Spec.and_pre fun hslot => ?_
  refine Spec.bind (quiet_prepareSlot slot) fun _ => ?_
  refine Spec.bind (Spec.update fun k₁ h₁ => ?_) fun _ => Spec.pure fun _ h => h
  exact handed_install _ _ _ _ _ hk hslot h₁

theorem spawnUserForProcess_spec (process : ProcessId)
    (entry argument tlsBase : Nat) (stack : Option Nat) :
    Spec (Quiet k₀) (spawnUserForProcess process entry argument tlsBase stack)
      (fun slot k => Handed k₀ slot none (some process) true k)
      (fun _ => Quiet k₀) := by
  refine Spec.bind_read fun k hk => ?_
  refine Spec.ite (fun _ => Spec.bind_throw fun _ h => h) fun _ => ?_
  refine Spec.bind_read fun k hk => ?_
  refine Spec.bind (spec_ofOption _) fun slot => Spec.and_pre fun hslot => ?_
  refine Spec.bind (quiet_prepareSlot slot) fun _ => ?_
  refine Spec.bind (quiet_chooseUserStack slot stack) fun chosen => ?_
  refine Spec.bind (Spec.update fun k₁ h₁ => ?_) fun _ => Spec.pure fun _ h => h
  exact handed_install _ _ _ _ _ hk hslot h₁

theorem spawnUser_spec (entry argument tlsBase : Nat) (stack : Option Nat) :
    Spec (Quiet k₀) (spawnUser entry argument tlsBase stack)
      (fun slot k => Handed k₀ slot none (some userProcessId) true k)
      (fun _ => Quiet k₀) := by
  refine Spec.bind_read fun k hk => ?_
  refine Spec.ite (fun _ => Spec.bind_throw fun _ h => h) fun _ => ?_
  exact spawnUserForProcess_spec _ _ _ _ _

/-- The state after `user::spawn` has got a record for the process. -/
def Recorded (k₀ : Kernel) (process : ProcessId) (k : Kernel) : Prop :=
  ∃ (k₁ k₂ : Kernel) (space : Nat), Quiet k₀ k₁ ∧
    k₁.createProcess space = (some process, k₂) ∧ Quiet k₂ k

theorem createProcess_none {k k' : Kernel} {space : Nat}
    (h : k.createProcess space = (none, k')) : k' = k := by
  unfold createProcess at h
  split at h
  · exact (Prod.mk.inj h).2.symm
  · cases (Prod.mk.inj h).1

theorem Recorded.quiet {process : ProcessId} {k k' : Kernel}
    (h : Recorded k₀ process k) (hq : Quiet k k') :
    Recorded k₀ process k' := by
  obtain ⟨k₁, k₂, space, h₁, h₂, h₃⟩ := h
  exact ⟨k₁, k₂, space, h₁, h₂, h₃.trans hq⟩

/-- The part of `user::spawn` after the process has got its record.  Whatever
fails in it, the record stays. -/
theorem startProgram_spec (process : ProcessId) (addressSpace : Nat)
    (path image : List UInt8) (argv : List (List UInt8)) :
    Spec (Recorded k₀ process)
      (do
        modify (·.resetUserState process)
        let loaded ← ofMemory (loadUserElfInto image addressSpace process)
        modify (·.setExecutableEntry process loaded.entry)
        let previousAddressSpace := (← get).memory.activeAddressSpace
        switchAddressSpace addressSpace
        let stackPointer ← initializeProgram loaded path argv
        switchAddressSpace previousAddressSpace
        let thread ← spawnUserForProcess process loaded.entry 0 loaded.fsBase
          (some stackPointer)
        modify (·.setProcessMainThread process thread)
        return process)
      (fun process k => ∃ k₁ k₂ slot, Recorded k₀ process k₁ ∧
        Handed k₁ slot none (some process) true k₂ ∧
        k = k₂.setProcessMainThread process slot)
      (fun _ => Recorded k₀ process) := by
  have hkeep : ∀ {α : Type} {x : KernelCall α}, (∀ k₀, Keeps (Quiet k₀) x) →
      Keeps (Recorded k₀ process) x :=
    fun hx => keeps_of_quiet hx fun _ _ h hq => h.quiet hq
  refine Spec.bind (hkeep fun _ => quiet_modify fun k => ?_) fun _ => ?_
  · exact { Quiet.refl k with }
  refine Spec.bind (hkeep fun _ => quiet_ofMemory _) fun loaded => ?_
  refine Spec.bind (hkeep fun _ => quiet_modify fun k => ?_) fun _ => ?_
  · exact { Quiet.refl k with }
  refine Spec.bind_read fun k _ => ?_
  refine Spec.bind (hkeep fun _ => quiet_modify fun k => k.quiet_memory _)
    fun _ => ?_
  refine Spec.bind (hkeep fun _ => quiet_initializeProgram loaded path argv)
    fun stackPointer => ?_
  refine Spec.bind (hkeep fun _ => quiet_modify fun k => k.quiet_memory _)
    fun _ => ?_
  refine Spec.bind (?_ : Spec _ _ (fun slot k => ∃ k₁, Recorded k₀ process k₁ ∧
    Handed k₁ slot none (some process) true k) _) fun slot => ?_
  · intro k hk
    have hspec : Spec (Quiet k) _ _ _ := spawnUserForProcess_spec process
      loaded.entry 0 loaded.fsBase (some stackPointer)
    have h := hspec k (.refl k)
    cases hx : spawnUserForProcess process loaded.entry 0 loaded.fsBase
      (some stackPointer) k with
    | ok slot k' =>
      rw [hx] at h
      exact ⟨k, hk, h⟩
    | error e k' =>
      rw [hx] at h
      exact hk.quiet h
  · refine Spec.bind (Spec.update fun k hk => ?_) fun _ => Spec.pure fun _ h => h
    obtain ⟨k₁, hrecorded, hhanded⟩ := hk
    exact ⟨k₁, k, slot, hrecorded, hhanded, rfl⟩

theorem spawnProgram_spec (path : List UInt8) (image : Option (List UInt8))
    (argv : List (List UInt8)) :
    Spec (Quiet k₀) (spawnProgram path image argv)
      (fun process k => ∃ k₁ k₂ slot, Recorded k₀ process k₁ ∧
        Handed k₁ slot none (some process) true k₂ ∧
        k = k₂.setProcessMainThread process slot)
      (fun _ k => Quiet k₀ k ∨ ∃ process, Recorded k₀ process k) := by
  have hquiet : ∀ (e : Stop) k, Quiet k₀ k →
      Quiet k₀ k ∨ ∃ process, Recorded k₀ process k := fun _ _ h => .inl h
  refine Spec.bind ((spec_ofOption image).mono_fail hquiet)
    fun image => Spec.and_pre fun _ => ?_
  refine Spec.bind ((quiet_ofMemory _).mono_fail hquiet) fun space => ?_
  refine Spec.bind (?_ : Spec _ _ (fun process k => Recorded k₀ process k) _)
    fun process => ?_
  · intro k hk
    unfold ofResult
    dsimp only
    rcases hc : k.createProcess space with ⟨_ | process, k₂⟩
    · rw [createProcess_none hc]
      exact .inl hk
    · exact ⟨k, k₂, space, hk, hc, .refl k₂⟩
  · exact (startProgram_spec process space path image argv).mono_fail
      fun _ _ h => .inr ⟨process, h⟩

end Kernel

end OpenKernel
