import OpenKernel.Kernel.State

/-!
# The scheduler

The model of the scheduling functions of `threads.rs`.  A function that
switches to another thread takes the context to save; what the caller does
after the switch is the work of that context, which `Kernel.step` runs when
the thread is resumed.  A blocking call therefore takes the rest of its
caller as a function, for the case that it does not block.
-/

namespace OpenKernel

open Lib

namespace Kernel

/-! ## The run queue -/

/-- `enqueue`. -/
def enqueue (k : Kernel) (thread : ThreadId) : Kernel :=
  if k.runQueue.count = maxThreads then k.record (.dropped thread)
  else
    { k with runQueue := k.runQueue.enqueue thread }.record (.enqueued thread)

/-- Make a blocked thread ready.  `wake`, `exit_current_with_status` and
`terminate_process` all do this. -/
def makeReady (k : Kernel) (thread : ThreadId) : Kernel :=
  if (k.threads thread).state = .blocked then
    (k.setState thread .ready).enqueue thread
  else k

/-- `wake`. -/
def wake (k : Kernel) (thread : ThreadId) : Bool × Kernel :=
  if maxThreads ≤ thread ∨ (k.threads thread).state ≠ .blocked then (false, k)
  else (true, k.makeReady thread)

/-- The loop of `next_ready`.  Each turn dequeues an entry, so the number of
entries bounds the number of turns. -/
def nextReadyLoop : Nat → Kernel → Option ThreadId × Kernel
  | 0, k => (none, k)
  | turns + 1, k =>
    match k.runQueue.dequeue with
    | (none, _) => (none, k)
    | (some candidate, runQueue) =>
      let found := (k.threads candidate).state
      if found = .exited then
        nextReadyLoop turns ({ k with runQueue }.record (.skipped candidate))
      else
        (some candidate,
          { k with runQueue }.record (.dispatched candidate found))

/-- `next_ready`. -/
def nextReady (k : Kernel) : Option ThreadId × Kernel :=
  nextReadyLoop k.runQueue.count k

/-! ## Switching -/

/-- The switch to the address space of a user thread, in
`schedule_from_current` and in `user_thread_trampoline`. -/
def enterAddressSpace (k : Kernel) (thread : ThreadId) : Kernel :=
  match ((k.threads thread).process).bind k.processAddressSpace with
  | some space => { k with memory := k.memory.switchAddressSpace space }
  | none => k

/-- The end of `schedule_from_current`: run `next`, and save where the
current thread goes on. -/
def switchTo (k : Kernel) (next : ThreadId) (saved : Context) : Kernel :=
  let current := k.currentThread
  if next = current then
    { k.setState current .running with resuming := some saved }
  else
    let k := { k with currentThread := next }.setState next .running
    let k := if (k.threads next).isUser then k.enterAddressSpace next else k
    { k.updateThread current fun t => { t with context := saved } with
      resuming := some (k.threads next).context }

/-- `schedule_from_current`. -/
def scheduleFromCurrent (k : Kernel) (saved : Context) : Kernel :=
  match k.nextReady with
  | (some next, k) => k.switchTo next saved
  | (none, k) => (k.record .idled).switchTo idleThread saved

/-- `yield_now`. -/
def yieldNow (k : Kernel) : Kernel :=
  let current := k.currentThread
  if current = noThread then k
  else if current = idleThread then k.scheduleFromCurrent .yielded
  else ((k.setState current .ready).enqueue current).scheduleFromCurrent .yielded

/-- `block_current`.  Where it returns at once, the caller goes on. -/
def blockCurrent (k : Kernel) (saved : Context) : Kernel :=
  let current := k.currentThread
  if current = noThread ∨ current = idleThread then
    { k with resuming := some saved }
  else
    ((k.setState current .blocked).record
      (.blocked current saved)).scheduleFromCurrent saved

/-! ## Exit -/

/-- The loop over the join waiters of a thread that has just ended. -/
def wakeJoinWaiters (k : Kernel) (thread : ThreadId) : Kernel :=
  let task := k.threads thread
  (List.range task.joinWaiterCount).foldl
    (fun k index => k.makeReady (task.joinWaiters index)) k

/-- The loop of `reparent_children_of_exited_process`. -/
def reparentChildren (k : Kernel) (exitedProcess : ProcessId)
    (thread : ThreadId) : Kernel :=
  (List.range maxProcesses).foldl
    (fun k slot =>
      let child := k.processes slot
      if child.parent = some exitedProcess then
        { k with
          processes := put k.processes slot
            { child with parent := some userProcessId } }.record
          (.reparented child.id exitedProcess thread)
      else k)
    k

/-- `reparent_children_of_exited_process`. -/
def reparentChildrenOfExitedProcess (k : Kernel) (thread : ThreadId) : Kernel :=
  match k.findRecord (·.mainThread == some thread) with
  | none => k
  | some slot => k.reparentChildren (k.processes slot).id thread

/-- `exit_current_with_status`.  A call on the idle thread goes to the idle
loop. -/
def exitCurrent (k : Kernel) (status : Nat) : Kernel :=
  let current := k.currentThread
  if current = noThread ∨ current = idleThread then k
  else
    let k := (k.updateThread current fun t =>
      { t with
        state := .exited
        entry := none
        exitStatus := status
        reapable := !t.isUser }).record (.exited current status)
    ((k.wakeJoinWaiters current).reparentChildrenOfExitedProcess
      current).scheduleFromCurrent .finished

/-! ## Join -/

/-- `if target.join_waiter_count == 0 { target.reapable = true }`. -/
def markReapable (k : Kernel) (thread : ThreadId) : Kernel :=
  if (k.threads thread).joinWaiterCount = 0 then
    k.updateThread thread fun t => { t with reapable := true }
  else k

/-- Enter the current thread as a waiter of `thread`. -/
def addJoinWaiter (k : Kernel) (thread : ThreadId) : Kernel :=
  k.updateThread thread fun t =>
    { t with
      joinWaiters := put t.joinWaiters t.joinWaiterCount k.currentThread
      joinWaiterCount := t.joinWaiterCount + 1 }

/-- `if target.join_waiter_count != 0 { target.join_waiter_count -= 1 }`. -/
def dropJoinWaiter (k : Kernel) (thread : ThreadId) : Kernel :=
  if (k.threads thread).joinWaiterCount ≠ 0 then
    k.updateThread thread fun t =>
      { t with joinWaiterCount := t.joinWaiterCount - 1 }
  else k

/-- `join` up to the point where it blocks.  A call that does not block
gives its result to `goOn`. -/
def join (k : Kernel) (thread : ThreadId) (saved : Context)
    (goOn : Option Nat → Kernel → Kernel) : Kernel :=
  let current := k.currentThread
  let target := k.threads thread
  if current = noThread ∨ current = thread ∨ maxThreads ≤ thread then
    goOn none k
  else if target.state = .exited then
    goOn (some target.exitStatus) (k.markReapable thread)
  else if target.joinWaiterCount = maxThreads then goOn none k
  else (k.addJoinWaiter thread).blockCurrent saved

/-- The rest of `join` after `block_current`. -/
def finishJoin (k : Kernel) (thread : ThreadId)
    (goOn : Option Nat → Kernel → Kernel) : Kernel :=
  let target := k.threads thread
  if target.state ≠ .exited then goOn none k
  else
    goOn (some target.exitStatus)
      ((k.dropJoinWaiter thread).markReapable thread)

/-- `try_join`. -/
def tryJoin (k : Kernel) (thread : ThreadId) : Option Nat × Kernel :=
  let current := k.currentThread
  let target := k.threads thread
  if current = noThread ∨ current = thread ∨ maxThreads ≤ thread ∨
      target.state ≠ .exited then (none, k)
  else (some target.exitStatus, k.markReapable thread)

end Kernel

end OpenKernel
