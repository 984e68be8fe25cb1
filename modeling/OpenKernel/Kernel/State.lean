import OpenKernel.Lib.Ring
import OpenKernel.Memory.AddressSpace

/-!
# Kernel state

The statics of `threads.rs`, `arch.rs` and `user.rs` that the scheduler and
the process syscalls read and write, as one record.

Two parts have no counterpart in the source.  A thread that is not running
has its registers and its kernel stack saved; what the model keeps of them
is the `Context`, which says where the thread goes on.  The `log` is a ghost
record of what happened so far, newest event first: no function reads it.
-/

namespace OpenKernel

open Lib

abbrev ThreadId := Nat
abbrev ProcessId := Nat

def maxThreads : Nat := 8
def maxProcesses : Nat := maxThreads
def noThread : Nat := 2 ^ 64 - 1
def idleThread : ThreadId := 0
def userProcessId : ProcessId := 1

/-- `TERMINATED_STATUS`. -/
def terminatedStatus : Nat := 0x8000_0000_0000_0000

inductive ThreadState
  | ready
  | running
  | blocked
  | exited
  deriving DecidableEq, Repr

/-- The registers of a `UserContext` that the kernel sets.  All others start
at zero. -/
structure UserContext where
  rip : Nat
  rsp : Nat
  rdi : Nat
  fsBase : Nat
  deriving DecidableEq, Repr

def UserContext.empty : UserContext :=
  { rip := 0, rsp := 0, rdi := 0, fsBase := 0 }

/-- Where a thread goes on when it is next switched to. -/
inductive Context
  /-- a new thread: the trampoline that its kernel stack starts with -/
  | trampoline
  /-- `yield_now` has switched away -/
  | yielded
  /-- a call of `block_current` outside the blocking calls below -/
  | blocked
  /-- `syscall_sleep`, until the tick `due` -/
  | sleeping (due : Nat)
  /-- `syscall_futex_wait` -/
  | futexWaiting (address : Nat) (due : Option Nat)
  /-- `join` as a syscall -/
  | joining (thread : ThreadId)
  /-- `join` inside `wait_process` -/
  | waiting (process : ProcessId) (thread : ThreadId)
  /-- `exit_current_with_status` has switched away -/
  | finished
  deriving DecidableEq, Repr

/-- The thread that a blocked `join` waits for. -/
def Context.joins : Context → Option ThreadId
  | joining t => some t
  | waiting _ t => some t
  | _ => none

/-- `Process`; the id is `noThread` in an empty record. -/
structure Process where
  id : ProcessId
  addressSpace : Nat
  parent : Option ProcessId
  mainThread : Option ThreadId
  deriving DecidableEq, Repr

def Process.empty : Process :=
  { id := noThread, addressSpace := 0, parent := none, mainThread := none }

/-- `Thread`.  The entry of a kernel thread is an opaque address. -/
structure Thread where
  context : Context
  entry : Option Nat
  process : Option ProcessId
  userContext : UserContext
  isUser : Bool
  state : ThreadState
  stackTop : Nat
  syscallStackTop : Nat
  stackAllocated : Bool
  ownsUserStack : Bool
  reapable : Bool
  exitStatus : Nat
  joinWaiters : Nat → ThreadId
  joinWaiterCount : Nat

def Thread.empty : Thread :=
  { context := .trampoline
    entry := none
    process := none
    userContext := .empty
    isUser := false
    state := .exited
    stackTop := 0
    syscallStackTop := 0
    stackAllocated := false
    ownsUserStack := false
    reapable := true
    exitStatus := 0
    joinWaiters := fun _ => noThread
    joinWaiterCount := 0 }

/-! ## The run queue -/

/-- `RUN_QUEUE` with `RUN_HEAD`, `RUN_COUNT` and `RUN_TAIL`: a ring whose
next free slot is stored as well. -/
structure RunQueue extends Ring ThreadId maxThreads where
  tail : Nat
  tail_eq : tail = (head + count) % maxThreads

namespace RunQueue

def empty : RunQueue :=
  { slots := fun _ => noThread
    head := 0
    count := 0
    head_lt := by decide
    count_le := by decide
    tail := 0
    tail_eq := rfl }

/-- The write of `enqueue`. -/
def enqueue (q : RunQueue) (thread : ThreadId) : RunQueue :=
  if h : q.count = maxThreads then q
  else
    { slots := put q.slots q.tail thread
      head := q.head
      count := q.count + 1
      head_lt := q.head_lt
      count_le := by have := q.count_le; omega
      tail := (q.tail + 1) % maxThreads
      tail_eq := by rw [q.tail_eq, Nat.mod_add_mod, Nat.add_assoc] }

/-- `dequeue`. -/
def dequeue (q : RunQueue) : Option ThreadId × RunQueue :=
  if h : q.count = 0 then (none, q)
  else
    (some (q.slots q.head),
      { slots := q.slots
        head := (q.head + 1) % maxThreads
        count := q.count - 1
        head_lt := Nat.mod_lt _ (by decide)
        count_le := by have := q.count_le; omega
        tail := q.tail
        tail_eq := by
          have hcount : q.head + q.count = q.head + 1 + (q.count - 1) := by
            omega
          rw [q.tail_eq, Nat.mod_add_mod, hcount] })

/-- With its tail forgotten, `enqueue` is the push of a ring. -/
theorem toRing_enqueue (q : RunQueue) (thread : ThreadId) :
    (q.enqueue thread).toRing = q.toRing.push thread := by
  by_cases h : q.count = maxThreads
  · rw [enqueue, dif_pos h, Ring.push_of_full _ _ h]
  · rw [enqueue, dif_neg h, Ring.push, dif_neg h]
    simp only [q.tail_eq]

/-- With its tail forgotten, `dequeue` is the pop of a ring. -/
theorem toRing_dequeue (q : RunQueue) :
    (q.dequeue.1, q.dequeue.2.toRing) = q.toRing.pop := by
  by_cases h : q.count = 0
  · rw [dequeue, dif_pos h, Ring.pop, if_pos h]
  · rw [dequeue, dif_neg h, Ring.pop, if_neg h]

theorem contents_enqueue (q : RunQueue) (thread : ThreadId)
    (h : q.count ≠ maxThreads) :
    (q.enqueue thread).contents = q.contents ++ [thread] := by
  rw [toRing_enqueue, Ring.contents_push _ _ h]

theorem dequeue_of_nil (q : RunQueue) (h : q.contents = []) :
    q.dequeue = (none, q) := by
  rw [Ring.contents_eq_nil_iff] at h
  rw [dequeue, dif_pos h]

/-- `dequeue` takes the first entry and keeps the rest. -/
theorem dequeue_of_cons (q : RunQueue) {thread : ThreadId}
    {rest : List ThreadId} (h : q.contents = thread :: rest) :
    ∃ q', q.dequeue = (some thread, q') ∧ q'.contents = rest := by
  obtain ⟨h1, h2⟩ := q.toRing.contents_pop h
  rw [← toRing_dequeue] at h1 h2
  exact ⟨q.dequeue.2, Prod.ext h1 rfl, h2⟩

end RunQueue

/-! ## Timers and user state -/

/-- `Sleeper`. -/
structure Sleeper where
  thread : ThreadId
  deadline : Nat
  deriving DecidableEq, Repr

/-- `FutexWaiter`. -/
structure FutexWaiter where
  address : Nat
  thread : ThreadId
  deadline : Option Nat
  deriving DecidableEq, Repr

def maxSleepers : Nat := 8
def maxFutexWaiters : Nat := 8

def userHeapBase : Nat := 0x0000_5000_0000_0000
def userHeapLimit : Nat := 0x0000_7000_0000_0000

/-- The part of `ProcessUserState` that the memory syscalls use. -/
structure ProcessUserState where
  heapBreak : Nat
  heapMappedEnd : Nat
  executableEntry : Nat
  deriving DecidableEq, Repr

def ProcessUserState.empty : ProcessUserState :=
  { heapBreak := userHeapBase
    heapMappedEnd := userHeapBase
    executableEntry := 0 }

/-! ## The kernel -/

/-- What the ghost log records. -/
inductive Event
  /-- `enqueue` has appended a thread, or dropped it for lack of room -/
  | enqueued (thread : ThreadId)
  | dropped (thread : ThreadId)
  /-- `next_ready` has dequeued a thread and passed over it -/
  | skipped (thread : ThreadId)
  /-- `next_ready` has dequeued a thread to run, which had this state -/
  | dispatched (thread : ThreadId) (found : ThreadState)
  /-- the queue was empty, so the idle thread runs -/
  | idled
  /-- a spawn has given the slot to a new thread -/
  | handed (slot : ThreadId)
  /-- `allocate_user_stack` has mapped the user stack of a slot -/
  | stackMapped (slot : ThreadId) (space : Nat)
  | created (process : ProcessId) (space : Nat)
  | mainThreadSet (process : ProcessId) (thread : ThreadId)
  /-- the record of the process is cleared and its space destroyed; the
  caller has joined `thread` -/
  | destroyed (caller : ThreadId) (process : ProcessId) (thread : ThreadId)
      (space : Nat)
  /-- the thread has switched away inside a blocking call -/
  | blocked (thread : ThreadId) (call : Context)
  | exited (thread : ThreadId) (status : Nat)
  | terminated (process : ProcessId) (thread : ThreadId)
  /-- an exit of `thread` has handed a child of `process` to PID 1 -/
  | reparented (child process : ProcessId) (thread : ThreadId)
  /-- a wait or a reap returns this status of a process -/
  | collected (caller : ThreadId) (process : ProcessId) (thread : ThreadId)
      (status : Nat)
  /-- a syscall has returned to user mode -/
  | returned (thread : ThreadId) (value : Nat)
  deriving DecidableEq, Repr

/-- The statics of the kernel.  `timerTicks` counts without a bound;
`TIMER_TICKS` is its remainder modulo `2 ^ 64`.  `resuming` is the context
that the last switch has loaded, until the kernel code in it has run. -/
structure Kernel where
  threads : ThreadId → Thread
  runQueue : RunQueue
  currentThread : Nat
  idleCreated : Bool
  processes : Nat → Process
  timerTicks : Nat
  sleepers : Nat → Option Sleeper
  futexWaiters : Nat → Option FutexWaiter
  userStates : Nat → ProcessUserState
  memory : Memory
  resuming : Option Context
  log : List Event

namespace Kernel

/-- Add an event to the ghost log. -/
def record (k : Kernel) (event : Event) : Kernel :=
  { k with log := event :: k.log }

/-- Change one thread. -/
def updateThread (k : Kernel) (thread : ThreadId) (f : Thread → Thread) :
    Kernel :=
  { k with threads := put k.threads thread (f (k.threads thread)) }

def setState (k : Kernel) (thread : ThreadId) (state : ThreadState) : Kernel :=
  k.updateThread thread fun t => { t with state }

/-- Where `thread` goes on: from the loaded context if it is current, from
its saved one otherwise.  `none` is a current thread whose kernel code has
run. -/
def contextOf (k : Kernel) (thread : ThreadId) : Option Context :=
  if thread = k.currentThread then k.resuming
  else some (k.threads thread).context

/-- `current_id().and_then(process_id)`. -/
def currentProcess (k : Kernel) : Option ProcessId :=
  if k.currentThread = noThread ∨ maxThreads ≤ k.currentThread then none
  else (k.threads k.currentThread).process

/-- The index of the first record that meets a test. -/
def findRecord (k : Kernel) (test : Process → Bool) : Option Nat :=
  (List.range maxProcesses).find? fun slot => test (k.processes slot)

/-- `process_address_space`. -/
def processAddressSpace (k : Kernel) (process : ProcessId) : Option Nat :=
  (k.findRecord (·.id == process)).map fun slot =>
    (k.processes slot).addressSpace

end Kernel

end OpenKernel
