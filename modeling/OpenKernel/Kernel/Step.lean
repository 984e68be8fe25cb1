import OpenKernel.Kernel.Spawn
import OpenKernel.Kernel.Timers

/-!
# The kernel as a transition system

An action is something that can happen next: a syscall of the current
thread, a timer interrupt, or a call of the scheduler's own interface.
Interrupts are masked while kernel code runs, so an action is atomic up to
the point where it switches to another thread; `resume` then runs the kernel
code that this thread had left.

`Kernel.boot` is the path of `run_demo` to the first switch.
-/

namespace OpenKernel

open Lib

inductive Action
  /-- the thread that was switched to goes on in the kernel -/
  | resume
  | tick
  | yieldNow
  | exit (status : Nat)
  | join (thread : ThreadId)
  | sleep (milliseconds : Nat)
  | threadCreate (entry argument tlsBase : Nat)
  | brk (requestedBreak : Nat)
  /-- `actual` is the word that user memory holds at the address -/
  | futexWait (address actual expected timeout : Nat)
  | futexWake (address count : Nat)
  /-- the path is resolved; `image` is the file found there -/
  | processSpawn (path : List UInt8) (image : Option (List UInt8))
      (argv : List (List UInt8))
  | waitProcess (process : ProcessId)
  | tryWaitProcess (process : ProcessId)
  | reapAnyChild (statusPointer : Nat)
  | terminateProcess (process : ProcessId)
  /-- kernel code calls `spawn`, `block_current` or `wake` -/
  | spawn (entry : Nat)
  | blockCurrent
  | wake (thread : ThreadId)

namespace Action

/-- Whether the action calls `spawn` or `spawn_user_for_process`. -/
def spawns : Action → Bool
  | threadCreate _ _ _ | processSpawn _ _ _ | spawn _ => true
  | _ => false

/-- Whether the action is a call of the scheduler's own interface.  No
syscall and no interrupt makes such a call. -/
def isInternal : Action → Bool
  | spawn _ | blockCurrent | wake _ => true
  | _ => false

/-- Whether the action is a call that can block its caller. -/
def mayBlock : Action → Bool
  | join _ | sleep _ | futexWait _ _ _ _ | waitProcess _ | blockCurrent => true
  | _ => false

/-- The process that the action terminates. -/
def terminates : Action → Option ProcessId
  | terminateProcess p => some p
  | _ => none

end Action

namespace Kernel

/-! ## Syscalls -/

/-- The result of a call that can fail, as a syscall value.  No state is
left when the machine has halted. -/
def call (k : Kernel) (x : KernelCall Nat) : Option Kernel :=
  match x k with
  | .ok value k => some (k.returnValue value)
  | .error .failed k => some (k.returnValue failure)
  | .error .halted _ => none

/-- `user_bytes`, as the range check that it makes. -/
def userBytes (pointer length maximum : Nat) : Bool :=
  pointer + length < 2 ^ 64 && futureUserSpaceBase ≤ pointer &&
    pointer + length ≤ userSpaceEnd && length ≤ maximum

/-- `syscall_reap_any_child`. -/
def syscallReapAnyChild (k : Kernel) (statusPointer : Nat) : Option Kernel :=
  match k.reapAnyChild with
  | (none, k) => some (k.returnValue failure)
  | (some (process, status), k) =>
    if statusPointer ≠ 0 ∧ userBytes statusPointer 8 8 then
      (k.memory.storeBytes statusPointer (littleEndianBytes status)).map
        fun memory => { k with memory }.returnValue process
    else some (k.returnValue process)

/-- The syscall value of a `join`. -/
def finishJoinCall (status : Option Nat) (k : Kernel) : Kernel :=
  k.returnValue (status.getD failure)

/-- `user_thread_trampoline`, `thread_trampoline` and `idle_thread`. -/
def startThread (k : Kernel) : Option Kernel :=
  let thread := k.threads k.currentThread
  if thread.isUser then some (k.enterAddressSpace k.currentThread)
  else if k.currentThread = idleThread then some k
  else thread.entry.map fun _ => k

/-- The kernel code that a loaded context goes on with. -/
def goOn (k : Kernel) : Context → Option Kernel
  | .trampoline => k.startThread
  | .yielded => some k
  | .blocked => some k
  | .sleeping _ => some (k.returnValue 0)
  | .futexWaiting _ _ => some (k.returnValue 0)
  | .joining thread => some (k.finishJoin thread finishJoinCall)
  | .waiting process thread =>
    some (k.finishJoin thread (finishWait process thread))
  | .finished => none

/-- Whether the current thread can do this next. -/
def enabled (k : Kernel) : Action → Bool
  | .resume => k.resuming.isSome
  | .tick | .yieldNow | .spawn _ | .wake _ => k.resuming.isNone
  | .exit _ | .join _ | .blockCurrent =>
    k.resuming.isNone && k.currentThread != idleThread
  | _ => k.resuming.isNone && (k.threads k.currentThread).isUser

/-- What an action does. -/
def perform (k : Kernel) : Action → Option Kernel
  | .resume => k.resuming.bind { k with resuming := none }.goOn
  | .tick => some k.tick
  | .yieldNow => some k.yieldNow
  | .exit status => some (k.exitCurrent status)
  | .join thread => some (k.join thread (.joining thread) finishJoinCall)
  | .sleep milliseconds => some (k.sleep milliseconds)
  | .threadCreate entry argument tlsBase =>
    k.call (spawnUser entry argument tlsBase none)
  | .brk requestedBreak => k.call (brk requestedBreak)
  | .futexWait address actual expected timeout =>
    some (k.futexWait address actual expected timeout)
  | .futexWake address count => some (k.futexWake address count)
  | .processSpawn path image argv => k.call (spawnProgram path image argv)
  | .waitProcess process => some (k.waitProcess process)
  | .tryWaitProcess process => some (k.tryWaitProcess process)
  | .reapAnyChild statusPointer => k.syscallReapAnyChild statusPointer
  | .terminateProcess process =>
    let (success, k) := k.terminateProcess process
    some (k.returnValue (if success then 1 else 0))
  | .spawn entry => k.call (spawn entry)
  | .blockCurrent => some (k.blockCurrent .blocked)
  | .wake thread => some (k.wake thread).2

/-- One step of the kernel.  There is none when the action is not possible
or the machine halts in it. -/
def step (k : Kernel) (a : Action) : Option Kernel :=
  if k.enabled a then k.perform a else none

/-! ## Boot -/

/-- The statics before `run_demo`. -/
def initial (memory : Memory) : Kernel :=
  { threads := fun _ => .empty
    runQueue := .empty
    currentThread := noThread
    idleCreated := false
    processes := fun _ => .empty
    timerTicks := 0
    sleepers := fun _ => none
    futexWaiters := fun _ => none
    userStates := fun _ => .empty
    memory
    resuming := none
    log := [] }

def bootStackSlot : Nat := 100

/-- The address of `idle_thread`, which nothing depends on. -/
def idleEntry : Nat := 0

/-- `ensure_idle`. -/
def ensureIdle : KernelCall Unit := do
  if (← get).idleCreated then return
  let stackTop ← KernelCall.ofMemory (allocateKernelStack idleThread)
  let syscallStackTop ←
    KernelCall.ofMemory (allocateKernelStack (idleThread + maxThreads))
  modify fun k =>
    { (k.updateThread idleThread fun t =>
        { t with
          stackTop
          syscallStackTop
          stackAllocated := true
          entry := some idleEntry
          state := .ready }).enqueue idleThread with
      idleCreated := true }

/-- The end of `schedule_from_scheduler`. -/
def startFirst (k : Kernel) (next : ThreadId) : Kernel :=
  { { k with currentThread := next }.setState next .running with
    resuming := some (k.threads next).context }

/-- `schedule_from_scheduler`. -/
def scheduleFromScheduler (k : Kernel) : Kernel :=
  match k.nextReady with
  | (some next, k) => k.startFirst next
  | (none, k) => (k.record .idled).startFirst idleThread

/-- `run_demo` and `start`, with the file `/init`. -/
def runDemo (image : List UInt8) : KernelCall Unit := do
  let addressSpace ← KernelCall.ofMemory createUserAddressSpace
  let loaded ← KernelCall.ofMemory (loadUserElfInto image addressSpace 0)
  modify fun k =>
    (k.resetUserState userProcessId).setExecutableEntry userProcessId
      loaded.entry
  let _ ← KernelCall.ofMemory (allocateKernelStack bootStackSlot)
  switchAddressSpace addressSpace
  let stackPointer ← initializeProgram loaded "init".toUTF8.toList []
  modify (·.initializeUserProcess addressSpace)
  let _ ← spawnUser loaded.entry 0 loaded.fsBase (some stackPointer)
  ensureIdle
  modify scheduleFromScheduler

/-- The kernel after its first switch, if the boot gets that far. -/
def boot (memory : Memory) (image : List UInt8) : Option Kernel :=
  match runDemo image (initial memory) with
  | .ok _ k => some k
  | .error _ _ => none

end Kernel

end OpenKernel
