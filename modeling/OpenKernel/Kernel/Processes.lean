import OpenKernel.Kernel.Scheduler

/-!
# Processes

The model of the process table of `threads.rs`: creation, the three ways to
collect an exited child, and termination.
-/

namespace OpenKernel

open Lib

namespace Kernel

/-- Write one record of `PROCESSES`. -/
def setRecord (k : Kernel) (slot : Nat) (record : Process) : Kernel :=
  { k with processes := put k.processes slot record }

/-- The end of a syscall: its value goes back to user mode. -/
def returnValue (k : Kernel) (value : Nat) : Kernel :=
  k.record (.returned k.currentThread value)

/-- The syscall value of a call that failed. -/
def failure : Nat := 2 ^ 64 - 1

/-- `initialize_user_process`. -/
def initializeUserProcess (k : Kernel) (addressSpace : Nat) : Kernel :=
  (k.setRecord 0
    { id := userProcessId, addressSpace, parent := none,
      mainThread := none }).record (.created userProcessId addressSpace)

/-- `create_process`. -/
def createProcess (k : Kernel) (addressSpace : Nat) : Option ProcessId × Kernel :=
  match (List.range' 1 (maxProcesses - 1)).find? fun slot =>
      (k.processes slot).id == noThread with
  | none => (none, k)
  | some slot =>
    let id := slot + 1
    (some id,
      (k.setRecord slot
        { id, addressSpace, parent := k.currentProcess,
          mainThread := none }).record (.created id addressSpace))

/-- `set_process_main_thread`. -/
def setProcessMainThread (k : Kernel) (process : ProcessId)
    (thread : ThreadId) : Kernel :=
  match k.findRecord (·.id == process) with
  | none => k
  | some slot =>
    (k.setRecord slot
      { k.processes slot with mainThread := some thread }).record
      (.mainThreadSet process thread)

/-- The lookup that `wait_process`, `try_wait_process` and
`terminate_process` start with: the main thread of a child of `parent`. -/
def childMainThread (k : Kernel) (process parent : ProcessId) :
    Option ThreadId :=
  (k.findRecord fun record =>
    record.id == process && record.parent == some parent).bind fun slot =>
    (k.processes slot).mainThread

/-- What the three collecting calls do once they have a status: look the pid
up, destroy the address space and clear the record. -/
def collect (k : Kernel) (process : ProcessId) (thread : ThreadId)
    (status : Nat) : Kernel :=
  let k := k.record (.collected k.currentThread process thread status)
  match k.findRecord (·.id == process) with
  | none => k
  | some slot =>
    let space := (k.processes slot).addressSpace
    ({ k with memory := destroyUserAddressSpace space k.memory }.setRecord slot
      .empty).record (.destroyed k.currentThread process thread space)

/-- The rest of `wait_process` after `join`, with the syscall's value. -/
def finishWait (process : ProcessId) (thread : ThreadId)
    (status : Option Nat) (k : Kernel) : Kernel :=
  match status with
  | none => k.returnValue failure
  | some status => (k.collect process thread status).returnValue status

/-- `wait_process`, as syscall 34. -/
def waitProcess (k : Kernel) (process : ProcessId) : Kernel :=
  match k.currentProcess.bind (k.childMainThread process) with
  | none => k.returnValue failure
  | some mainThread =>
    k.join mainThread (.waiting process mainThread)
      (finishWait process mainThread)

/-- `try_wait_process`, as syscall 35. -/
def tryWaitProcess (k : Kernel) (process : ProcessId) : Kernel :=
  match k.currentProcess.bind (k.childMainThread process) with
  | none => k.returnValue failure
  | some mainThread =>
    let (status, k) := k.tryJoin mainThread
    finishWait process mainThread status k

/-- The search of `reap_any_child`: the first exited child of `parent`. -/
def exitedChild (k : Kernel) (parent : ProcessId) :
    Option (ProcessId × ThreadId) :=
  (List.range maxProcesses).findSome? fun slot =>
    let record := k.processes slot
    record.mainThread.bind fun mainThread =>
      if record.parent = some parent ∧
          (k.threads mainThread).state = .exited then
        some (record.id, mainThread)
      else none

/-- `reap_any_child`. -/
def reapAnyChild (k : Kernel) : Option (ProcessId × Nat) × Kernel :=
  match k.currentProcess.bind k.exitedChild with
  | none => (none, k)
  | some (process, mainThread) =>
    match k.tryJoin mainThread with
    | (none, k) => (none, k)
    | (some status, k) =>
      (some (process, status), k.collect process mainThread status)

/-- `terminate_process`. -/
def terminateProcess (k : Kernel) (process : ProcessId) : Bool × Kernel :=
  match k.currentProcess.bind (k.childMainThread process) with
  | none => (false, k)
  | some mainThread =>
    if (k.threads mainThread).state = .exited then (true, k)
    else
      let k := (k.updateThread mainThread fun t =>
        { t with
          state := .exited
          entry := none
          exitStatus := terminatedStatus }).record
        (.terminated process mainThread)
      (true, k.wakeJoinWaiters mainThread)

end Kernel

end OpenKernel
