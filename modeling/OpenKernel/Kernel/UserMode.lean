import OpenKernel.Kernel.Results
import OpenKernel.Kernel.ThreadCreation

/-!
# User mode

The way of a user thread into the kernel and back: `x86_syscall_stub` and
`resume_user_context` of `arch.rs`, `scheduler_context_switch`, and the
functions of `threads.rs` that keep a thread's user registers.  A `Machine`
is the kernel together with the registers of the processor and with what
these functions save them in.

All threads share the processor, `USER_SYSCALL_CONTEXT`, the TSS and the
`FS_BASE` register, so what a thread finds when it is back in user mode
depends on what the others have done meanwhile.

The first call of the stub is made on the stack of the caller, in ring 0.  With
a stack pointer outside of user space it writes over the kernel, and nothing is
said of what follows (`Move.overwrite`).
-/

namespace OpenKernel

open Lib

/-- `UserContext` with all of its registers, which are also those of the
processor. -/
structure UserRegisters where
  rip : Nat
  rsp : Nat
  rflags : Nat
  rax : Nat
  rbx : Nat
  rcx : Nat
  rdx : Nat
  rsi : Nat
  rdi : Nat
  rbp : Nat
  r8 : Nat
  r9 : Nat
  r10 : Nat
  r11 : Nat
  r12 : Nat
  r13 : Nat
  r14 : Nat
  r15 : Nat
  fsBase : Nat
  deriving DecidableEq, Repr

/-- `UserContext::EMPTY`. -/
def UserRegisters.empty : UserRegisters :=
  { rip := 0, rsp := 0, rflags := 0x202, rax := 0, rbx := 0, rcx := 0, rdx := 0, rsi := 0
    rdi := 0, rbp := 0, r8 := 0, r9 := 0, r10 := 0, r11 := 0, r12 := 0, r13 := 0, r14 := 0
    r15 := 0, fsBase := 0 }

/-- The user context of a new thread: `..UserContext::EMPTY` fills in what the
spawn does not set. -/
def UserContext.registers (context : UserContext) : UserRegisters :=
  { UserRegisters.empty with
    rip := context.rip
    rsp := context.rsp
    rdi := context.rdi
    fsBase := context.fsBase }

/-- The registers in `Context`, less the stack pointer.  Compiled code gives
them back to its caller as it has found them. -/
structure CalleeSaved where
  rbx : Nat
  rbp : Nat
  r12 : Nat
  r13 : Nat
  r14 : Nat
  r15 : Nat
  deriving DecidableEq, Repr

def CalleeSaved.empty : CalleeSaved :=
  { rbx := 0, rbp := 0, r12 := 0, r13 := 0, r14 := 0, r15 := 0 }

namespace UserRegisters

def calleeSaved (r : UserRegisters) : CalleeSaved :=
  { rbx := r.rbx, rbp := r.rbp, r12 := r.r12, r13 := r.r13, r14 := r.r14, r15 := r.r15 }

def withCalleeSaved (r : UserRegisters) (c : CalleeSaved) : UserRegisters :=
  { r with rbx := c.rbx, rbp := c.rbp, r12 := c.r12, r13 := c.r13, r14 := c.r14, r15 := c.r15 }

@[simp] theorem calleeSaved_withCalleeSaved (r : UserRegisters) (c : CalleeSaved) :
    (r.withCalleeSaved c).calleeSaved = c := rfl

@[simp] theorem fsBase_withCalleeSaved (r : UserRegisters) (c : CalleeSaved) :
    (r.withCalleeSaved c).fsBase = r.fsBase := rfl

end UserRegisters

/-- What kernel code leaves in the registers that nobody saves. -/
structure Scratch where
  rcx : Nat
  rdx : Nat
  rsi : Nat
  rdi : Nat
  r8 : Nat
  r9 : Nat
  r10 : Nat

structure SyscallState where
  stackPointer : Nat
  instructionPointer : Nat
  flags : Nat
  deriving DecidableEq, Repr

def SyscallState.empty : SyscallState :=
  { stackPointer := 0, instructionPointer := 0, flags := 0 }

/-- The fields of `Thread` that hold registers. -/
structure SavedRegisters where
  context : CalleeSaved
  userContext : UserRegisters
  syscallState : SyscallState
  deriving DecidableEq, Repr

def SavedRegisters.empty : SavedRegisters :=
  { context := .empty, userContext := .empty, syscallState := .empty }

/-- The flags that the stub returns with. -/
def returnFlags (flags : Nat) : Nat := flags &&& 0xED7 ||| 0x202

/-- The syscalls among the actions. -/
def Action.isSyscall : Action → Bool
  | .resume | .tick | .spawn _ | .blockCurrent | .wake _ => false
  | _ => true

/-- The kernel with the registers.  While kernel code runs, the callee-saved
ones and `fsBase` are all that counts of `registers`. -/
structure Machine where
  kernel : Kernel
  registers : UserRegisters
  /-- `TSS.rsp[0]`: the stack of interrupts in user mode -/
  rsp0 : Nat
  saved : ThreadId → SavedRegisters
  /-- `USER_SYSCALL_CONTEXT` -/
  stubContext : UserRegisters
  /-- `USER_SYSCALL_STACK_POINTER`, `USER_SYSCALL_RIP`, `USER_SYSCALL_RFLAGS` -/
  stubState : SyscallState

/-- What the machine does next. -/
inductive Move
  /-- user code runs and leaves these registers -/
  | run (left : UserRegisters)
  /-- a syscall of the process and thread model -/
  | call (action : Action) (scratch : Scratch)
  | setTlsBase (base : Nat) (scratch : Scratch)
  /-- any other syscall, which returns a value and touches no thread -/
  | answer (value : Nat) (scratch : Scratch)
  /-- a syscall on a stack outside of user space: `call
  scheduler_syscall_stack_top` pushes onto it in ring 0 and leaves this -/
  | overwrite (left : Machine)
  /-- the thread that was switched to goes on -/
  | proceed (scratch : Scratch)
  | tick
  /-- `idle_loop` calls `yield_now` -/
  | idle

namespace Move

/-- The action of the kernel model that is part of the move. -/
def action : Move → Option Action
  | call a _ => some a
  | proceed _ => some .resume
  | tick => some .tick
  | idle => some .yieldNow
  | _ => none

/-- Whether the move is a syscall of the current thread. -/
def isSyscall : Move → Bool
  | call _ _ | setTlsBase _ _ | answer _ _ | overwrite _ => true
  | _ => false

end Move

namespace Machine

def updateSaved (m : Machine) (thread : ThreadId) (f : SavedRegisters → SavedRegisters) :
    Machine :=
  { m with saved := put m.saved thread (f (m.saved thread)) }

/-- The current thread is a user thread, and no kernel code is left to run. -/
def inUserMode (m : Machine) : Bool :=
  m.kernel.resuming.isNone && (m.kernel.threads m.kernel.currentThread).isUser

/-- The stack pointer of user code is one of user space. -/
def stackInUserSpace (m : Machine) : Bool :=
  futureUserSpaceBase ≤ m.registers.rsp && m.registers.rsp ≤ userSpaceEnd

/-- The stub can get to its own stack. -/
def canEnter (m : Machine) : Bool := m.inUserMode && m.stackInUserSpace

/-! ## Into the kernel -/

/-- `save_syscall_state`. -/
def saveSyscallState (m : Machine) (state : SyscallState) : Machine :=
  if m.kernel.currentThread = noThread then m
  else
    m.updateSaved m.kernel.currentThread fun s =>
      { s with
        syscallState := state
        userContext := { s.userContext with
          rsp := state.stackPointer
          rip := state.instructionPointer
          rflags := state.flags } }

/-- `save_user_context`. -/
def saveUserContext (m : Machine) (context : UserRegisters) : Machine :=
  if m.kernel.currentThread ≠ noThread ∧
      (m.kernel.threads m.kernel.currentThread).isUser = true then
    m.updateSaved m.kernel.currentThread fun s => { s with userContext := context }
  else m

/-- `scheduler_save_syscall_state`. -/
def schedulerSaveSyscallState (m : Machine) : Machine :=
  (m.saveSyscallState m.stubState).saveUserContext
    { m.stubContext with fsBase := m.registers.fsBase }

/-- `x86_syscall_stub` up to the call of `syscall_dispatch`.  The processor
leaves the return address in `rcx` and the flags in `r11`.  What the stub pushes
before it has its own stack goes to user memory. -/
def enterSyscall (m : Machine) : Machine :=
  let r := { m.registers with rcx := m.registers.rip, r11 := m.registers.rflags }
  schedulerSaveSyscallState
    { m with
      stubContext := { r with rip := r.rcx, rflags := r.r11, fsBase := m.stubContext.fsBase }
      stubState :=
        { stackPointer := r.rsp, instructionPointer := r.rcx, flags := r.r11 } }

/-! ## Back to user mode -/

/-- `current_kernel_stack_top`. -/
def currentKernelStackTop (m : Machine) : Nat :=
  if m.kernel.currentThread = noThread then 0
  else (m.kernel.threads m.kernel.currentThread).stackTop

/-- `current_user_fs_base`. -/
def currentUserFsBase (m : Machine) : Nat :=
  if m.kernel.currentThread ≠ noThread ∧
      (m.kernel.threads m.kernel.currentThread).isUser = true then
    (m.saved m.kernel.currentThread).userContext.fsBase
  else 0

/-- `scheduler_set_tss_stack`. -/
def setTssStack (m : Machine) : Machine :=
  { m with
    rsp0 := m.currentKernelStackTop
    registers := { m.registers with fsBase := m.currentUserFsBase } }

/-- The end of `x86_syscall_stub`, with `value` as the result of
`syscall_dispatch`. -/
def leaveSyscall (m : Machine) (value : Nat) (scratch : Scratch) : Machine :=
  let state := (m.saved m.kernel.currentThread).syscallState
  let m := m.setTssStack
  let flags := returnFlags state.flags
  { m with
    registers := { m.registers with
      rip := state.instructionPointer
      rsp := state.stackPointer
      rflags := flags
      rax := value
      rcx := scratch.rcx
      rdx := scratch.rdx
      rsi := scratch.rsi
      rdi := scratch.rdi
      r8 := scratch.r8
      r9 := scratch.r9
      r10 := scratch.r10
      r11 := flags } }

/-- `resume_user_context(current_user_context())`. -/
def resumeUserContext (m : Machine) : Machine :=
  { m with
    rsp0 := m.currentKernelStackTop
    registers := (m.saved m.kernel.currentThread).userContext }

/-! ## Steps -/

/-- `scheduler_context_switch`. -/
def contextSwitch (m : Machine) (next : ThreadId) : Machine :=
  { m.updateSaved m.kernel.currentThread fun s =>
      { s with context := m.registers.calleeSaved } with
    registers := m.registers.withCalleeSaved (m.saved next).context }

/-- The new value of a slot that a spawn has given to a new thread. -/
def fillSlot (m : Machine) (given : Option ThreadId) (k : Kernel) : Machine :=
  match given with
  | none => m
  | some slot =>
    if (k.threads slot).state = .exited then m
    else
      m.updateSaved slot fun _ =>
        { SavedRegisters.empty with userContext := (k.threads slot).userContext.registers }

/-- One step of the kernel.  Another current thread after it means that
`schedule_from_current` has switched. -/
def advance (m : Machine) (a : Action) : Option Machine :=
  (m.kernel.step a).map fun k =>
    let filled := m.fillSlot (m.kernel.slotToGive a) k
    { (if k.currentThread = m.kernel.currentThread then filled
        else filled.contextSwitch k.currentThread) with kernel := k }

/-- `set_current_user_fs_base`. -/
def setCurrentUserFsBase (m : Machine) (base : Nat) : Bool × Machine :=
  if m.kernel.currentThread = noThread ∨
      (m.kernel.threads m.kernel.currentThread).isUser = false then (false, m)
  else if base ≠ 0 ∧ ¬ m.kernel.memory.isUserMapped base then (false, m)
  else
    (true, m.updateSaved m.kernel.currentThread fun s =>
      { s with userContext := { s.userContext with fsBase := base } })

/-- The stub after `syscall_dispatch`, if that has come back. -/
def finishCall (m : Machine) (scratch : Scratch) : Machine :=
  if m.kernel.resuming.isSome then m
  else m.leaveSyscall (m.kernel.returnedWord.getD 0) scratch

/-- The rest of a call, or of a trampoline, after the switch to a thread. -/
def goOn (m : Machine) (context : Context) (scratch : Scratch) : Machine :=
  if m.inUserMode then
    match context with
    | .trampoline => m.resumeUserContext
    | .yielded => m.leaveSyscall 0 scratch
    | _ => m.finishCall scratch
  else m

/-- One step of the machine. -/
def step (m : Machine) : Move → Option Machine
  | .run left =>
    if m.inUserMode then
      some { m with registers := { left with fsBase := m.registers.fsBase } }
    else none
  | .call action scratch =>
    if m.canEnter ∧ action.isSyscall then
      (m.enterSyscall.advance action).map (·.finishCall scratch)
    else none
  | .setTlsBase base scratch =>
    if m.canEnter then
      let set := m.enterSyscall.setCurrentUserFsBase base
      some (set.2.leaveSyscall (if set.1 then 0 else Kernel.failure) scratch)
    else none
  | .answer value scratch =>
    if m.canEnter then some (m.enterSyscall.leaveSyscall value scratch) else none
  | .overwrite left => if m.inUserMode ∧ ¬ m.stackInUserSpace then some left else none
  | .proceed scratch =>
    m.kernel.resuming.bind fun context =>
      (m.advance .resume).map (·.goOn context scratch)
  | .tick => m.advance .tick
  | .idle => if m.inUserMode then none else m.advance .yieldNow

/-- The machine after the first switch of the boot.  The processor and the TSS
hold whatever the boot has left in them. -/
def booted (k : Kernel) (registers : UserRegisters) (rsp0 : Nat) : Machine :=
  { kernel := k
    registers
    rsp0
    saved := fun thread =>
      { SavedRegisters.empty with userContext := (k.threads thread).userContext.registers }
    stubContext := .empty
    stubState := .empty }

/-- A syscall is made on a stack in user space. -/
def OnUserStack (m : Machine) (move : Move) : Prop :=
  move.isSyscall = true → m.stackInUserSpace = true

instance (m : Machine) (move : Move) : Decidable (OnUserStack m move) :=
  inferInstanceAs (Decidable (_ → _))

/-- The machine is reached by a run from the boot. -/
def Reached (memory : Memory) (m : Machine) : Prop :=
  ∃ image k registers rsp0, Kernel.boot memory image = some k ∧
    Run step OnUserStack (booted k registers rsp0) m

end Machine

end OpenKernel
