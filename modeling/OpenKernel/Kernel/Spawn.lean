import OpenKernel.Kernel.Processes
import OpenKernel.Memory.Elf
import OpenKernel.Memory.Mmu

/-!
# Spawning

The functions of `threads.rs` and `user.rs` that make new threads and
processes, and `brk`.  They change memory and can fail half way, with what
they have done so far left in place.
-/

namespace OpenKernel

open Lib

/-- Why a kernel call ends early: it returns `None`, or a page fault halts
the machine. -/
inductive Stop
  | failed
  | halted
  deriving DecidableEq, Repr

abbrev KernelCall := EStateM Stop Kernel

namespace KernelCall

/-- A fallible memory operation followed by `.ok()?` or `let Ok(..) else`. -/
def ofMemory {ε α : Type} (x : EStateM ε Memory α) : KernelCall α := fun k =>
  match x k.memory with
  | .ok a memory => .ok a { k with memory }
  | .error _ memory => .error .failed { k with memory }

/-- An access to virtual memory: no result is a page fault. -/
def ofAccess (x : Memory → Option Memory) : KernelCall Unit := fun k =>
  match x k.memory with
  | some memory => .ok () { k with memory }
  | none => .error .halted k

/-- `ok_or` and `?` on an option. -/
def ofOption {α : Type} : Option α → KernelCall α
  | some a => return a
  | none => throw .failed

/-- A kernel function that returns an option, followed by `?`. -/
def ofResult {α : Type} (f : Kernel → Option α × Kernel) : KernelCall α :=
  fun k =>
    match f k with
    | (some a, k) => .ok a k
    | (none, k) => .error .failed k

end KernelCall

namespace Kernel

/-! ## Thread slots -/

/-- The slot that the search loops of `spawn` and `spawn_user_for_process`
take. -/
def reusableSlot (k : Kernel) : Option ThreadId :=
  (List.range' 1 (maxThreads - 1)).find? fun slot =>
    (k.threads slot).state == .exited && (k.threads slot).reapable

/-- `release_resources`. -/
def releaseResources (k : Kernel) (slot : ThreadId) : Kernel :=
  let thread := k.threads slot
  if ¬ thread.stackAllocated then k
  else
    let memory := k.memory.releaseKernelStack slot
    let memory := memory.releaseKernelStack (slot + maxThreads)
    let memory :=
      if thread.ownsUserStack then memory.releaseUserStack slot else memory
    { k with memory }.updateThread slot fun t =>
      { t with
        stackTop := 0
        syscallStackTop := 0
        stackAllocated := false
        ownsUserStack := false }

/-- The part that both spawn functions start with once they have a slot: the
old resources go, and the slot gets two kernel stacks. -/
def prepareSlot (slot : ThreadId) : KernelCall Unit := do
  modify (·.releaseResources slot)
  if ¬ ((← get).threads slot).stackAllocated then
    let stackTop ← KernelCall.ofMemory (allocateKernelStack slot)
    modify (·.updateThread slot fun t => { t with stackTop })
    let syscallStackTop ←
      KernelCall.ofMemory (allocateKernelStack (slot + maxThreads))
    modify (·.updateThread slot fun t =>
      { t with syscallStackTop, stackAllocated := true })

/-- The new thread of `spawn` or `spawn_user_for_process`, in a slot with
kernel stacks. -/
def newThread (old : Thread) (entry : Option Nat) (process : Option ProcessId)
    (userContext : UserContext) (isUser ownsUserStack : Bool) : Thread :=
  { Thread.empty with
    entry
    process
    userContext
    isUser
    state := .ready
    stackTop := old.stackTop
    syscallStackTop := old.syscallStackTop
    stackAllocated := true
    ownsUserStack
    reapable := false }

/-- `*thread = Thread { … }; enqueue(slot)`. -/
def install (k : Kernel) (slot : ThreadId) (thread : Thread) : Kernel :=
  ((k.updateThread slot fun _ => thread).record (.handed slot)).enqueue slot

/-- `spawn`. -/
def spawn (entry : Nat) : KernelCall ThreadId := do
  let slot ← KernelCall.ofOption (← get).reusableSlot
  prepareSlot slot
  modify fun k =>
    k.install slot
      (newThread (k.threads slot) (some entry) none .empty false false)
  return slot

/-- The user stack of a new thread: the one that the caller has prepared, or
a new one in the active address space.  The flag says that the thread owns
it. -/
def chooseUserStack (slot : ThreadId) :
    Option Nat → KernelCall (Nat × Bool)
  | some stack => return (stack, false)
  | none => do
    let space := (← get).memory.activeAddressSpace
    let stackTop ← KernelCall.ofMemory (allocateUserStack slot)
    modify (·.record (.stackMapped slot space))
    if stackTop < 8 then throw .failed
    return (stackTop - 8, true)

/-- `spawn_user_for_process`. -/
def spawnUserForProcess (process : ProcessId) (entry argument tlsBase : Nat)
    (initialStack : Option Nat) : KernelCall ThreadId := do
  if ((← get).processAddressSpace process).isNone then throw .failed
  let slot ← KernelCall.ofOption (← get).reusableSlot
  prepareSlot slot
  let (userStack, ownsUserStack) ← chooseUserStack slot initialStack
  modify fun k =>
    k.install slot
      (newThread (k.threads slot) none (some process)
        { rip := entry, rsp := userStack, rdi := argument, fsBase := tlsBase }
        true ownsUserStack)
  return slot

/-- `spawn_user`. -/
def spawnUser (entry argument tlsBase : Nat) (initialStack : Option Nat) :
    KernelCall ThreadId := do
  let memory := (← get).memory
  if ¬ memory.isUserExecutable entry ∨
      tlsBase ≠ 0 ∧ ¬ memory.isUserMapped tlsBase then
    throw .failed
  spawnUserForProcess userProcessId entry argument tlsBase initialStack

/-! ## User programs -/

/-- `-=` of `u64` values, without overflow checks. -/
def wrappingSub (a b : Nat) : Nat := (a + (2 ^ 64 - b % 2 ^ 64)) % 2 ^ 64

/-- The strings of the startup block: the arguments from the last to the
first, then the environment, each at its address. -/
def startupStrings (cursor : Nat) : List (List UInt8) → List (Nat × List UInt8)
  | [] => []
  | text :: rest =>
    let cursor := wrappingSub cursor text.length
    (cursor, text) :: startupStrings cursor rest

def pathVariable : List UInt8 := "PATH=/bin".toUTF8.toList ++ [0]
def pwdVariable : List UInt8 := "PWD=/".toUTF8.toList ++ [0]

/-- What `initialize_process_stack` writes: the strings, and the words that go
down from `cursor`. -/
structure StartupBlock where
  strings : List (Nat × List UInt8)
  cursor : Nat
  words : List Nat

def startupBlock (stackPointer : Nat) (programName : List UInt8) (argv : List (List UInt8)) :
    StartupBlock :=
  let arguments := programName :: argv.take 4
  let strings := startupStrings ((stackPointer + 8) % 2 ^ 64)
    (arguments.reverse.map (· ++ [0]) ++ [pathVariable, pwdVariable])
  let addresses := strings.map (·.1)
  let argumentPointers := addresses.take arguments.length
  let environment := (addresses.drop arguments.length).reverse
  -- One padding word, then the vector from its end to the argument count.
  { strings
    cursor := wrappingSub (alignDown (addresses.getLastD 0) 16) 8
    words := [0, 0] ++ environment ++ [0] ++ argumentPointers ++ [arguments.length] }

/-- `initialize_process_stack`: the new stack pointer. -/
def initializeProcessStack (stackPointer : Nat) (programName : List UInt8)
    (argv : List (List UInt8)) : KernelCall Nat := do
  let block := startupBlock stackPointer programName argv
  block.strings.forM fun (address, text) =>
    KernelCall.ofAccess (·.storeBytes address text)
  block.words.zipIdx.forM fun (word, index) =>
    KernelCall.ofAccess (·.storeWord (wrappingSub block.cursor (8 * index)) word)
  return wrappingSub block.cursor (8 * (block.words.length - 1))

/-- `current_state_slot`. -/
def currentStateSlot (k : Kernel) : Nat :=
  min (k.currentProcess.getD 1 - 1) 7

/-- The reset of `PROCESS_STATE` at the start of a program. -/
def resetUserState (k : Kernel) (process : ProcessId) : Kernel :=
  { k with userStates := put k.userStates (min (process - 1) 7) .empty }

/-- `PROCESS_STATE[..].executable_entry = entry`. -/
def setExecutableEntry (k : Kernel) (process : ProcessId) (entry : Nat) :
    Kernel :=
  let slot := min (process - 1) 7
  { k with
    userStates := put k.userStates slot
      { k.userStates slot with executableEntry := entry } }

def switchAddressSpace (space : Nat) : KernelCall Unit :=
  modify fun k => { k with memory := k.memory.switchAddressSpace space }

/-- The startup block of a loaded program, written through its own address
space, which is active. -/
def initializeProgram (loaded : LoadedImage) (name : List UInt8)
    (argv : List (List UInt8)) : KernelCall Nat := do
  let stackPointer ← initializeProcessStack loaded.stackPointer name argv
  if loaded.fsBase ≠ 0 then
    KernelCall.ofAccess (·.storeWord loaded.fsBase loaded.fsBase)
  return stackPointer

/-- `user::spawn`.  The path has been resolved, and `image` is what
`vfs_open` has found there. -/
def spawnProgram (path : List UInt8) (image : Option (List UInt8))
    (argv : List (List UInt8)) : KernelCall ProcessId := do
  let image ← KernelCall.ofOption image
  let addressSpace ← KernelCall.ofMemory createUserAddressSpace
  let process ← KernelCall.ofResult (·.createProcess addressSpace)
  modify (·.resetUserState process)
  let loaded ←
    KernelCall.ofMemory (loadUserElfInto image addressSpace process)
  modify (·.setExecutableEntry process loaded.entry)
  let previousAddressSpace := (← get).memory.activeAddressSpace
  switchAddressSpace addressSpace
  let stackPointer ← initializeProgram loaded path argv
  switchAddressSpace previousAddressSpace
  let thread ←
    spawnUserForProcess process loaded.entry 0 loaded.fsBase (some stackPointer)
  modify (·.setProcessMainThread process thread)
  return process

/-! ## The heap -/

/-- The page loop of `brk`. -/
def extendHeap : (pages page : Nat) → Paging Unit
  | 0, _ => return
  | pages + 1, page => do
    let frame ← allocatePhysicalFrame
    modify (·.zeroPhysicalFrame frame)
    mapUserPageWithFlags page frame .userReadWrite
    extendHeap pages (page + pageSize)

/-- `brk`. -/
def brk (requestedBreak : Nat) : KernelCall Nat := do
  let k ← get
  let slot := k.currentStateSlot
  let state := k.userStates slot
  if requestedBreak = 0 then return state.heapBreak
  if requestedBreak < userHeapBase ∨ userHeapLimit < requestedBreak then
    throw .failed
  if requestedBreak ≤ state.heapBreak then
    set { k with
      userStates := put k.userStates slot
        { state with heapBreak := requestedBreak } }
    return requestedBreak
  let requiredEnd := alignDown (requestedBreak + pageSize - 1) pageSize
  KernelCall.ofMemory
    (extendHeap ((requiredEnd - state.heapMappedEnd + pageSize - 1) / pageSize)
      state.heapMappedEnd)
  modify fun k =>
    { k with
      userStates := put k.userStates slot
        { state with
          heapBreak := requestedBreak
          heapMappedEnd := requiredEnd } }
  return requestedBreak

end Kernel

end OpenKernel
