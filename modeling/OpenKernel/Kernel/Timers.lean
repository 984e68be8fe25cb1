import OpenKernel.Kernel.Processes

/-!
# Sleep and futex

The timer interrupt and the two blocking calls of `arch.rs` that keep their
waiters in tables of their own.
-/

namespace OpenKernel

open Lib

namespace Kernel

/-- `timer_ticks`. -/
def ticks (k : Kernel) : Nat := k.timerTicks % 2 ^ 64

/-- `ticks.wrapping_sub(deadline) < 1 << 63`. -/
def reached (ticks deadline : Nat) : Bool :=
  (ticks + 2 ^ 64 - deadline) % 2 ^ 64 < 2 ^ 63

/-- The number of ticks of a timeout: `milliseconds.saturating_add(9) / 10`,
and at least one. -/
def timeoutTicks (milliseconds : Nat) : Nat :=
  max (min (milliseconds + 9) (2 ^ 64 - 1) / 10) 1

/-! ## The timer interrupt -/

/-- One turn of `wake_expired_sleepers`. -/
def expireSleeper (k : Kernel) (index : Nat) : Kernel :=
  match k.sleepers index with
  | none => k
  | some entry =>
    if reached k.ticks entry.deadline then
      ({ k with sleepers := put k.sleepers index none }.wake
        entry.thread).2
    else k

/-- `wake_expired_sleepers`. -/
def wakeExpiredSleepers (k : Kernel) : Kernel :=
  (List.range maxSleepers).foldl expireSleeper k

/-- Take a futex entry out and wake its thread. -/
def fireFutex (k : Kernel) (index : Nat) (entry : FutexWaiter) :
    Bool × Kernel :=
  { k with futexWaiters := put k.futexWaiters index none }.wake entry.thread

/-- One turn of `wake_expired_futexes`. -/
def expireFutex (k : Kernel) (index : Nat) : Kernel :=
  match k.futexWaiters index with
  | none => k
  | some entry =>
    if entry.deadline.any (reached k.ticks) then (k.fireFutex index entry).2
    else k

/-- `wake_expired_futexes`. -/
def wakeExpiredFutexes (k : Kernel) : Kernel :=
  (List.range maxFutexWaiters).foldl expireFutex k

/-- The timer branch of `irq_dispatch`. -/
def tick (k : Kernel) : Kernel :=
  ({ k with
    timerTicks := k.timerTicks + 1 }.wakeExpiredSleepers).wakeExpiredFutexes

/-! ## Sleep -/

/-- The first free entry of a table. -/
def freeEntry {α : Type} (table : Nat → Option α) (size : Nat) : Option Nat :=
  (List.range size).find? fun index => (table index).isNone

/-- `syscall_sleep`. -/
def sleep (k : Kernel) (milliseconds : Nat) : Kernel :=
  if milliseconds = 0 then k.returnValue 0
  else if k.currentThread = noThread then k.returnValue failure
  else
    let due := k.timerTicks + timeoutTicks milliseconds
    match freeEntry k.sleepers maxSleepers with
    | some index =>
      { k with
        sleepers := put k.sleepers index
          (some { thread := k.currentThread
                  deadline := due % 2 ^ 64 }) }.blockCurrent (.sleeping due)
    | none => k.returnValue failure

/-! ## Futex -/

/-- `valid_user_word`. -/
def validUserWord (address : Nat) : Bool :=
  address % 4 == 0 && futureUserSpaceBase ≤ address &&
    address + 4 ≤ userSpaceEnd

/-- `syscall_futex_wait`, where `actual` is the word at the address.  A
timeout of `u64::MAX` is no timeout. -/
def futexWait (k : Kernel) (address actual expected timeout : Nat) : Kernel :=
  if ¬ validUserWord address then k.returnValue failure
  else if actual ≠ expected then k.returnValue 1
  else if k.currentThread = noThread then k.returnValue failure
  else
    let due :=
      if timeout = 2 ^ 64 - 1 then none
      else some (k.timerTicks + timeoutTicks timeout)
    match freeEntry k.futexWaiters maxFutexWaiters with
    | some index =>
      { k with
        futexWaiters := put k.futexWaiters index
          (some { address
                  thread := k.currentThread
                  deadline := due.map (· % 2 ^ 64) }) }.blockCurrent
        (.futexWaiting address due)
    | none => k.returnValue failure

/-- One turn of the loop of `syscall_futex_wake`, which carries the number
of threads woken so far. -/
def futexWakeOne (address count : Nat) (state : Nat × Kernel) (index : Nat) :
    Nat × Kernel :=
  let (woken, k) := state
  match k.futexWaiters index with
  | none => state
  | some entry =>
    if entry.address = address ∧ woken < count then
      let (success, k) := k.fireFutex index entry
      (if success then woken + 1 else woken, k)
    else state

/-- `syscall_futex_wake`. -/
def futexWake (k : Kernel) (address count : Nat) : Kernel :=
  if ¬ validUserWord address then k.returnValue failure
  else
    let (woken, k) :=
      (List.range maxFutexWaiters).foldl (futexWakeOne address count) (0, k)
    k.returnValue woken

end Kernel

end OpenKernel
