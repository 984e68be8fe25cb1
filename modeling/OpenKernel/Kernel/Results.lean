import OpenKernel.Kernel.Cases

/-!
# Results of the process calls

`join` and `wait_process` end at once, or when their thread has been
switched to again.  What they return is read off the state in which they end;
the word that goes back to user mode is that value, with all ones for a
failure.
-/

namespace OpenKernel.Kernel

open Lib

variable {k : Kernel}

/-- Whether the current thread can have the status of that thread: it is
another thread, and it has exited. -/
def Collects (k : Kernel) (thread : ThreadId) : Prop :=
  k.currentThread ≠ noThread ∧ k.currentThread ≠ thread ∧
    thread < maxThreads ∧ (k.threads thread).state = .exited

/-- What `join` returns, if it does not block. -/
def joinResult (k : Kernel) (thread : ThreadId) : Option (Option Nat) :=
  let target := k.threads thread
  if k.currentThread = noThread ∨ k.currentThread = thread ∨
      maxThreads ≤ thread then some none
  else if target.state = .exited then some (some target.exitStatus)
  else if target.joinWaiterCount = maxThreads then some none
  else none

/-- What `join` returns once it has blocked. -/
def joinedResult (k : Kernel) (thread : ThreadId) : Option Nat :=
  if (k.threads thread).state = .exited then
    some (k.threads thread).exitStatus
  else none

/-- What `wait_process` returns, if it does not block. -/
def waitResult (k : Kernel) (process : ProcessId) : Option (Option Nat) :=
  match k.currentProcess.bind (k.childMainThread process) with
  | none => some none
  | some mainThread => k.joinResult mainThread

/-- The word that a syscall hands back, if it is done. -/
def returnedWord (k : Kernel) : Option Nat :=
  if k.resuming.isSome then none
  else
    match k.log.head? with
    | some (.returned _ value) => some value
    | _ => none

/-! ## The words of the blocking calls -/

@[simp] theorem returnedWord_returnValue (hr : k.resuming = none)
    (value : Nat) : (k.returnValue value).returnedWord = some value := by
  simp [returnedWord, returnValue, record, hr]

theorem resuming_markReapable (k : Kernel) (thread : ThreadId) :
    (k.markReapable thread).resuming = k.resuming := by
  unfold markReapable
  split <;> rfl

theorem resuming_dropJoinWaiter (k : Kernel) (thread : ThreadId) :
    (k.dropJoinWaiter thread).resuming = k.resuming := by
  unfold dropJoinWaiter
  split <;> rfl

theorem resuming_collect (k : Kernel) (process : ProcessId)
    (thread : ThreadId) (status : Nat) :
    (k.collect process thread status).resuming = k.resuming := by
  unfold collect
  dsimp only
  split <;> rfl

theorem contextOf_collect (k : Kernel) (p : ProcessId) (t : ThreadId) (status : Nat)
    (w : ThreadId) : (k.collect p t status).contextOf w = k.contextOf w := by
  unfold collect
  dsimp only
  split <;> rfl

theorem isSome_resuming_switchTo (k : Kernel) (next : ThreadId)
    (saved : Context) : (k.switchTo next saved).resuming.isSome := by
  unfold switchTo
  dsimp only
  split <;> rfl

/-- A call that blocks leaves a context to resume. -/
theorem returnedWord_blockCurrent (k : Kernel) (saved : Context) :
    (k.blockCurrent saved).returnedWord = none := by
  have hresuming : (k.blockCurrent saved).resuming.isSome := by
    unfold blockCurrent
    dsimp only
    split
    · rfl
    · unfold scheduleFromCurrent
      split <;> exact isSome_resuming_switchTo _ _ _
  rw [returnedWord, if_pos hresuming]

theorem returnedWord_finishWait (hr : k.resuming = none)
    (process : ProcessId) (thread : ThreadId) (status : Option Nat) :
    (finishWait process thread status k).returnedWord =
      some (status.getD failure) := by
  cases status with
  | none => exact returnedWord_returnValue hr failure
  | some status =>
    exact returnedWord_returnValue ((k.resuming_collect _ _ _).trans hr) status

/-- What `join` returns goes back as a word by way of the code behind it. -/
theorem returnedWord_join (hr : k.resuming = none) (thread : ThreadId)
    (saved : Context) (goOn : Option Nat → Kernel → Kernel)
    (hgoOn : ∀ status k', k'.resuming = none →
      (goOn status k').returnedWord = some (status.getD failure)) :
    (k.join thread saved goOn).returnedWord =
      (k.joinResult thread).map (·.getD failure) := by
  unfold join joinResult
  dsimp only
  split
  · exact hgoOn none k hr
  · split
    · exact hgoOn _ _ ((k.resuming_markReapable thread).trans hr)
    · split
      · exact hgoOn none k hr
      · exact returnedWord_blockCurrent _ saved

theorem returnedWord_waitProcess (hr : k.resuming = none)
    (process : ProcessId) :
    (k.waitProcess process).returnedWord =
      (k.waitResult process).map (·.getD failure) := by
  unfold waitProcess waitResult
  cases k.currentProcess.bind (k.childMainThread process) with
  | none => exact returnedWord_returnValue hr failure
  | some mainThread =>
    exact returnedWord_join hr _ _ _ fun status k' hr' =>
      returnedWord_finishWait hr' process mainThread status

/-- The same for a `join` that has blocked. -/
theorem returnedWord_finishJoin (hr : k.resuming = none) (thread : ThreadId)
    (goOn : Option Nat → Kernel → Kernel)
    (hgoOn : ∀ status k', k'.resuming = none →
      (goOn status k').returnedWord = some (status.getD failure)) :
    (k.finishJoin thread goOn).returnedWord =
      some ((k.joinedResult thread).getD failure) := by
  unfold finishJoin joinedResult
  dsimp only
  by_cases hexited : (k.threads thread).state = .exited
  · rw [if_neg (not_not_intro hexited), if_pos hexited]
    exact hgoOn _ _ ((resuming_markReapable _ _).trans
      ((k.resuming_dropJoinWaiter thread).trans hr))
  · rw [if_pos hexited, if_neg hexited]
    exact hgoOn none k hr

/-- A join has a status of all ones exactly when the thread it collects ended
with it. -/
theorem joinResult_eq_failure (thread : ThreadId) :
    k.joinResult thread = some (some failure) ↔
      k.Collects thread ∧ (k.threads thread).exitStatus = failure := by
  unfold joinResult Collects
  dsimp only
  split
  · rename_i hrefused
    simp only [Option.some.injEq, reduceCtorEq, false_iff]
    rintro ⟨⟨hnone, hself, hlt, -⟩, -⟩
    exact hrefused.elim hnone fun h => h.elim hself (Nat.not_le_of_lt hlt)
  · rename_i hallowed
    have hthread : k.currentThread ≠ noThread ∧ k.currentThread ≠ thread ∧
        thread < maxThreads := by
      simpa only [not_or, Nat.not_le] using hallowed
    split
    · rename_i hexited
      simp [hthread, hexited]
    · rename_i hlive
      split <;> simp [hlive]

/-! ## The word of a spawn -/

theorem resuming_install (k : Kernel) (slot : ThreadId) (thread : Thread) :
    (k.install slot thread).resuming = k.resuming := by
  unfold install enqueue
  split <;> rfl

theorem Handed.resuming {k k' : Kernel} {slot : ThreadId}
    {entry : Option Nat} {process : Option ProcessId} {isUser : Bool}
    (h : Handed k slot entry process isUser k') :
    k'.resuming = k.resuming := by
  obtain ⟨k₁, context, owns, hquiet, -, rfl⟩ := h
  rw [resuming_install, hquiet.resuming]

theorem Recorded.spec {k k' : Kernel} {process : ProcessId}
    (h : Recorded k process k') :
    process ≤ maxProcesses ∧ k'.resuming = k.resuming := by
  obtain ⟨k₁, k₂, space, hquiet, hcreate, hquiet'⟩ := h
  obtain ⟨slot, -, hslot, rfl, -, rfl⟩ := createProcess_some hcreate
  exact ⟨hslot, hquiet'.resuming.trans hquiet.resuming⟩

theorem resuming_setProcessMainThread (k : Kernel) (process : ProcessId)
    (thread : ThreadId) :
    (k.setProcessMainThread process thread).resuming = k.resuming := by
  unfold setProcessMainThread
  split <;> rfl

/-- A spawn returns the pid of a record. -/
theorem spawnProgram_result (path : List UInt8) (image : Option (List UInt8))
    (argv : List (List UInt8)) :
    Spec (Quiet k) (spawnProgram path image argv)
      (fun process k' => process < failure ∧ k'.resuming = k.resuming)
      (fun _ k' => k'.resuming = k.resuming) := by
  apply (spawnProgram_spec path image argv).conseq
  · exact fun _ h => h
  · rintro process _ ⟨k₁, k₂, slot, hrecorded, hhanded, rfl⟩
    have hspec := hrecorded.spec
    have hmax : maxProcesses < failure := by decide
    rw [resuming_setProcessMainThread, hhanded.resuming]
    exact ⟨Nat.lt_of_le_of_lt hspec.1 hmax, hspec.2⟩
  · rintro _ k' (hquiet | ⟨process, hrecorded⟩)
    · exact hquiet.resuming
    · exact hrecorded.spec.2

end OpenKernel.Kernel
