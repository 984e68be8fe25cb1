import OpenKernel.Kernel.Effects

/-!
# What a step can do

`Effect k a k'` lists the ways in which an action can change the kernel, up
to quiet changes.  `step_effect` is the inversion lemma of `step`: an
invariant of the kernel is proved by one case for each constructor.
-/

namespace OpenKernel

open Lib

namespace Kernel

/-- The record of a child of the current process that has a main thread. -/
structure Child (k : Kernel) (process : ProcessId) (thread : ThreadId)
    (slot : Nat) : Prop where
  slot_lt : slot < maxProcesses
  id_eq : (k.processes slot).id = process
  parent_some : (k.processes slot).parent.isSome
  parent_eq : (k.processes slot).parent = k.currentProcess
  main_eq : (k.processes slot).mainThread = some thread

/-- The entry that a blocking call makes before it blocks. -/
inductive Registers (k : Kernel) : Action → Context → Kernel → Prop
  | raw : Registers k .blockCurrent .blocked k
  | sleep (milliseconds index due : Nat) (hlt : index < maxSleepers)
      (hfree : k.sleepers index = none) (hlater : k.timerTicks < due)
      (hsoon : due < k.timerTicks + 2 ^ 63) :
      Registers k (.sleep milliseconds) (.sleeping due)
        { k with
          sleepers := put k.sleepers index
            (some { thread := k.currentThread, deadline := due % 2 ^ 64 }) }
  | futex (actual expected timeout index address : Nat) (due : Option Nat)
      (hlt : index < maxFutexWaiters) (hfree : k.futexWaiters index = none)
      (hdue : ∀ d ∈ due, k.timerTicks < d ∧ d < k.timerTicks + 2 ^ 63) :
      Registers k (.futexWait address actual expected timeout)
        (.futexWaiting address due)
        { k with
          futexWaiters := put k.futexWaiters index
            (some { address
                    thread := k.currentThread
                    deadline := due.map (· % 2 ^ 64) }) }
  | join (thread : ThreadId) (hlt : thread < maxThreads)
      (hne : thread ≠ k.currentThread)
      (hlive : (k.threads thread).state ≠ .exited)
      (hroom : (k.threads thread).joinWaiterCount ≠ maxThreads) :
      Registers k (.join thread) (.joining thread) (k.addJoinWaiter thread)
  | wait (process : ProcessId) (thread : ThreadId) (slot : Nat)
      (hchild : k.Child process thread slot) (hlt : thread < maxThreads)
      (hne : thread ≠ k.currentThread)
      (hlive : (k.threads thread).state ≠ .exited)
      (hroom : (k.threads thread).joinWaiterCount ≠ maxThreads) :
      Registers k (.waitProcess process) (.waiting process thread)
        (k.addJoinWaiter thread)

/-- The ways to wake blocked threads. -/
inductive Wakes (k : Kernel) : Action → Kernel → Prop
  | tick : Wakes k .tick k.tick
  | futex (address count : Nat) :
      Wakes k (.futexWake address count)
        ((List.range maxFutexWaiters).foldl (futexWakeOne address count)
          (0, k)).2
  | wake (thread : ThreadId) : Wakes k (.wake thread) (k.wake thread).2

theorem woken_futexWakeOne (address count : Nat) (state : Nat × Kernel)
    (index : Nat) :
    Woken state.2 (futexWakeOne address count state index).2 := by
  unfold futexWakeOne
  dsimp only
  split
  · exact .refl _
  · split
    · exact woken_fireFutex _ _ _
    · exact .refl _

theorem Wakes.woken {k k' : Kernel} {a : Action} (h : Wakes k a k') : Woken k k' := by
  cases h with
  | tick => exact k.woken_tick
  | futex address count =>
    have hloop : ∀ (indices : List Nat) (state : Nat × Kernel), Woken state.2
        (indices.foldl (futexWakeOne address count) state).2 := by
      intro indices
      induction indices with
      | nil => exact fun state => .refl _
      | cons index indices ih =>
        exact fun state =>
          (woken_futexWakeOne address count state index).trans (ih _)
    exact hloop _ (0, k)
  | wake t => exact k.woken_wake t

section Keeps

variable {R : Kernel → Prop} {k k' : Kernel}

/-- What `make_ready` keeps for each thread, the loop over the join waiters
keeps. -/
theorem wakeJoinWaiters_keeps (hready : ∀ k t, R k → R (k.makeReady t))
    (hk : R k) (t : ThreadId) : R (k.wakeJoinWaiters t) := by
  unfold wakeJoinWaiters
  dsimp only
  generalize List.range (k.threads t).joinWaiterCount = indices
  generalize (k.threads t).joinWaiters = waiters
  induction indices generalizing k with
  | nil => exact hk
  | cons index indices ih => exact ih (hready k _ hk)

/-- What does not read the timer tables and `make_ready` keeps, every way to
wake threads keeps. -/
theorem Wakes.keeps
    (htables : ∀ k timerTicks sleepers futexWaiters, R k →
      R { k with timerTicks, sleepers, futexWaiters })
    (hready : ∀ k t, R k → R (k.makeReady t)) {a : Action}
    (h : Wakes k a k') (hk : R k) : R k' := by
  have hwake : ∀ k t, R k → R (k.wake t).2 := by
    intro k t hk
    unfold Kernel.wake
    split
    · exact hk
    · exact hready k t hk
  have hfire : ∀ k index entry, R k → R (fireFutex k index entry).2 :=
    fun k index entry hk => hwake _ _ (htables k _ _ _ hk)
  have hfold : ∀ {α β : Type} (f : α → β → α) (g : α → Kernel),
      (∀ a b, R (g a) → R (g (f a b))) → ∀ (bs : List β) (a : α), R (g a) →
        R (g (bs.foldl f a)) := by
    intro α β f g hf bs
    induction bs with
    | nil => exact fun a ha => ha
    | cons b bs ih => exact fun a ha => ih (f a b) (hf a b ha)
  cases h with
  | tick =>
    refine hfold expireFutex id (fun k index hk => ?_) _ _
      (hfold expireSleeper id (fun k index hk => ?_) _ _ (htables k _ _ _ hk))
    · show R (k.expireFutex index)
      unfold expireFutex
      split
      · exact hk
      · split
        · exact hfire k index _ hk
        · exact hk
    · show R (k.expireSleeper index)
      unfold expireSleeper
      split
      · exact hk
      · split
        · exact hwake _ _ (htables k _ _ _ hk)
        · exact hk
  | futex address count =>
    refine hfold (futexWakeOne address count) Prod.snd (fun state index hs => ?_)
      _ (0, k) hk
    unfold futexWakeOne
    dsimp only
    split
    · exact hs
    · split
      · exact hfire _ _ _ hs
      · exact hs
  | wake t => exact hwake k t hk

end Keeps

/-- `terminate_process` up to the loop over the waiters. -/
def endThread (k : Kernel) (process : ProcessId) (thread : ThreadId) : Kernel :=
  (k.updateThread thread fun t =>
    { t with
      state := .exited
      entry := none
      exitStatus := terminatedStatus }).record (.terminated process thread)

/-- The rest of a `join` that has found its target exited. -/
def leaveJoin (k : Kernel) (thread : ThreadId) : Kernel :=
  ({ k with resuming := none }.dropJoinWaiter thread).markReapable thread

/-- The ways in which an action can change the kernel. -/
inductive Effect (k : Kernel) : Action → Kernel → Prop
  | quiet {a : Action} {k' : Kernel} (hq : Quiet k k') : Effect k a k'
  | woken {a : Action} {k₁ k' : Kernel} (hr : k.resuming = none)
      (hw : Wakes k a k₁) (hq : Quiet k₁ k') : Effect k a k'
  /-- a thread goes on after a switch and joins nothing -/
  | resumed {c : Context} {k' : Kernel} (hr : k.resuming = some c)
      (hlive : ∀ t, c.joins = some t → (k.threads t).state ≠ .exited)
      (hq : Quiet { k with resuming := none } k') : Effect k .resume k'
  | joined {t : ThreadId} {k' : Kernel} (hr : k.resuming = some (.joining t))
      (hexited : (k.threads t).state = .exited)
      (hq : Quiet (k.leaveJoin t) k') : Effect k .resume k'
  | waited {p : ProcessId} {t : ThreadId} {k' : Kernel}
      (hr : k.resuming = some (.waiting p t))
      (hexited : (k.threads t).state = .exited)
      (hq : Quiet ((k.leaveJoin t).collect p t (k.threads t).exitStatus) k') :
      Effect k .resume k'
  | yielded (hr : k.resuming = none) : Effect k .yieldNow k.yieldNow
  | exited (status : Nat) (hr : k.resuming = none)
      (hidle : k.currentThread ≠ idleThread) :
      Effect k (.exit status) (k.exitCurrent status)
  | blocked {a : Action} {c : Context} {k₁ : Kernel} (hr : k.resuming = none)
      (hidle : k.currentThread ≠ idleThread) (hreg : k.Registers a c k₁) :
      Effect k a (k₁.blockCurrent c)
  /-- a `join` of an exited thread -/
  | reaped {a : Action} {t : ThreadId} {k' : Kernel} (hr : k.resuming = none)
      (hlt : t < maxThreads) (hne : t ≠ k.currentThread)
      (hexited : (k.threads t).state = .exited)
      (hq : Quiet (k.markReapable t) k') : Effect k a k'
  /-- a wait for an exited child -/
  | collected {a : Action} {p : ProcessId} {t : ThreadId} {slot : Nat}
      {k' : Kernel} (hr : k.resuming = none) (hchild : k.Child p t slot)
      (hlt : t < maxThreads) (hne : t ≠ k.currentThread)
      (hexited : (k.threads t).state = .exited)
      (hq : Quiet ((k.markReapable t).collect p t (k.threads t).exitStatus) k') :
      Effect k a k'
  | terminated {p : ProcessId} {t : ThreadId} {slot : Nat} {k' : Kernel}
      (hr : k.resuming = none) (hchild : k.Child p t slot)
      (hlookup : k.currentProcess.bind (k.childMainThread p) = some t)
      (hlive : (k.threads t).state ≠ .exited)
      (hq : Quiet ((k.endThread p t).wakeJoinWaiters t) k') :
      Effect k (.terminateProcess p) k'
  | handed {a : Action} {slot : ThreadId} {entry : Option Nat}
      {process : Option ProcessId} {isUser : Bool} {k₁ k' : Kernel}
      (hr : k.resuming = none) (hspawns : a.spawns)
      (hkind : isUser = !a.isInternal)
      (hprocess : process = if isUser then some userProcessId else none)
      (hhanded : k.Handed slot entry process isUser k₁)
      (hq : Quiet k₁ k') : Effect k a k'
  /-- a spawn that has failed after it had got a record -/
  | recorded {path : List UInt8} {image : Option (List UInt8)}
      {argv : List (List UInt8)} {p : ProcessId} {k' : Kernel}
      (hr : k.resuming = none)
      (huser : (k.threads k.currentThread).isUser) (hrec : k.Recorded p k') :
      Effect k (.processSpawn path image argv) k'
  | spawned {path : List UInt8} {image : Option (List UInt8)}
      {argv : List (List UInt8)} {p : ProcessId} {slot : ThreadId}
      {k₁ k₂ k' : Kernel} (hr : k.resuming = none)
      (huser : (k.threads k.currentThread).isUser) (hrec : k.Recorded p k₁)
      (hhanded : k₁.Handed slot none (some p) true k₂)
      (hq : Quiet (k₂.setProcessMainThread p slot) k') :
      Effect k (.processSpawn path image argv) k'

/-! ## Lookups -/

section Lookups

variable {k k' : Kernel} {slot : Nat}

theorem findRecord_some {test : Process → Bool}
    (h : k.findRecord test = some slot) :
    slot < maxProcesses ∧ test (k.processes slot) = true := by
  unfold findRecord at h
  have hmem := List.mem_of_find?_eq_some h
  have htest := List.find?_some h
  exact ⟨List.mem_range.mp hmem, htest⟩

theorem reusableSlot_some (h : k.reusableSlot = some slot) :
    1 ≤ slot ∧ slot < maxThreads ∧ (k.threads slot).state = .exited ∧
      (k.threads slot).reapable = true := by
  unfold reusableSlot at h
  have hmem := List.mem_of_find?_eq_some h
  have htest := List.find?_some h
  rw [List.mem_range'_1] at hmem
  simp only [Bool.and_eq_true, beq_iff_eq] at htest
  exact ⟨hmem.1, by have := hmem.2; unfold maxThreads at *; omega, htest⟩

theorem createProcess_some {space : Nat} {p : ProcessId}
    (h : k.createProcess space = (some p, k')) :
    ∃ slot, 1 ≤ slot ∧ slot < maxProcesses ∧ p = slot + 1 ∧
      (k.processes slot).id = noThread ∧
      k' = (k.setRecord slot
        { id := p, addressSpace := space, parent := k.currentProcess,
          mainThread := none }).record (.created p space) := by
  unfold createProcess at h
  split at h
  · cases (Prod.mk.inj h).1
  · rename_i slot hfind
    have hmem := List.mem_of_find?_eq_some hfind
    have hid := List.find?_some hfind
    rw [List.mem_range'_1] at hmem
    obtain ⟨hp, hk'⟩ := Prod.mk.inj h
    obtain rfl := Option.some.inj hp
    refine ⟨slot, hmem.1, ?_, rfl, by simpa using hid, hk'.symm⟩
    have := hmem.2
    unfold maxProcesses maxThreads at *
    omega

/-- The lookup of a child by the current process. -/
theorem child_of_lookup {p : ProcessId} {t : ThreadId}
    (h : k.currentProcess.bind (k.childMainThread p) = some t) :
    ∃ slot, k.Child p t slot := by
  obtain ⟨parent, hparent, h⟩ := Option.bind_eq_some_iff.mp h
  obtain ⟨slot, hfind, hmain⟩ := Option.bind_eq_some_iff.mp h
  obtain ⟨hlt, htest⟩ := findRecord_some hfind
  simp only [Bool.and_eq_true, beq_iff_eq] at htest
  exact ⟨slot, hlt, htest.1, by rw [htest.2]; rfl, by rw [htest.2, hparent],
    hmain⟩

theorem child_of_exitedChild {p : ProcessId} {t : ThreadId}
    (h : k.currentProcess.bind k.exitedChild = some (p, t)) :
    (∃ slot, k.Child p t slot) ∧ (k.threads t).state = .exited := by
  obtain ⟨parent, hparent, h⟩ := Option.bind_eq_some_iff.mp h
  obtain ⟨slot, hmem, h⟩ := List.exists_of_findSome?_eq_some h
  obtain ⟨main, hmain, h⟩ := Option.bind_eq_some_iff.mp h
  split at h
  · rename_i hcond
    obtain ⟨rfl, rfl⟩ := Prod.mk.inj (Option.some.inj h)
    exact ⟨⟨slot, List.mem_range.mp hmem, rfl, by rw [hcond.1]; rfl,
      by rw [hcond.1, hparent], hmain⟩, hcond.2⟩
  · cases h

theorem freeEntry_some {α : Type} {table : Nat → Option α} {size index : Nat}
    (h : freeEntry table size = some index) :
    index < size ∧ table index = none := by
  unfold freeEntry at h
  have hmem := List.mem_of_find?_eq_some h
  have htest := List.find?_some h
  exact ⟨List.mem_range.mp hmem, by simpa using htest⟩

end Lookups

/-! ## Inversion -/

section Inversion

variable {k k' : Kernel}

private theorem quiet_effect {a : Action} {value : Nat} :
    Effect k a (k.returnValue value) :=
  .quiet (k.quiet_returnValue value)

/-- The two ways in which a call that can fail comes to an end. -/
private theorem call_cases {x : KernelCall Nat} {post : Nat → Kernel → Prop}
    {fail : Stop → Kernel → Prop} (hx : Spec (Quiet k) x post fail)
    (h : k.call x = some k') :
    ∃ (value : Nat) (k₁ : Kernel),
      (post value k₁ ∨ fail .failed k₁) ∧ k' = k₁.returnValue value := by
  have hspec := hx k (.refl k)
  unfold call at h
  cases hxk : x k with
  | ok value k₁ =>
    rw [hxk] at h hspec
    exact ⟨value, k₁, .inl hspec, (Option.some.inj h).symm⟩
  | error e k₁ =>
    rw [hxk] at h hspec
    cases e with
    | failed => exact ⟨failure, k₁, .inr hspec, (Option.some.inj h).symm⟩
    | halted => cases h

/-- A call that hands out a slot or changes nothing but memory. -/
private theorem handed_effect {a : Action} {x : KernelCall Nat}
    {entry : Option Nat} {process : Option ProcessId} {isUser : Bool}
    (hr : k.resuming = none) (hspawns : a.spawns)
    (hkind : isUser = !a.isInternal)
    (hprocess : process = if isUser then some userProcessId else none)
    (hx : Spec (Quiet k) x (fun slot k₁ => k.Handed slot entry process isUser k₁)
      (fun _ => Quiet k)) (h : k.call x = some k') : Effect k a k' := by
  obtain ⟨value, k₁, hk₁ | hk₁, rfl⟩ := call_cases hx h
  · exact .handed hr hspawns hkind hprocess hk₁ (k₁.quiet_returnValue value)
  · exact .quiet (hk₁.trans (k₁.quiet_returnValue value))

private theorem spawnProgram_effect {path : List UInt8}
    {image : Option (List UInt8)} {argv : List (List UInt8)}
    (hr : k.resuming = none) (huser : (k.threads k.currentThread).isUser)
    (h : k.call (spawnProgram path image argv) = some k') :
    Effect k (.processSpawn path image argv) k' := by
  obtain ⟨value, k₁, hk₁ | hk₁, rfl⟩ :=
    call_cases (spawnProgram_spec path image argv) h
  · obtain ⟨k₂, k₃, slot, hrec, hhanded, rfl⟩ := hk₁
    exact .spawned hr huser hrec hhanded (quiet_returnValue _ _)
  · rcases hk₁ with hq | ⟨p, hrec⟩
    · exact .quiet (hq.trans (k₁.quiet_returnValue value))
    · exact .recorded hr huser (hrec.quiet (k₁.quiet_returnValue value))

private theorem join_effect {t : ThreadId} (hr : k.resuming = none)
    (hidle : k.currentThread ≠ idleThread) :
    Effect k (.join t) (k.join t (.joining t) finishJoinCall) := by
  unfold join
  dsimp only
  split
  · exact quiet_effect
  · rename_i hne
    have hlt : t < maxThreads := Nat.lt_of_not_le fun h => hne (.inr (.inr h))
    have hcur : t ≠ k.currentThread := fun h => hne (.inr (.inl h.symm))
    split
    · rename_i hexited
      exact .reaped hr hlt hcur hexited (quiet_returnValue _ _)
    · rename_i hlive
      split
      · exact quiet_effect
      · rename_i hroom
        exact .blocked hr hidle (.join t hlt hcur hlive hroom)

private theorem waitProcess_effect {p : ProcessId} (hr : k.resuming = none)
    (hidle : k.currentThread ≠ idleThread) :
    Effect k (.waitProcess p) (k.waitProcess p) := by
  unfold waitProcess
  split
  · exact quiet_effect
  · rename_i t hlookup
    obtain ⟨slot, hchild⟩ := child_of_lookup hlookup
    unfold join
    dsimp only
    split
    · exact quiet_effect
    · rename_i hne
      have hlt : t < maxThreads := Nat.lt_of_not_le fun h => hne (.inr (.inr h))
      have hcur : t ≠ k.currentThread := fun h => hne (.inr (.inl h.symm))
      split
      · rename_i hexited
        exact .collected hr hchild hlt hcur hexited (quiet_returnValue _ _)
      · rename_i hlive
        split
        · exact quiet_effect
        · rename_i hroom
          exact .blocked hr hidle (.wait p t slot hchild hlt hcur hlive hroom)

/-- `try_join` fails, or its target has exited. -/
private theorem tryJoin_cases (k : Kernel) (t : ThreadId) :
    k.tryJoin t = (none, k) ∨
      (k.tryJoin t = (some (k.threads t).exitStatus, k.markReapable t) ∧
        t < maxThreads ∧ t ≠ k.currentThread ∧
        (k.threads t).state = .exited) := by
  unfold tryJoin
  dsimp only
  split
  · exact .inl rfl
  · rename_i h
    push Not at h
    exact .inr ⟨rfl, h.2.2.1, fun heq => h.2.1 heq.symm, h.2.2.2⟩

private theorem tryWaitProcess_effect {p : ProcessId}
    (hr : k.resuming = none) :
    Effect k (.tryWaitProcess p) (k.tryWaitProcess p) := by
  unfold tryWaitProcess
  split
  · exact quiet_effect
  · rename_i t hlookup
    obtain ⟨slot, hchild⟩ := child_of_lookup hlookup
    rcases k.tryJoin_cases t with heq | ⟨heq, hlt, hcur, hexited⟩
    · rw [heq]
      exact quiet_effect
    · rw [heq]
      exact .collected hr hchild hlt hcur hexited (quiet_returnValue _ _)

private theorem reapAnyChild_effect {pointer : Nat} (hr : k.resuming = none)
    (h : k.syscallReapAnyChild pointer = some k') :
    Effect k (.reapAnyChild pointer) k' := by
  unfold syscallReapAnyChild reapAnyChild at h
  cases hlookup : k.currentProcess.bind k.exitedChild with
  | none =>
    rw [hlookup] at h
    obtain rfl := Option.some.inj h
    exact quiet_effect
  | some found =>
    obtain ⟨p, t⟩ := found
    rw [hlookup] at h
    dsimp only at h
    obtain ⟨⟨slot, hchild⟩, -⟩ := child_of_exitedChild hlookup
    rcases k.tryJoin_cases t with heq | ⟨heq, hlt, hcur, hexited⟩
    · rw [heq] at h
      obtain rfl := Option.some.inj h
      exact quiet_effect
    · rw [heq] at h
      refine .collected hr hchild hlt hcur hexited ?_
      dsimp only at h
      split at h
      · obtain ⟨memory, -, rfl⟩ := Option.map_eq_some_iff.mp h
        exact (quiet_memory _ memory).trans (quiet_returnValue _ _)
      · obtain rfl := Option.some.inj h
        exact quiet_returnValue _ _

private theorem terminateProcess_effect {p : ProcessId}
    (hr : k.resuming = none) :
    Effect k (.terminateProcess p)
      ((k.terminateProcess p).2.returnValue
        (if (k.terminateProcess p).1 then 1 else 0)) := by
  unfold terminateProcess
  split
  · exact quiet_effect
  · rename_i t hlookup
    obtain ⟨slot, hchild⟩ := child_of_lookup hlookup
    split
    · exact quiet_effect
    · rename_i hlive
      exact .terminated hr hchild hlookup hlive (quiet_returnValue _ _)

theorem timeoutTicks_bounds (milliseconds : Nat) :
    1 ≤ timeoutTicks milliseconds ∧ timeoutTicks milliseconds < 2 ^ 63 := by
  unfold timeoutTicks
  omega

private theorem sleep_effect {milliseconds : Nat} (hr : k.resuming = none)
    (hidle : k.currentThread ≠ idleThread) :
    Effect k (.sleep milliseconds) (k.sleep milliseconds) := by
  have hbounds := timeoutTicks_bounds milliseconds
  unfold sleep
  split
  · exact quiet_effect
  · split
    · exact quiet_effect
    · dsimp only
      split
      · rename_i index hfree
        obtain ⟨hlt, hnone⟩ := freeEntry_some hfree
        exact .blocked hr hidle
          (.sleep _ index _ hlt hnone (by omega) (by omega))
      · exact quiet_effect

private theorem futexWait_effect {address actual expected timeout : Nat}
    (hr : k.resuming = none) (hidle : k.currentThread ≠ idleThread) :
    Effect k (.futexWait address actual expected timeout)
      (k.futexWait address actual expected timeout) := by
  have hbounds := timeoutTicks_bounds timeout
  unfold futexWait
  split
  · exact quiet_effect
  · split
    · exact quiet_effect
    · split
      · exact quiet_effect
      · dsimp only
        split
        · rename_i index hfree
          obtain ⟨hlt, hnone⟩ := freeEntry_some hfree
          refine .blocked hr hidle (.futex _ _ _ index address _ hlt hnone ?_)
          intro d hd
          split at hd
          · cases hd
          · obtain rfl := Option.some.inj hd
            omega
        · exact quiet_effect

private theorem futexWake_effect {address count : Nat}
    (hr : k.resuming = none) :
    Effect k (.futexWake address count) (k.futexWake address count) := by
  unfold futexWake
  split
  · exact quiet_effect
  · exact .woken hr (.futex address count) (quiet_returnValue _ _)

private theorem quiet_enterAddressSpace (k : Kernel) (t : ThreadId) :
    Quiet k (k.enterAddressSpace t) := by
  rw [enterAddressSpace_eq]
  exact k.quiet_memory _

/-- The kernel code of a context that the thread goes on with. -/
private theorem resume_effect {c : Context} (hr : k.resuming = some c)
    (h : { k with resuming := none }.goOn c = some k') :
    Effect k .resume k' := by
  cases c with
  | trampoline =>
    refine .resumed hr (fun t ht => by cases ht) ?_
    unfold goOn startThread at h
    dsimp only at h
    split at h
    · obtain rfl := Option.some.inj h
      exact quiet_enterAddressSpace _ _
    · split at h
      · obtain rfl := Option.some.inj h
        exact .refl _
      · obtain ⟨-, -, rfl⟩ := Option.map_eq_some_iff.mp h
        exact .refl _
  | yielded =>
    obtain rfl := Option.some.inj h
    exact .resumed hr (fun t ht => by cases ht) (.refl _)
  | blocked =>
    obtain rfl := Option.some.inj h
    exact .resumed hr (fun t ht => by cases ht) (.refl _)
  | sleeping due =>
    obtain rfl := Option.some.inj h
    exact .resumed hr (fun t ht => by cases ht) (quiet_returnValue _ _)
  | futexWaiting address due =>
    obtain rfl := Option.some.inj h
    exact .resumed hr (fun t ht => by cases ht) (quiet_returnValue _ _)
  | joining t =>
    unfold goOn finishJoin at h
    obtain rfl := Option.some.inj h
    dsimp only
    split
    · rename_i hlive
      refine .resumed hr ?_ (quiet_returnValue _ _)
      rintro t' ht'
      obtain rfl := Option.some.inj ht'
      exact hlive
    · rename_i hexited
      exact .joined hr (not_not.mp hexited) (quiet_returnValue _ _)
  | waiting p t =>
    unfold goOn finishJoin at h
    obtain rfl := Option.some.inj h
    dsimp only
    split
    · rename_i hlive
      refine .resumed hr ?_ (quiet_returnValue _ _)
      rintro t' ht'
      obtain rfl := Option.some.inj ht'
      exact hlive
    · rename_i hexited
      exact .waited hr (not_not.mp hexited) (quiet_returnValue _ _)
  | finished => cases h

/-- The inversion lemma of `step`. -/
theorem step_effect {a : Action} (hidle : (k.threads idleThread).isUser = false)
    (h : k.step a = some k') : Effect k a k' := by
  unfold step at h
  split at h
  · rename_i hen
    have hresuming : ∀ {p : Prop}, k.resuming.isNone = true ∧ p →
        k.resuming = none ∧ p := fun h => ⟨Option.isNone_iff_eq_none.mp h.1, h.2⟩
    have huser : (k.threads k.currentThread).isUser = true →
        k.currentThread ≠ idleThread := by
      intro hu heq
      rw [heq, hidle] at hu
      cases hu
    cases a with
    | resume =>
      obtain ⟨c, hr, hgo⟩ := Option.bind_eq_some_iff.mp h
      exact resume_effect hr hgo
    | tick =>
      obtain rfl := Option.some.inj h
      exact .woken (Option.isNone_iff_eq_none.mp hen) .tick (.refl _)
    | yieldNow =>
      obtain rfl := Option.some.inj h
      exact .yielded (Option.isNone_iff_eq_none.mp hen)
    | spawn entry =>
      refine handed_effect (Option.isNone_iff_eq_none.mp hen) rfl rfl ?_
        (spawn_spec entry) h
      rfl
    | wake t =>
      obtain rfl := Option.some.inj h
      exact .woken (Option.isNone_iff_eq_none.mp hen) (.wake t) (.refl _)
    | exit status =>
      obtain rfl := Option.some.inj h
      obtain ⟨hr, hne⟩ := hresuming (Bool.and_eq_true_iff.mp hen)
      exact .exited status hr (by simpa using hne)
    | join t =>
      obtain rfl := Option.some.inj h
      obtain ⟨hr, hne⟩ := hresuming (Bool.and_eq_true_iff.mp hen)
      exact join_effect hr (by simpa using hne)
    | blockCurrent =>
      obtain rfl := Option.some.inj h
      obtain ⟨hr, hne⟩ := hresuming (Bool.and_eq_true_iff.mp hen)
      exact .blocked hr (by simpa using hne) .raw
    | sleep milliseconds =>
      obtain rfl := Option.some.inj h
      obtain ⟨hr, hu⟩ := hresuming (Bool.and_eq_true_iff.mp hen)
      exact sleep_effect hr (huser hu)
    | threadCreate entry argument tlsBase =>
      obtain ⟨hr, -⟩ := hresuming (Bool.and_eq_true_iff.mp hen)
      refine handed_effect hr rfl rfl ?_
        (spawnUser_spec entry argument tlsBase none) h
      rfl
    | brk requestedBreak =>
      obtain ⟨value, k₁, hk₁ | hk₁, rfl⟩ := call_cases (quiet_brk _) h
      · exact .quiet (hk₁.trans (quiet_returnValue _ _))
      · exact .quiet (hk₁.trans (quiet_returnValue _ _))
    | futexWait address actual expected timeout =>
      obtain rfl := Option.some.inj h
      obtain ⟨hr, hu⟩ := hresuming (Bool.and_eq_true_iff.mp hen)
      exact futexWait_effect hr (huser hu)
    | futexWake address count =>
      obtain rfl := Option.some.inj h
      obtain ⟨hr, -⟩ := hresuming (Bool.and_eq_true_iff.mp hen)
      exact futexWake_effect hr
    | processSpawn path image argv =>
      obtain ⟨hr, hu⟩ := hresuming (Bool.and_eq_true_iff.mp hen)
      exact spawnProgram_effect hr hu h
    | waitProcess p =>
      obtain rfl := Option.some.inj h
      obtain ⟨hr, hu⟩ := hresuming (Bool.and_eq_true_iff.mp hen)
      exact waitProcess_effect hr (huser hu)
    | tryWaitProcess p =>
      obtain rfl := Option.some.inj h
      obtain ⟨hr, -⟩ := hresuming (Bool.and_eq_true_iff.mp hen)
      exact tryWaitProcess_effect hr
    | reapAnyChild pointer =>
      obtain ⟨hr, -⟩ := hresuming (Bool.and_eq_true_iff.mp hen)
      exact reapAnyChild_effect hr h
    | terminateProcess p =>
      obtain rfl := Option.some.inj h
      obtain ⟨hr, -⟩ := hresuming (Bool.and_eq_true_iff.mp hen)
      exact terminateProcess_effect hr
  · cases h

end Inversion

end Kernel

end OpenKernel
