import OpenKernel.Kernel.JoinResults
import OpenKernel.Kernel.ProcessLifetime
import OpenKernel.Kernel.Turns

/-!
# Mistaken waits

A `wait_process` that goes on and finds another process under its pid than the
one that it has waited for destroys the address space of this other process.
The states of a run are therefore safe exactly as long as it has no such wait
(`process_lifetimes`).

That the destruction is wrong is seen in the log.  While the join has lasted,
nobody has got the slot of the thread that it was made for (`JoinOf`), and the
main thread of a process has got its slot after the process got its pid
(`MainsHanded`).  So the thread of the join is not the main thread of a process
that came later.
-/

namespace OpenKernel

open Lib

/-- A thread that becomes the main thread of a process has got its slot since
the process got its pid. -/
def Event.HandedFirst : Event → List Event → Prop
  | mainThreadSet p t, h => Since (· = .handed t) (fun e => e.creates p) h
  | _, _ => True

section Log

variable {log log' : List Event} {p : ProcessId} {t w : ThreadId}

theorem handedFirst_calm (h : Sound Event.HandedFirst log) (hlog : Extends Event.IsCalm log log') :
    Sound Event.HandedFirst log' := by
  refine h.grow hlog fun e he _ _ => ?_
  cases e <;> first | exact he.elim | trivial

/-- The main thread of the process that has the pid has got its slot since. -/
theorem Leads.handed (h : Leads p t log) (hsound : Sound Event.HandedFirst log) :
    Since (· = .handed t) (fun e => e.creates p) log := by
  induction log with
  | nil => exact h
  | cons e log ih =>
    rcases h with heq | ⟨hbad, h⟩
    · rw [heq] at hsound ⊢
      exact Since.later (by simp [Event.creates]) hsound.1
    · exact Since.later hbad (ih h hsound.2)

/-- A thread that is held in a wait for the main thread of a process waits for
this process. -/
theorem HeldSince.awaits (h : HeldSince w (.waiting p t) t log) (hleads : Leads p t log)
    (hsound : Sound Event.HandedFirst log) : Awaits w p t log :=
  Since.between h (hleads.handed hsound)

end Log

namespace Kernel

/-- Every main thread has got its slot after its process got its pid. -/
def MainsHanded (k : Kernel) : Prop := Sound Event.HandedFirst k.log

section Steps

variable {k k' : Kernel} {a : Action}

theorem MainsHanded.tidy (h : k.MainsHanded) (ht : Tidy k k') : k'.MainsHanded :=
  handedFirst_calm h ht.log

theorem MainsHanded.collect (h : k.MainsHanded) (p : ProcessId) (t : ThreadId) (status : Nat) :
    (k.collect p t status).MainsHanded := by
  have hcollected : Sound Event.HandedFirst (.collected k.currentThread p t status :: k.log) :=
    Sound.cons trivial h
  unfold MainsHanded
  rcases k.log_collect p t status with heq | ⟨slot, -, heq⟩
  · rw [heq]
    exact hcollected
  · rw [heq]
    exact Sound.cons trivial hcollected

theorem MainsHanded.blocked (h : k.MainsHanded) (hw : k.WellFormed) {c : Context} {k₁ : Kernel}
    (hreg : k.Registers a c k₁) (hidle : k.currentThread ≠ idleThread) :
    (k₁.blockCurrent c).MainsHanded := by
  obtain ⟨-, -, hlog⟩ := blocked_spec hreg ⟨hw.ne_noThread, hidle⟩
  have hblocked : Sound Event.HandedFirst (.blocked k.currentThread c :: k.log) :=
    Sound.cons trivial h
  exact handedFirst_calm hblocked (hlog.mono Event.isCalm_of_queue)

/-- The log of a thread creation: calm events, the slot, and calm events. -/
theorem Handed.log_handed {slot : ThreadId} {entry : Option Nat} {process : Option ProcessId}
    {isUser : Bool} (hhanded : k.Handed slot entry process isUser k') :
    ∃ log, Extends Event.IsCalm k.log log ∧
      Extends Event.IsCalm (.handed slot :: log) k'.log := by
  obtain ⟨k₁, userContext, ownsUserStack, hq, -, rfl⟩ := hhanded
  exact ⟨k₁.log, (tidy_quiet hq).log, (tidy_woken (woken_enqueue _ slot)).log⟩

/-- The log of a process creation: calm events, the pid, and calm events. -/
theorem Recorded.log_created {p : ProcessId} (hrec : k.Recorded p k') :
    ∃ log space, Extends Event.IsCalm k.log log ∧
      Extends Event.IsCalm (.created p space :: log) k'.log := by
  obtain ⟨k₁, k₂, space, hq, hcreate, hq'⟩ := hrec
  obtain ⟨slot, -, -, rfl, -, rfl⟩ := createProcess_some hcreate
  exact ⟨k₁.log, space, (tidy_quiet hq).log, (tidy_quiet hq').log⟩

theorem MainsHanded.handed (h : k.MainsHanded) {slot : ThreadId} {entry : Option Nat}
    {process : Option ProcessId} {isUser : Bool}
    (hhanded : k.Handed slot entry process isUser k') : k'.MainsHanded := by
  obtain ⟨log, hbefore, hafter⟩ := hhanded.log_handed
  have hslot : Sound Event.HandedFirst (.handed slot :: log) :=
    Sound.cons trivial (handedFirst_calm h hbefore)
  exact handedFirst_calm hslot hafter

theorem MainsHanded.recorded (h : k.MainsHanded) {p : ProcessId} (hrec : k.Recorded p k') :
    k'.MainsHanded := by
  obtain ⟨log, space, hbefore, hafter⟩ := hrec.log_created
  have hpid : Sound Event.HandedFirst (.created p space :: log) :=
    Sound.cons trivial (handedFirst_calm h hbefore)
  exact handedFirst_calm hpid hafter

/-- The thread that has just got its slot becomes the main thread. -/
theorem MainsHanded.spawned (h : k.MainsHanded) {p : ProcessId} {slot : ThreadId}
    {entry : Option Nat} {process : Option ProcessId} {isUser : Bool}
    (hhanded : k.Handed slot entry process isUser k') :
    (k'.setProcessMainThread p slot).MainsHanded := by
  have hk' := h.handed hhanded
  obtain ⟨log, -, hafter⟩ := hhanded.log_handed
  unfold setProcessMainThread
  split
  · exact hk'
  · refine Sound.cons ?_ hk'
    show Since (· = .handed slot) (fun e => e.creates p) k'.log
    refine hafter.since (fun e he hbad => ?_) (Since.now rfl)
    rw [he.creates] at hbad
    cases hbad

theorem MainsHanded.step (h : k.MainsHanded) (hw : k.WellFormed) (hstep : k.step a = some k') :
    k'.MainsHanded := by
  cases step_effect hw.idle.1 hstep with
  | quiet hq => exact h.tidy (tidy_quiet hq)
  | woken hr hwakes hq => exact h.tidy ((tidy_woken hwakes.woken).trans (tidy_quiet hq))
  | resumed hr hlive hq => exact handedFirst_calm h (tidy_quiet hq).log
  | joined hr hexited hq =>
    exact handedFirst_calm h ((k.tidy_leaveJoin _).trans (tidy_quiet hq)).log
  | @waited p t _ hr hexited hq =>
    have hleft : (k.leaveJoin t).MainsHanded := handedFirst_calm h (k.tidy_leaveJoin t).log
    exact (hleft.collect p t _).tidy (tidy_quiet hq)
  | yielded hr => exact h.tidy (tidy_yieldNow hr)
  | exited status hr hidle => exact h.tidy (tidy_exitCurrent hr status)
  | blocked hr hidle hreg => exact h.blocked hw hreg hidle
  | reaped hr hlt hne hexited hq =>
    exact h.tidy ((k.tidy_markReapable _).trans (tidy_quiet hq))
  | collected hr hchild hlt hne hexited hq =>
    exact ((h.tidy (k.tidy_markReapable _)).collect _ _ _).tidy (tidy_quiet hq)
  | @terminated p t _ _ hr hchild hlookup hlive hq =>
    have hwoken := tidy_woken (woken_wakeJoinWaiters (k.endThread p t) t)
    exact h.tidy (((k.tidy_endThread p t).trans hwoken).trans (tidy_quiet hq))
  | handed hr hspawns hkind hprocess hhanded hq =>
    exact (h.handed hhanded).tidy (tidy_quiet hq)
  | recorded hr huser hrec => exact h.recorded hrec
  | spawned hr huser hrec hhanded hq =>
    exact ((h.recorded hrec).spawned hhanded).tidy (tidy_quiet hq)

/-! ## A wait that goes on -/

/-- A wait that goes on when its thread has ended collects under its pid. -/
theorem quiet_waited {p : ProcessId} {t : ThreadId} (hr : k.resuming = some (.waiting p t))
    (hexited : (k.threads t).state = .exited) (hstep : k.step a = some k') :
    Quiet ((k.leaveJoin t).collect p t (k.threads t).exitStatus) k' := by
  obtain rfl : a = .resume := by
    by_contra ha
    rw [resuming_of_step hstep ha] at hr
    cases hr
  unfold Kernel.step at hstep
  split at hstep
  · obtain ⟨c, hc, hgo⟩ := Option.bind_eq_some_iff.mp hstep
    obtain rfl := Option.some.inj (hr.symm.trans hc)
    unfold goOn finishJoin at hgo
    obtain rfl := Option.some.inj hgo
    dsimp only
    rw [if_neg (not_not.mpr hexited)]
    exact quiet_returnValue _ _
  · cases hstep

/-- The log of a collection that finds a record. -/
theorem log_collect_found {p : ProcessId} {slot : Nat}
    (hfound : k.findRecord (·.id == p) = some slot) (t : ThreadId) (status : Nat) :
    (k.collect p t status).log =
      .destroyed k.currentThread p t (k.processes slot).addressSpace ::
        .collected k.currentThread p t status :: k.log := by
  have hrecorded : (k.record (.collected k.currentThread p t status)).findRecord (·.id == p) =
      some slot := hfound
  unfold collect
  dsimp only
  rw [hrecorded]
  rfl

/-- A step to a safe state finds no other process than the one waited for. -/
theorem findsAwaited_of_safe (hw : k.WellFormed) (hjoining : k.Joining) (hmains : k.MainsHanded)
    (hstep : k.step a = some k') (hsafe : k'.LifetimeSafe) :
    ∀ c ∈ k.resuming, k.FindsAwaited c := by
  intro c hc
  cases c with
  | waiting p t =>
    intro hexited hfound
    obtain ⟨slot, hslot⟩ := Option.isSome_iff_exists.mp hfound
    obtain ⟨hcurrent, hprocesses⟩ := k.leaveJoin_fields t
    have hleft : (k.leaveJoin t).findRecord (·.id == p) = some slot := by
      unfold findRecord at hslot ⊢
      rw [hprocesses]
      exact hslot
    -- The step destroys the space of the record that it finds.
    obtain ⟨later, hlog, -⟩ := (quiet_waited hc hexited hstep).log
    rw [log_collect_found hleft, hcurrent, log_leaveJoin] at hlog
    obtain ⟨-, -, hleads, -⟩ := hsafe.destroyed _ _ _ _ _ _ hlog
    have hcollected : Extends Event.IsCalm k.log
        (.collected k.currentThread p t (k.threads t).exitStatus :: k.log) :=
      Extends.refl.cons trivial
    have hled : Leads p t k.log := by
      refine hcollected.of_since (fun e he heq => ?_) hleads
      rw [heq] at he
      exact he
    have hcontext : k.contextOf k.currentThread = some (.waiting p t) := by
      rw [contextOf, if_pos rfl]
      exact hc
    exact (hjoining.joins _ hw.current_lt _ t hcontext rfl).held.awaits hled hmains
  | _ => trivial

end Steps

/-! ## Runs -/

section Runs

variable {places : Places} {m base : Memory} {config : PagingConfig} {image : List UInt8}
  {k₀ k : Kernel} {actions : List Action}

theorem Booted.mainsHanded (h : k.Booted) : k.MainsHanded := by
  obtain ⟨space, hlog⟩ := h.log
  have hgrown : Extends (fun e : Event => e.IsMinor ∨ e = .handed 1 ∨
      e = .created userProcessId space) [] k.log := ⟨k.log, by rw [List.append_nil], hlog⟩
  refine Sound.grow (show Sound Event.HandedFirst [] from trivial) hgrown fun e he _ _ => ?_
  rcases he with hminor | rfl | rfl
  · cases e <;> first | exact hminor.elim | trivial
  · trivial
  · trivial

/-- What holds in every run of the kernel. -/
theorem joining_mainsHanded (h : ReachedFrom base ShortSyscalls k) :
    k.WellFormed ∧ k.Joining ∧ k.MainsHanded := by
  obtain ⟨hw, -, hjoining, hmains⟩ := h.invariant
    (fun k => k.Counted ∧ k.Joining ∧ k.MainsHanded)
    (fun _ hk => ⟨hk.counted, hk.joining, hk.mainsHanded⟩)
    fun _ _ _ hw hk hguard hstep => ⟨hk.1.step hw hguard.1 hstep,
      hk.2.1.step hw hk.1 hguard.1 hstep, hk.2.2.step hw hstep⟩
  exact ⟨hw, hjoining, hmains⟩

/-- The states of a run are safe exactly when each `wait_process` of the run
that goes on, and whose thread has ended, finds under its pid no other process
than the one that it has waited for. -/
theorem process_lifetimes (hboot : BootTables places m)
    (hinit : initializeVirtualMemory config m = .ok () base) (hk₀ : boot base image = some k₀)
    (actions : List Action) :
    (∀ n k, exec step ShortSyscalls (actions.take n) k₀ = some k → k.LifetimeSafe) ↔
      ∀ n k a k', exec step ShortSyscalls (actions.take n) k₀ = some k →
        actions[n]? = some a → k.ShortSyscalls a → k.step a = some k' →
          ∀ c ∈ k.resuming, k.FindsAwaited c := by
  constructor
  · intro hsafe n k a k' hk ha hguard hstep
    have hreached : ReachedFrom base ShortSyscalls k := ⟨image, k₀, hk₀, run_of_exec hk⟩
    obtain ⟨hw, hjoining, hmains⟩ := joining_mainsHanded hreached
    have hk' := hsafe (n + 1) k' (exec_take_succ hk ha hguard hstep)
    exact findsAwaited_of_safe hw hjoining hmains hstep hk'
  · intro hfinds
    have hrun : ∀ n k, exec step ShortSyscalls (actions.take n) k₀ = some k →
        Run step CollectsAwaited k₀ k := by
      intro n
      induction n with
      | zero =>
        intro k hk
        obtain rfl := Option.some.inj hk
        exact .refl
      | succ n ih =>
        intro k hk
        rcases exec_take_cases hk with hbefore | ⟨t, a, ht, ha, hguard, hstep⟩
        · exact ih k hbefore
        · exact .step a (ih t ht) ⟨hguard, hfinds n t a k ht ha hguard hstep⟩ hstep
    intro n k hk
    obtain ⟨hw, htended⟩ := tended hboot hinit ⟨image, k₀, hk₀, hrun n k hk⟩
    exact htended.safe hw

/-- PID 1 waits for its child, the child exits, and PID 1 collects it. -/
def awaitedChild : List Action :=
  [.resume, .spawnSmall, .waitProcess 2, .resume, .yieldNow, .resume, .exit 7, .resume]

set_option maxRecDepth 100000 in
/-- In a run with a wait that finds its process, every state is safe. -/
theorem process_lifetimes_wait : ∃ k₀ k : Kernel,
    boot plainMemory smallImage = some k₀ ∧ exec step ShortSyscalls awaitedChild k₀ = some k ∧
      .collected 1 2 2 7 ∈ k.log ∧ ∀ n k, exec step ShortSyscalls (awaitedChild.take n) k₀ = some k →
        k.LifetimeSafe := by
  have hrun : ((boot plainMemory smallImage).bind (exec step CollectsAwaited awaitedChild)).any
      fun k => decide (Event.collected 1 2 2 7 ∈ k.log) := by
    decide +kernel
  obtain ⟨k, hk, hfound⟩ := (Option.any_eq_true _ _).mp hrun
  obtain ⟨k₀, hk₀, hexec⟩ := Option.bind_eq_some_iff.mp hk
  refine ⟨k₀, k, hk₀, exec_mono (fun _ _ h => h.1) hexec, of_decide_eq_true hfound, ?_⟩
  apply (process_lifetimes bootTables_bareMemory initialize_bareMemory hk₀ awaitedChild).mpr
  intro n k a k' hbefore ha _ _
  exact (exec_guard hexec hbefore ha).2

set_option maxRecDepth 100000 in
/-- Two threads of PID 1 wait for the same child.  The first of them collects
it and starts another process, which gets its pid; the second then destroys
the address space of the new process. -/
theorem mistaken_wait : ∃ places m config k, BootTables places m ∧
    initializeVirtualMemory config m = .ok () plainMemory ∧
    ReachedFrom plainMemory ShortSyscalls k ∧ (k.threads 4).isUser = true ∧
    (k.threads 4).state = .ready ∧ (k.threads 4).process = some 2 ∧
    (k.processes 1).id = noThread ∧ ¬ k.LifetimeSafe := by
  have hrun : ((boot plainMemory smallImage).bind (exec step ShortSyscalls
      [.resume, .threadCreate futureUserSpaceBase 0 0, .spawnSmall, .waitProcess 2, .resume,
        .yieldNow, .resume, .waitProcess 2, .resume, .exit 7, .resume, .spawnSmall, .yieldNow,
        .resume])).any
      fun k => (k.threads 4).isUser && (k.threads 4).state == .ready &&
        (k.threads 4).process == some 2 && (k.processes 1).id == noThread := by
    decide +kernel
  obtain ⟨k, hk, hfound⟩ := ReachedFrom.of_exec hrun
  simp only [Bool.and_eq_true, beq_iff_eq] at hfound
  obtain ⟨⟨⟨huser, hstate⟩, hprocess⟩, hfree⟩ := hfound
  refine ⟨_, _, _, k, bootTables_bareMemory, initialize_bareMemory, hk, huser, hstate, hprocess,
    hfree, fun h => ?_⟩
  obtain ⟨slot, hslot, hpid, hid, -⟩ := h.live 4 huser (by rw [hstate]; decide)
  rw [hprocess] at hpid
  obtain rfl : 1 = slot := Nat.succ.inj (Option.some.inj hpid)
  rw [hfree] at hid
  cases hid

end Runs

end Kernel

end OpenKernel
