import OpenKernel.Kernel.ActiveSpace

/-!
# Thread creation

`syscall_thread_create` checks its arguments and maps the user stack in the
active address space, which is that of its caller, and makes the new thread a
thread of PID 1.  So the new thread stays inside the caller's process exactly
when PID 1 calls.  `user::spawn` names the process of its new thread.
-/

namespace OpenKernel.Kernel

open Lib KernelCall

/-- The slot is not given to another thread. -/
def KeepsSlot (t : ThreadId) (k : Kernel) (a : Action) : Prop := k.slotToGive a ≠ some t

instance (t : ThreadId) (k : Kernel) : DecidablePred (KeepsSlot t k) := fun a =>
  inferInstanceAs (Decidable (k.slotToGive a ≠ some t))

/-- The thread `t` that a call in `k` has made, with `k'` after the call, is a
thread of `p` and uses what belongs to `p`. -/
structure StaysInside (k k' : Kernel) (t : ThreadId) (p : ProcessId) : Prop where
  process : (k'.threads t).process = some p
  /-- the user stack has been mapped in the space of the caller, where the
  arguments have been checked -/
  stack : ∃ queued, k'.log = queued :: .handed t :: .stackMapped t k.activeSpace :: k.log
  /-- the same space is active whenever the thread runs, and it is the space
  of its process -/
  space : ∀ k'', Run step (KeepsSlot t) (k'.returnValue t) k'' → k''.currentThread = t →
    k''.activeSpace = k.activeSpace ∧ k''.activeSpace = k''.spaceOf p
  /-- descriptors, heap break and console binding are those of its process -/
  state : ∀ k'', Run step (KeepsSlot t) (k'.returnValue t) k'' → k''.currentThread = t →
    k''.currentProcess = some p ∧ k''.currentStateSlot = p - 1

section Spawn

variable {k k' : Kernel} {t : ThreadId} {entry argument tlsBase : Nat}

/-- A step that only touches memory and stack fields logs nothing. -/
private theorem log_prepareSlot (slot : ThreadId) (log : List Event) :
    Keeps (fun k : Kernel => k.log = log) (prepareSlot slot) := by
  have hmemory : ∀ {α ε : Type} (x : EStateM ε Memory α),
      Keeps (fun k : Kernel => k.log = log) (ofMemory x) := by
    intro α ε x k hk
    unfold ofMemory
    cases x k.memory <;> exact hk
  refine Spec.bind (Spec.update fun k hk => ?_ : Spec _ _ (fun _ k => k.log = log) _)
    fun _ => ?_
  · unfold releaseResources
    dsimp only
    split <;> exact hk
  refine Spec.bind_read fun _ _ => ?_
  refine Spec.ite (fun _ => ?_) fun _ => Spec.pure fun _ hk => hk
  refine Spec.bind (hmemory _) fun stackTop => ?_
  refine Spec.bind (Spec.update fun k hk => ?_ : Spec _ _ (fun _ k => k.log = log) _)
    fun _ => ?_
  · exact hk
  refine Spec.bind (hmemory _) fun syscallStackTop => ?_
  exact Spec.update fun k hk => hk

/-- A new stack is mapped in the active space. -/
private theorem log_chooseUserStack (slot : ThreadId) (k₀ : Kernel) :
    Spec (fun k : Kernel => k.memory.cr3 = k₀.memory.cr3 ∧ k.log = k₀.log)
      (chooseUserStack slot none)
      (fun _ k => k.log = .stackMapped slot k₀.activeSpace :: k₀.log) fun _ _ => True := by
  refine Spec.bind_read fun k hk => ?_
  refine Spec.bind (?_ : Spec _ _ (fun _ k => k.log = k₀.log) _) fun stackTop => ?_
  · intro k hk
    unfold ofMemory
    cases allocateUserStack slot k.memory with
    | ok => exact hk.2
    | error => trivial
  refine Spec.bind (Spec.update fun k' hk' => ?_ : Spec _ _
    (fun _ k => k.log = .stackMapped slot k₀.activeSpace :: k₀.log) _) fun _ => ?_
  · show .stackMapped slot (target k.memory.cr3) :: k'.log = _
    rw [hk', hk.1]
    rfl
  refine Spec.ite (fun _ => ?_) fun _ => Spec.pure fun _ hk => hk
  exact Spec.bind (Spec.throw fun _ _ => trivial) fun _ => Spec.pure fun _ hk => hk

theorem log_install (k : Kernel) (slot : ThreadId) (thread : Thread) :
    ∃ queued, (k.install slot thread).log = queued :: .handed slot :: k.log := by
  unfold install enqueue
  split
  · exact ⟨_, rfl⟩
  · exact ⟨_, rfl⟩

/-- What `spawn_user` logs when it makes the user stack. -/
theorem log_spawnUser (hcall : spawnUser entry argument tlsBase none k = .ok t k') :
    ∃ queued, k'.log = queued :: .handed t :: .stackMapped t k.activeSpace :: k.log := by
  have hspec : Spec (fun s : Kernel => s.memory.cr3 = k.memory.cr3 ∧ s.log = k.log)
      (spawnUser entry argument tlsBase none)
      (fun slot s => ∃ queued, s.log =
        queued :: .handed slot :: .stackMapped slot k.activeSpace :: k.log)
      fun _ _ => True := by
    refine Spec.bind_read fun s _ => ?_
    refine Spec.ite (fun _ => Spec.bind_throw fun _ _ => trivial) fun _ => ?_
    refine Spec.bind_read fun s _ => ?_
    refine Spec.ite (fun _ => Spec.bind_throw fun _ _ => trivial) fun _ => ?_
    refine Spec.bind_read fun s _ => ?_
    refine Spec.bind ((spec_ofOption _).mono_fail fun _ _ _ => trivial) fun slot =>
      Spec.and_pre fun _ => ?_
    refine Spec.bind (((keepsActive_prepareSlot slot k.memory.cr3).and
      (log_prepareSlot slot k.log)).mono_fail fun _ _ _ => trivial) fun _ => ?_
    refine Spec.bind (log_chooseUserStack slot k) fun chosen => ?_
    refine Spec.bind (Spec.update fun s hs => ?_ : Spec _ _ (fun _ s => ∃ queued, s.log =
      queued :: .handed slot :: .stackMapped slot k.activeSpace :: k.log) _)
      fun _ => Spec.pure fun _ hs => hs
    rw [← hs]
    exact log_install _ slot _
  exact hspec.ok ⟨rfl, rfl⟩ hcall

/-- The new thread is a user thread of PID 1, and the call changes no record. -/
theorem spawnUser_handed (hcall : spawnUser entry argument tlsBase none k = .ok t k') :
    (k'.threads t).process = some userProcessId ∧ (k'.threads t).isUser = true ∧
      k'.processes = k.processes := by
  have hspec : Spec (Quiet k) (spawnUser entry argument tlsBase none)
      (fun slot => Handed k slot none (some userProcessId) true) fun _ => Quiet k :=
    spawnUser_spec entry argument tlsBase none
  obtain ⟨k₁, userContext, ownsUserStack, hq, -, rfl⟩ := hspec.ok (.refl k) hcall
  obtain ⟨hthreads, -, hprocesses, -, -, -⟩ := ((k₁.updateThread t fun _ =>
    newThread (k₁.threads t) none (some userProcessId) userContext true
      ownsUserStack).record (.handed t)).enqueue_fields t
  unfold install
  rw [hthreads, hprocesses]
  show (put k₁.threads t _ t).process = _ ∧ (put k₁.threads t _ t).isUser = _ ∧ _
  rw [put_same]
  exact ⟨rfl, rfl, hq.processes⟩

end Spawn

/-- A thread of PID 1 in a slot that is kept, and the space of PID 1. -/
private structure OfFirst (t : ThreadId) (space : Nat) (k : Kernel) : Prop where
  wellFormed : k.WellFormed
  home : k.Home userProcessId
  process : (k.threads t).process = some userProcessId
  isUser : (k.threads t).isUser = true
  space : k.spaceOf userProcessId = space

private theorem OfFirst.step {t : ThreadId} {space : Nat} {k k' : Kernel} {a : Action}
    (h : OfFirst t space k) (hslot : k.slotToGive a ≠ some t)
    (hstep : k.step a = some k') : OfFirst t space k' := by
  have hkeeps := step_keepsHomes h.wellFormed hstep
  obtain ⟨hprocess, huser⟩ := hkeeps.owner t hslot
  have hw' := h.wellFormed.step hstep
  have hused : ∀ {k : Kernel}, k.WellFormed → (k.processes 0).id ≠ noThread := by
    intro k hw
    rw [hw.first.1]
    decide
  refine ⟨hw', ?_, hprocess.trans h.process, huser.trans h.isUser, ?_⟩
  · exact h.home.step h.wellFormed
      (fun _ => ⟨0, by decide, rfl, h.wellFormed.first.1⟩) hstep
  · rw [← h.space]
    exact congrArg target (hkeeps.record 0 (hused h.wellFormed) (hused hw')).2

/-- A thread that PID 1 creates stays in PID 1. -/
private theorem OfFirst.run {t : ThreadId} {space : Nat} {k k' : Kernel}
    (h : OfFirst t space k) (hrun : Run Kernel.step (KeepsSlot t) k k')
    (hcurrent : k'.currentThread = t) :
    k'.activeSpace = space ∧ k'.activeSpace = k'.spaceOf userProcessId ∧
      k'.currentProcess = some userProcessId := by
  have h' : OfFirst t space k' :=
    hrun.invariant (OfFirst t space) (fun _ _ _ hk hslot hstep => hk.step hslot hstep) h
  have hrecord : k'.HasRecord userProcessId := ⟨0, by decide, rfl, h'.wellFormed.first.1⟩
  have hspace := h'.home (by rw [hcurrent]; exact h'.isUser)
    (by rw [hcurrent]; exact h'.process) hrecord
  refine ⟨hspace.trans h'.space, hspace, ?_⟩
  have hlt := h'.wellFormed.current_lt
  unfold currentProcess
  rw [if_neg (not_or.mpr ⟨h'.wellFormed.ne_noThread, Nat.not_le_of_lt hlt⟩), hcurrent]
  exact h'.process

/-- A new thread stays inside the process of its caller exactly when this is
PID 1. -/
theorem threadCreate_stays_inside {memory : Memory} {k k' : Kernel} {p : ProcessId}
    {t : ThreadId} {entry argument tlsBase : Nat}
    (hreached : ReachedFrom memory (fun _ _ => True) k)
    (henabled : k.enabled (.threadCreate entry argument tlsBase) = true)
    (hcaller : k.currentProcess = some p)
    (hcall : spawnUser entry argument tlsBase none k = .ok t k') :
    StaysInside k k' t p ↔ p = userProcessId := by
  obtain ⟨hprocess, huser, hrecords⟩ := spawnUser_handed hcall
  constructor
  · intro h
    exact Option.some.inj (h.process.symm.trans hprocess)
  · rintro rfl
    have hw := hreached.wellFormed
    have hstep : k.step (.threadCreate entry argument tlsBase) =
        some (k'.returnValue t) := by
      unfold step
      rw [if_pos henabled]
      show k.call _ = _
      unfold call
      rw [hcall]
    have hrecord : k.HasRecord userProcessId := ⟨0, by decide, rfl, hw.first.1⟩
    have hcurrent : (k.threads k.currentThread).process = some userProcessId := by
      unfold currentProcess at hcaller
      rwa [if_neg (not_or.mpr ⟨hw.ne_noThread, Nat.not_le_of_lt hw.current_lt⟩)] at hcaller
    have hhome := home_first hreached
    have hspace : k.activeSpace = k.spaceOf userProcessId :=
      hhome (Bool.and_eq_true_iff.mp henabled).2 hcurrent hrecord
    have hfirst : OfFirst t k.activeSpace (k'.returnValue t) :=
      { wellFormed := hw.step hstep
        home := hhome.step hw (fun _ => hrecord) hstep
        process := hprocess
        isUser := huser
        space := by
          rw [hspace]
          exact congrArg (fun records => target (records 0).addressSpace) hrecords }
    refine ⟨hprocess, log_spawnUser hcall, fun k'' hrun ht => ?_, fun k'' hrun ht => ?_⟩
    · obtain ⟨hactive, hown, -⟩ := hfirst.run hrun ht
      exact ⟨hactive, hown⟩
    · obtain ⟨-, -, hpid⟩ := hfirst.run hrun ht
      refine ⟨hpid, ?_⟩
      unfold currentStateSlot
      rw [hpid]
      rfl

/-- A run of the small machine up to a call that creates a thread. -/
private theorem threadCreate_of_exec {actions : List Action} {p : ProcessId} {t : ThreadId}
    (h : ((boot plainMemory smallImage).bind
      (exec step (fun _ _ => True) actions)).any (fun k =>
        k.enabled (.threadCreate futureUserSpaceBase 0 0) && k.currentProcess == some p &&
          match spawnUser futureUserSpaceBase 0 0 none k with
          | .ok slot _ => slot == t
          | .error _ _ => false) = true) :
    ∃ k k', ReachedFrom plainMemory (fun _ _ => True) k ∧
      k.enabled (.threadCreate futureUserSpaceBase 0 0) = true ∧
      k.currentProcess = some p ∧
      spawnUser futureUserSpaceBase 0 0 none k = .ok t k' := by
  obtain ⟨k, hk, hfound⟩ := ReachedFrom.of_exec h
  rw [Bool.and_eq_true, Bool.and_eq_true, beq_iff_eq] at hfound
  obtain ⟨⟨henabled, hcaller⟩, hcall⟩ := hfound
  cases hx : spawnUser futureUserSpaceBase 0 0 none k with
  | ok slot k' =>
    rw [hx] at hcall
    obtain rfl := beq_iff_eq.mp hcall
    exact ⟨k, k', hk, henabled, hcaller, hx⟩
  | error e k' =>
    rw [hx] at hcall
    cases hcall

set_option maxRecDepth 100000 in
/-- PID 1 creates a thread in slot 2. -/
theorem threadCreate_stays_inside_first : ∃ k k', StaysInside k k' 2 userProcessId := by
  have hrun : ((boot plainMemory smallImage).bind
      (exec step (fun _ _ => True) [.resume])).any (fun k =>
        k.enabled (.threadCreate futureUserSpaceBase 0 0) &&
          k.currentProcess == some userProcessId &&
          match spawnUser futureUserSpaceBase 0 0 none k with
          | .ok slot _ => slot == 2
          | .error _ _ => false) = true := by
    decide +kernel
  obtain ⟨k, k', hk, henabled, hcaller, hcall⟩ := threadCreate_of_exec hrun
  exact ⟨k, k', (threadCreate_stays_inside hk henabled hcaller hcall).mpr rfl⟩

set_option maxRecDepth 100000 in
/-- PID 2 creates a thread in slot 3, and it is a thread of PID 1. -/
theorem threadCreate_leaves : ∃ k k', ReachedFrom plainMemory (fun _ _ => True) k ∧
    k.enabled (.threadCreate futureUserSpaceBase 0 0) = true ∧ k.currentProcess = some 2 ∧
    spawnUser futureUserSpaceBase 0 0 none k = .ok 3 k' ∧ ¬ StaysInside k k' 3 2 := by
  have hrun : ((boot plainMemory smallImage).bind (exec step (fun _ _ => True)
      [.resume, .spawnSmall, .yieldNow, .resume, .yieldNow, .resume])).any (fun k =>
        k.enabled (.threadCreate futureUserSpaceBase 0 0) && k.currentProcess == some 2 &&
          match spawnUser futureUserSpaceBase 0 0 none k with
          | .ok slot _ => slot == 3
          | .error _ _ => false) = true := by
    decide +kernel
  obtain ⟨k, k', hk, henabled, hcaller, hcall⟩ := threadCreate_of_exec hrun
  refine ⟨k, k', hk, henabled, hcaller, hcall, fun h => ?_⟩
  have hfirst : some 2 = some userProcessId :=
    h.process.symm.trans (spawnUser_handed hcall).1
  exact absurd (Option.some.inj hfirst) (by decide)

end OpenKernel.Kernel
