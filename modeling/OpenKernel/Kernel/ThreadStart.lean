import OpenKernel.Kernel.SyscallReturn

/-!
# Where a new thread starts

`thread_create` leaves the user context of the new thread in its slot.  The
thread is bound to it until the trampoline loads it.
-/

namespace OpenKernel

open Lib

namespace Kernel

open KernelCall

variable {k k' : Kernel} {t : ThreadId} {entry argument tlsBase : Nat}

/-- What `thread_create` asks for. -/
def requested (t : ThreadId) (entry argument tlsBase : Nat) : UserContext :=
  { rip := entry, rsp := userStackTop t - 8, rdi := argument, fsBase := tlsBase }

/-- A new user stack is the one that belongs to the slot. -/
theorem chooseUserStack_top (slot : ThreadId) (k₀ : Kernel) :
    Spec (Quiet k₀) (chooseUserStack slot none)
      (fun chosen k => chosen = (userStackTop slot - 8, true) ∧ Quiet k₀ k)
      fun _ => Quiet k₀ := by
  have htop : Spec (fun _ => True) (allocateUserStack slot)
      (fun top _ => top = userStackTop slot) fun _ _ => True := by
    have hany : ∀ {α : Type} (x : Paging α),
        Spec (fun _ => True) x (fun _ _ => True) fun _ _ => True := by
      intro α x m _
      cases x m <;> trivial
    refine Spec.bind_read fun m _ => ?_
    exact Spec.bind (hany _) fun _ => Spec.pure fun _ _ => rfl
  refine Spec.bind_read fun k hk => ?_
  refine Spec.bind (?_ : Spec _ _ (fun top k => top = userStackTop slot ∧ Quiet k₀ k) _)
    fun stackTop => Spec.and_pre fun hstack => ?_
  · intro k hk
    have hspec := htop k.memory trivial
    unfold ofMemory
    cases hx : allocateUserStack slot k.memory with
    | ok top memory =>
      rw [hx] at hspec
      exact ⟨hspec, hk.trans (k.quiet_memory memory)⟩
    | error e memory => exact hk.trans (k.quiet_memory memory)
  refine Spec.bind (quiet_modify fun k => ?_) fun _ => ?_
  · exact { Quiet.refl k with log := .cons .refl trivial }
  refine Spec.ite (fun _ => ?_) fun _ => Spec.pure fun _ hk => ⟨by rw [hstack], hk⟩
  exact Spec.bind (Spec.throw fun _ hk => hk) fun _ => Spec.pure fun _ hk => ⟨by rw [hstack], hk⟩

/-- The thread that `thread_create` makes. -/
theorem spawnUser_installs (hcall : spawnUser entry argument tlsBase none k = .ok t k') :
    ∃ k₁, Quiet k k₁ ∧ k.reusableSlot = some t ∧
      k' = k₁.install t (newThread (k₁.threads t) none (some userProcessId)
        (requested t entry argument tlsBase) true true) := by
  have hspec : Spec (Quiet k) (spawnUser entry argument tlsBase none)
      (fun slot k' => ∃ k₁, Quiet k k₁ ∧ k.reusableSlot = some slot ∧
        k' = k₁.install slot (newThread (k₁.threads slot) none (some userProcessId)
          (requested slot entry argument tlsBase) true true))
      fun _ => Quiet k := by
    refine Spec.bind_read fun k₁ hk₁ => ?_
    refine Spec.ite (fun _ => Spec.bind_throw fun _ h => h) fun _ => ?_
    refine Spec.bind_read fun k₂ hk₂ => ?_
    refine Spec.ite (fun _ => Spec.bind_throw fun _ h => h) fun _ => ?_
    refine Spec.bind_read fun k₃ hk₃ => ?_
    refine Spec.bind (spec_ofOption _) fun slot => Spec.and_pre fun hslot => ?_
    refine Spec.bind (quiet_prepareSlot slot) fun _ => ?_
    refine Spec.bind (chooseUserStack_top slot k) fun chosen => Spec.and_pre fun hchosen => ?_
    subst hchosen
    refine Spec.bind (Spec.update fun k₁ h₁ => ?_ : Spec _ _ (fun _ k' => ∃ k₁, Quiet k k₁ ∧
      k.reusableSlot = some slot ∧
      k' = k₁.install slot (newThread (k₁.threads slot) none (some userProcessId)
        (requested slot entry argument tlsBase) true true)) _) fun _ => Spec.pure fun _ h => h
    exact ⟨k₁, h₁, by rw [← hk₃.reusableSlot, hslot], rfl⟩
  exact hspec.ok (.refl k) hcall

/-- A thread that has just been installed: ready, at the trampoline, with its
user context. -/
theorem install_spec (thread : Thread) (hcur : t ≠ k.currentThread) :
    (k.install t thread).threads t = thread ∧
      (k.install t thread).contextOf t = some thread.context := by
  constructor
  · unfold install
    rw [(((k.updateThread t fun _ => thread).record (.handed t)).enqueue_fields t).1]
    exact put_same _ _ _
  · rw [contextOf_install k thread hcur, if_pos rfl]

theorem currentThread_install (k : Kernel) (t : ThreadId) (thread : Thread) :
    (k.install t thread).currentThread = k.currentThread := by
  unfold install enqueue
  split <;> rfl

/-- The two ends of `thread_create`. -/
theorem step_threadCreate (hstep : k.step (.threadCreate entry argument tlsBase) = some k') :
    (∃ (slot : ThreadId) (k₁ : Kernel), spawnUser entry argument tlsBase none k = .ok slot k₁ ∧
      k' = k₁.returnValue slot) ∨
    ∃ k₁ : Kernel, Quiet k k₁ ∧ k' = k₁.returnValue failure := by
  unfold step at hstep
  split at hstep
  · change k.call (spawnUser entry argument tlsBase none) = some k' at hstep
    unfold call at hstep
    split at hstep
    · rename_i slot k₁ heq
      exact .inl ⟨slot, k₁, heq, (Option.some.inj hstep).symm⟩
    · rename_i k₁ heq
      have hq := (spawnUser_spec entry argument tlsBase none).error (.refl k) heq
      exact .inr ⟨k₁, hq, (Option.some.inj hstep).symm⟩
    · cases hstep
  · cases hstep

end Kernel

namespace Machine

variable {m m₁ m₂ : Machine} {t : ThreadId} {entry argument tlsBase : Nat} {scratch : Scratch}

/-- The slot that a spawn has filled holds the user context of its new thread. -/
theorem saved_advance_given {a : Action} (h : m.advance a = some m₁)
    (hgiven : m.kernel.slotToGive a = some t) (hlive : (m₁.kernel.threads t).state ≠ .exited)
    (hcur : m₁.kernel.currentThread = m.kernel.currentThread) :
    (m₁.saved t).userContext = (m₁.kernel.threads t).userContext.registers := by
  obtain ⟨k, -, rfl⟩ := Option.map_eq_some_iff.mp h
  dsimp only at hlive hcur ⊢
  rw [if_pos hcur, hgiven]
  unfold fillSlot
  dsimp only
  rw [if_neg hlive]
  exact congrArg SavedRegisters.userContext (put_same _ _ _)

theorem stackInUserSpace_of_call {a : Action} (h : m.step (.call a scratch) = some m₁) :
    m.stackInUserSpace = true := by
  unfold Machine.step at h
  dsimp only at h
  split at h
  · rename_i hcall
    exact (canEnter_iff.mp hcall.1).2
  · cases h

/-- What the new thread is to start with. -/
theorem bound_threadCreate (hw : m.kernel.WellFormed)
    (hstep : m.step (.call (.threadCreate entry argument tlsBase) scratch) = some m₁)
    (hrax : m₁.registers.rax = t) (ht : t < maxThreads) :
    Bound t (.start (Kernel.requested t entry argument tlsBase).registers) m₁ := by
  unfold Machine.step at hstep
  dsimp only at hstep
  split at hstep
  · rename_i hcall
    obtain ⟨m', hadvance, rfl⟩ := Option.map_eq_some_iff.mp hstep
    have hkernel := (enterSyscall_spec hw (canEnter_iff.mp hcall.1).1).1
    have hk := step_of_advance hadvance
    rw [hkernel] at hk
    have hr := (inUserMode_iff.mp (canEnter_iff.mp hcall.1).1).1
    have hword : ∀ {k₁ : Kernel} {value : Nat}, k₁.resuming = none →
        m'.kernel = k₁.returnValue value → m'.kernel.resuming = none ∧ value = t := by
      intro k₁ value hr₁ heq
      have hr' : m'.kernel.resuming = none := by
        rw [heq]
        exact hr₁
      unfold finishCall at hrax
      rw [hr', heq, Kernel.returnedWord_returnValue hr₁] at hrax
      exact ⟨hr', hrax⟩
    rcases Kernel.step_threadCreate hk with ⟨slot, k₁, hspawn, heq⟩ | ⟨k₁, hq, heq⟩
    · obtain ⟨k₀, hq, hslot, rfl⟩ := Kernel.spawnUser_installs hspawn
      obtain ⟨-, rfl⟩ := hword (by rw [Kernel.resuming_install, hq.resuming, hr]) heq
      have hgive : m.enterSyscall.kernel.slotToGive (.threadCreate entry argument tlsBase) =
          some slot := by
        rw [hkernel]
        exact Kernel.slotToGive_of_spawns rfl hslot
      have hne : slot ≠ m.kernel.currentThread := by
        intro heq'
        apply slotToGive_ne_current hw (.threadCreate entry argument tlsBase)
        rw [← heq', ← hkernel]
        exact hgive
      obtain ⟨hthread, hcontext⟩ := Kernel.install_spec
        (Kernel.newThread (k₀.threads slot) none (some userProcessId)
          (Kernel.requested slot entry argument tlsBase) true true)
        (show slot ≠ k₀.currentThread by rw [hq.currentThread]; exact hne)
      have hcur : m'.kernel.currentThread = m.kernel.currentThread := by
        rw [heq]
        exact (Kernel.currentThread_install k₀ slot _).trans hq.currentThread
      have hthread' : m'.kernel.threads slot = Kernel.newThread (k₀.threads slot) none
          (some userProcessId) (Kernel.requested slot entry argument tlsBase) true true := by
        rw [heq]
        exact hthread
      have hsaved := saved_advance_given hadvance hgive
        (by rw [hthread']; exact fun h => nomatch h) (hcur.trans (congrArg _ hkernel).symm)
      have hnot : ¬ m'.Runs slot := fun hruns => hne (hruns.2.symm.trans hcur)
      have hbound : Bound slot
          (.start (Kernel.requested slot entry argument tlsBase).registers) m' := by
        refine ⟨hw.step hk, by rw [hthread']; rfl, fun _ => ?_, fun hruns => absurd hruns hnot⟩
        have hstart : m'.kernel.contextOf slot = some .trampoline := by
          rw [heq]
          exact hcontext
        unfold resumptionOf
        rw [if_pos hstart, hsaved, hthread']
        rfl
      obtain ⟨hfinish, hsame⟩ := m'.finishCall_spec scratch slot
      exact hbound.same hnot hfinish hsame
    · obtain ⟨-, hfailed⟩ := hword (hq.resuming.trans hr) heq
      exact absurd ht (by rw [← hfailed]; decide)
  · cases hstep

/-- A new thread starts at its entry, on its own stack, with its argument and its
thread-local storage, whatever runs before its turn comes, as long as every
syscall is made on a stack in user space. -/
theorem threadStarts {memory : Memory} (h : Reached memory m)
    (hstep : m.step (.call (.threadCreate entry argument tlsBase) scratch) = some m₁)
    (hrax : m₁.registers.rax = t) (ht : t < maxThreads)
    (hrun : Run Machine.step (Away t) m₁ m₂) (hruns : m₂.Runs t) :
    m₂.registers = { UserRegisters.empty with
        rip := entry, rsp := userStackTop t - 8, rdi := argument, fsBase := tlsBase } ∧
      m₂.rsp0 = kernelStackTop t := by
  have hbound := (bound_threadCreate h.kernel.wellFormed hstep hrax ht).run hrun
  have hcalled : Run Machine.step OnUserStack m m₁ :=
    .step _ .refl (fun _ => stackInUserSpace_of_call hstep) hstep
  have hreached : Reached memory m₂ :=
    (h.run (fun _ _ hm => hm) hcalled).run Away.onUserStack hrun
  exact ⟨(hbound.running hruns).1, hbound.rsp0 hreached hruns⟩

set_option maxRecDepth 100000 in
/-- The second thread starts when PID 1 and the idle thread have yielded. -/
theorem threadStarts_second : ∃ m₂ : Machine, m₂.Runs 2 ∧
    m₂.registers = { UserRegisters.empty with
      rip := futureUserSpaceBase, rsp := userStackTop 2 - 8, rdi := 77, fsBase := 0 } ∧
      m₂.rsp0 = kernelStackTop 2 := by
  have hrun : ((Kernel.boot Kernel.plainMemory Kernel.smallImage).bind fun k =>
      exec Machine.step OnUserStack [.proceed someScratch, .run someRegisters]
        (booted k .empty 0)).any fun m =>
      (m.step (.call (.threadCreate futureUserSpaceBase 77 0) someScratch)).any fun m₁ =>
        m₁.registers.rax == 2 &&
          (exec Machine.step (Away 2)
            [.call .yieldNow someScratch, .proceed someScratch, .idle, .proceed someScratch]
            m₁).any fun m₂ => decide (m₂.Runs 2) := by
    decide +kernel
  obtain ⟨m, hm, hrest⟩ := Reached.of_exec hrun
  obtain ⟨m₁, hstep, hrest⟩ := (Option.any_eq_true _ _).mp hrest
  rw [Bool.and_eq_true, beq_iff_eq] at hrest
  obtain ⟨m₂, hexec, hruns⟩ := (Option.any_eq_true _ _).mp hrest.2
  rw [decide_eq_true_iff] at hruns
  exact ⟨m₂, hruns, threadStarts hm hstep hrest.1 (by decide) (run_of_exec hexec) hruns⟩

end Machine

end OpenKernel
