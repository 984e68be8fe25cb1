import OpenKernel.Kernel.Joiners
import OpenKernel.Kernel.Registrations
import OpenKernel.Kernel.Results
import OpenKernel.Kernel.ThreadCreation

/-!
# Turns of the threads

Seen from the threads that do not run, a step of the kernel does one of two
things: it leaves them where they are, or it saves the current thread and
goes to another one.  A new thread appears in the slot that the step gives
away, and nowhere else.
-/

namespace OpenKernel

open Lib

namespace Kernel

section Turns

variable {k k' : Kernel} {a : Action} {t : ThreadId}

/-- What a step does to the places where the threads go on. -/
inductive Handover (k : Kernel) (a : Action) (k' : Kernel) : Prop
  /-- the same thread is current, and its kernel code has run -/
  | stays (hcur : k'.currentThread = k.currentThread) (hr : k'.resuming = none)
      (hcontext : ∀ t, t ≠ k.currentThread → k.slotToGive a ≠ some t →
        k'.contextOf t = k.contextOf t)
  /-- the current thread goes on at `saved` later -/
  | switches (saved : Context) (hsaved : saved ≠ .trampoline) (hr : k'.resuming.isSome)
      (hcontext : ∀ t, k'.contextOf t = if t = k.currentThread then some saved
        else k.contextOf t)

theorem handover_of_dispatched {k₁ : Kernel} {saved : Context} (hd : Dispatched k₁ saved k')
    (hsaved : saved ≠ .trampoline) (hcur : k₁.currentThread = k.currentThread)
    (hcontext : ∀ t, k₁.contextOf t = k.contextOf t) : Handover k a k' := by
  have hall : ∀ t, k'.contextOf t = if t = k.currentThread then some saved
      else k.contextOf t := by
    intro t
    rw [hd.contextOf, hcur, hcontext]
  refine .switches saved hsaved ?_ hall
  have hnext := hd.contextOf k'.currentThread
  rw [contextOf, if_pos rfl] at hnext
  rw [hnext]
  split
  · rfl
  · rename_i hne
    rw [contextOf, if_neg hne]
    rfl

theorem contextOf_markReapable (k : Kernel) (u t : ThreadId) :
    (k.markReapable u).contextOf t = k.contextOf t := by
  unfold markReapable
  split
  · exact k.contextOf_updateThread u rfl t
  · rfl

theorem contextOf_leaveJoin (k : Kernel) (u t : ThreadId) :
    (k.leaveJoin u).contextOf t = { k with resuming := none }.contextOf t := by
  unfold leaveJoin dropJoinWaiter
  rw [contextOf_markReapable]
  split
  · exact contextOf_updateThread _ u rfl t
  · rfl

theorem contextOf_leaveJoin_of_ne (u : ThreadId) (hne : t ≠ k.currentThread) :
    (k.leaveJoin u).contextOf t = k.contextOf t := by
  rw [contextOf_leaveJoin, contextOf_clear, if_neg hne]

theorem resuming_leaveJoin (k : Kernel) (u : ThreadId) : (k.leaveJoin u).resuming = none := by
  unfold leaveJoin
  rw [resuming_markReapable, resuming_dropJoinWaiter]

theorem slotToGive_of_spawns {slot : ThreadId} (hspawns : a.spawns = true)
    (hslot : k.reusableSlot = some slot) : k.slotToGive a = some slot := by
  unfold slotToGive
  rw [if_pos hspawns, hslot]

theorem contextOf_handed {slot : ThreadId} {entry : Option Nat} {process : Option ProcessId}
    {isUser : Bool} (hhanded : k.Handed slot entry process isUser k')
    (hcur : slot ≠ k.currentThread) (hne : t ≠ slot) : k'.contextOf t = k.contextOf t := by
  obtain ⟨k₁, userContext, ownsUserStack, hq, -, rfl⟩ := hhanded
  rw [contextOf_install k₁ _ (by rw [hq.currentThread]; exact hcur), if_neg hne, hq.contextOf]

theorem contextOf_recorded {p : ProcessId} (hrec : k.Recorded p k') :
    k'.contextOf t = k.contextOf t := by
  obtain ⟨k₁, k₂, space, hq, hcreate, hq'⟩ := hrec
  obtain ⟨slot, -, -, -, -, rfl⟩ := createProcess_some hcreate
  rw [hq'.contextOf]
  exact hq.contextOf t

theorem contextOf_setProcessMainThread (k : Kernel) (p : ProcessId) (u t : ThreadId) :
    (k.setProcessMainThread p u).contextOf t = k.contextOf t := by
  unfold setProcessMainThread
  split <;> rfl

/-- The kernel code of a context ends in user mode or in the idle loop. -/
theorem resuming_goOn {c : Context} (h : k.goOn c = some k') : k'.resuming = k.resuming := by
  have hjoin : ∀ u {f : Option Nat → Kernel → Kernel},
      (∀ status k, (f status k).resuming = k.resuming) →
        (k.finishJoin u f).resuming = k.resuming := by
    intro u f hf
    unfold finishJoin
    dsimp only
    split
    · exact hf _ _
    · rw [hf, resuming_markReapable, resuming_dropJoinWaiter]
  cases c with
  | trampoline =>
    unfold goOn startThread at h
    dsimp only at h
    split at h
    · obtain rfl := Option.some.inj h
      rw [enterAddressSpace_eq]
    · split at h
      · obtain rfl := Option.some.inj h
        rfl
      · obtain ⟨-, -, rfl⟩ := Option.map_eq_some_iff.mp h
        rfl
  | yielded | blocked | sleeping due | futexWaiting address due =>
    obtain rfl := Option.some.inj h
    rfl
  | joining u =>
    obtain rfl := Option.some.inj h
    exact hjoin u fun _ _ => rfl
  | waiting p u =>
    obtain rfl := Option.some.inj h
    refine hjoin u fun status k => ?_
    cases status with
    | none => rfl
    | some status => exact resuming_collect k p u status
  | finished => cases h

/-- Only the code that a switch has left runs while there is some. -/
theorem resuming_of_step (hstep : k.step a = some k') (ha : a ≠ .resume) :
    k.resuming = none := by
  unfold step at hstep
  split at hstep
  · rename_i hen
    cases a with
    | resume => exact absurd rfl ha
    | tick | yieldNow | spawn _ | wake _ => exact Option.isNone_iff_eq_none.mp hen
    | _ => exact Option.isNone_iff_eq_none.mp (Bool.and_eq_true_iff.mp hen).1
  · cases hstep

theorem step_resume (hstep : k.step .resume = some k') :
    ∃ c, k.resuming = some c ∧ { k with resuming := none }.goOn c = some k' := by
  unfold step at hstep
  split at hstep
  · exact Option.bind_eq_some_iff.mp hstep
  · cases hstep

theorem handover_yieldNow (hw : k.WellFormed) : Handover k a k.yieldNow := by
  unfold yieldNow
  dsimp only
  rw [if_neg hw.ne_noThread]
  split
  · exact handover_of_dispatched (schedule_spec _ _).1 (by decide) rfl fun _ => rfl
  · have hwoken := woken_enqueue (k.setState k.currentThread .ready) k.currentThread
    refine handover_of_dispatched (schedule_spec _ _).1 (by decide) hwoken.currentThread fun t => ?_
    rw [hwoken.contextOf]
    exact k.contextOf_updateThread _ rfl t

theorem handover_exitCurrent (hw : k.WellFormed) (hidle : k.currentThread ≠ idleThread)
    (status : Nat) : Handover k a (k.exitCurrent status) := by
  unfold exitCurrent
  dsimp only
  rw [if_neg (not_or.mpr ⟨hw.ne_noThread, hidle⟩)]
  generalize hended : (k.updateThread k.currentThread fun t =>
      { t with
        state := .exited
        entry := none
        exitStatus := status
        reapable := !t.isUser }).record (.exited k.currentThread status) = ended
  have hcontext : ∀ t, ended.contextOf t = k.contextOf t := by
    intro t
    rw [← hended]
    exact k.contextOf_updateThread k.currentThread (f := fun t =>
      { t with
        state := .exited
        entry := none
        exitStatus := status
        reapable := !t.isUser }) rfl t
  have hcur : ended.currentThread = k.currentThread := by rw [← hended]; rfl
  have hwoken := woken_wakeJoinWaiters ended k.currentThread
  have hreparent : ∀ k₁ : Kernel,
      (k₁.reparentChildrenOfExitedProcess k.currentThread).currentThread =
        k₁.currentThread ∧
      ∀ t, (k₁.reparentChildrenOfExitedProcess k.currentThread).contextOf t =
        k₁.contextOf t := by
    intro k₁
    unfold reparentChildrenOfExitedProcess
    split
    · exact ⟨rfl, fun _ => rfl⟩
    · rename_i slot _
      obtain ⟨log, heq, -⟩ := k₁.reparentChildren_spec (k₁.processes slot).id k.currentThread
      rw [heq]
      exact ⟨rfl, fun _ => rfl⟩
  refine handover_of_dispatched (schedule_spec _ _).1 (by decide) ?_ fun t => ?_
  · rw [(hreparent _).1, hwoken.currentThread, hcur]
  · rw [(hreparent _).2, hwoken.contextOf, hcontext]

theorem handover_blocked {c : Context} {k₁ : Kernel} (hw : k.WellFormed)
    (hidle : k.currentThread ≠ idleThread) (hreg : k.Registers a c k₁) :
    Handover k a (k₁.blockCurrent c) := by
  have hcur : k₁.currentThread = k.currentThread := by cases hreg <;> rfl
  have hsaved : c ≠ .trampoline := by cases hreg <;> exact fun heq => nomatch heq
  obtain ⟨-, hcontext, -⟩ := hreg.frame
  unfold blockCurrent
  dsimp only
  rw [hcur, if_neg (not_or.mpr ⟨hw.ne_noThread, hidle⟩)]
  refine handover_of_dispatched (schedule_spec _ _).1 hsaved hcur fun t => ?_
  exact (k₁.contextOf_updateThread k.currentThread
    (f := fun t => { t with state := .blocked }) rfl t).trans (hcontext t)

theorem step_handover (hw : k.WellFormed) (hstep : k.step a = some k') : Handover k a k' := by
  have hkept : ∀ {slot}, k.reusableSlot = some slot → slot ≠ k.currentThread := by
    intro slot hslot heq
    obtain ⟨hpos, -, -, hreap⟩ := reusableSlot_some hslot
    rw [heq] at hpos hreap
    rw [hw.current_kept (Nat.one_le_iff_ne_zero.mp hpos)] at hreap
    cases hreap
  cases step_effect hw.idle.1 hstep with
  | quiet hq =>
    refine .stays hq.currentThread ?_ fun t _ _ => hq.contextOf t
    by_cases ha : a = .resume
    · subst ha
      obtain ⟨c, -, hgo⟩ := step_resume hstep
      exact resuming_goOn hgo
    · exact hq.resuming.trans (resuming_of_step hstep ha)
  | woken hr hwakes hq =>
    exact .stays (hq.currentThread.trans hwakes.woken.currentThread)
      ((hq.resuming.trans hwakes.woken.resuming).trans hr) fun t _ _ =>
        (hq.contextOf t).trans (hwakes.woken.contextOf t)
  | resumed hr hlive hq =>
    refine .stays hq.currentThread hq.resuming fun t hne _ => ?_
    rw [hq.contextOf, contextOf_clear, if_neg hne]
  | @joined u _ hr hexited hq =>
    have hleave := k.stays_leaveJoin u
    refine .stays (hq.currentThread.trans hleave.currentThread)
      (hq.resuming.trans (resuming_leaveJoin k u)) fun t hne _ => ?_
    rw [hq.contextOf, contextOf_leaveJoin_of_ne u hne]
  | @waited p u _ hr hexited hq =>
    have hleave := (k.stays_leaveJoin u).trans (stays_collect _ p u (k.threads u).exitStatus)
    refine .stays (hq.currentThread.trans hleave.currentThread) ?_ fun t hne _ => ?_
    · rw [hq.resuming, resuming_collect, resuming_leaveJoin]
    · rw [hq.contextOf, contextOf_collect, contextOf_leaveJoin_of_ne u hne]
  | yielded hr => exact handover_yieldNow hw
  | exited status hr hidle => exact handover_exitCurrent hw hidle status
  | blocked hr hidle hreg => exact handover_blocked hw hidle hreg
  | @reaped _ u _ hr hlt hne hexited hq =>
    refine .stays (hq.currentThread.trans (k.stays_markReapable u).currentThread) ?_
      fun t _ _ => (hq.contextOf t).trans (contextOf_markReapable k u t)
    rw [hq.resuming, resuming_markReapable, hr]
  | @collected _ p u _ _ hr hchild hlt hne hexited hq =>
    have hstays := (k.stays_markReapable u).trans (stays_collect _ p u (k.threads u).exitStatus)
    refine .stays (hq.currentThread.trans hstays.currentThread) ?_ fun t _ _ => ?_
    · rw [hq.resuming, resuming_collect, resuming_markReapable, hr]
    · rw [hq.contextOf, contextOf_collect, contextOf_markReapable]
  | @terminated p u _ _ hr hchild hlookup hlive hq =>
    have hwoken := woken_wakeJoinWaiters (k.endThread p u) u
    refine .stays (hq.currentThread.trans hwoken.currentThread)
      ((hq.resuming.trans hwoken.resuming).trans hr) fun t _ _ => ?_
    rw [hq.contextOf, hwoken.contextOf]
    unfold endThread
    exact k.contextOf_updateThread u (f := fun t =>
      { t with state := .exited, entry := none, exitStatus := terminatedStatus }) rfl t
  | @handed _ slot _ _ _ _ _ hr hspawns hkind hprocess hhanded hq =>
    have hslot := hhanded.reusableSlot
    refine .stays (hq.currentThread.trans (currentThread_of_handed hhanded)) ?_
      fun t _ hgiven => ?_
    · rw [hq.resuming, Handed.resuming hhanded, hr]
    · have hne : t ≠ slot := fun heq => hgiven (by
      rw [heq, slotToGive_of_spawns hspawns hslot])
      rw [hq.contextOf, contextOf_handed hhanded (hkept hslot) hne]
  | recorded hr huser hrec =>
    exact .stays (currentThread_of_recorded hrec) (hrec.spec.2.trans hr)
      fun t _ _ => contextOf_recorded hrec
  | @spawned _ _ _ p slot _ _ _ hr huser hrec hhanded hq =>
    have hslot : k.reusableSlot = some slot := hrec.reusableSlot ▸ hhanded.reusableSlot
    have hsame := currentThread_of_recorded hrec
    refine .stays (hq.currentThread.trans ((currentThread_of_setMain _ _ _).trans
      ((currentThread_of_handed hhanded).trans hsame))) ?_ fun t _ hgiven => ?_
    · rw [hq.resuming, resuming_setProcessMainThread, Handed.resuming hhanded,
        hrec.spec.2, hr]
    · have hne : t ≠ slot := fun heq => hgiven (by rw [heq, slotToGive_of_spawns rfl hslot])
      rw [hq.contextOf, contextOf_setProcessMainThread,
        contextOf_handed hhanded (by rw [hsame]; exact hkept hslot) hne,
        contextOf_recorded hrec]

/-- The code that a switch has left runs to its end. -/
theorem step_resume_stays (hw : k.WellFormed) (hstep : k.step .resume = some k') :
    k'.resuming = none ∧ k'.currentThread = k.currentThread := by
  obtain ⟨c, -, hgo⟩ := step_resume hstep
  have hr := resuming_goOn hgo
  cases step_handover hw hstep with
  | stays hcur => exact ⟨hr, hcur⟩
  | switches _ _ hsome =>
    rw [hr] at hsome
    cases hsome

end Turns

end Kernel

end OpenKernel
