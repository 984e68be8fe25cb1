import OpenKernel.Kernel.Lifetimes
import OpenKernel.Kernel.Results

/-!
# The lifetime of processes and of their address spaces

`wait_process` looks its pid up again when it goes on, so it can find another
process than the one that it has waited for.  In a run in which this does not
happen every thread that can run belongs to a process that has a record, and
it runs in the address space of this record (`lifetimeSafe`).
-/

namespace OpenKernel.Kernel

open Lib

/-! ## Runs without mistaken waits -/

instance (w : ThreadId) (p : ProcessId) (t : ThreadId) (log : List Event) :
    Decidable (Awaits w p t log) :=
  inferInstanceAs (Decidable (Since (· = Event.blocked w (.waiting p t)) (fun e => e.creates p) log))

/-- The action is a syscall with short texts or an interrupt. -/
def ShortSyscalls (_ : Kernel) (a : Action) : Prop :=
  a.isInternal = false ∧ a.ShortTexts

/-- A `wait_process` that goes on finds under its pid the process that it has
waited for, or none. -/
def FindsAwaited (k : Kernel) : Context → Prop
  | .waiting p t => (k.threads t).state = .exited → (k.findRecord (·.id == p)).isSome →
      Awaits k.currentThread p t k.log
  | _ => True

def CollectsAwaited (k : Kernel) (a : Action) : Prop :=
  k.ShortSyscalls a ∧ ∀ c ∈ k.resuming, k.FindsAwaited c

instance (k : Kernel) (a : Action) : Decidable (k.ShortSyscalls a) :=
  inferInstanceAs (Decidable (_ ∧ _))

instance (k : Kernel) (c : Context) : Decidable (k.FindsAwaited c) := by
  cases c <;> unfold FindsAwaited <;> infer_instance

instance (k : Kernel) (a : Action) : Decidable (k.CollectsAwaited a) :=
  inferInstanceAs (Decidable (_ ∧ _))

section Collections

variable {k k' : Kernel} {p : ProcessId} {t : ThreadId}

/-- A collection clears no record but that of its pid. -/
theorem collect_ids (k : Kernel) (p : ProcessId) (t : ThreadId) (status slot : Nat) :
    ((k.collect p t status).processes slot).id = (k.processes slot).id ∨
      (k.processes slot).id = p := by
  unfold collect
  dsimp only
  split
  · exact .inl rfl
  · rename_i i hfind
    have hid := beq_iff_eq.mp (findRecord_some hfind).2
    by_cases hslot : slot = i
    · rw [hslot]
      exact .inr hid
    · exact .inl (congrArg Process.id (put_other hslot))

/-- A collection blocks no thread. -/
theorem inWait_collect {status : Nat} {w : ThreadId} {q : ProcessId} {u : ThreadId}
    (h : InWait w q u (k.collect p t status).log) : InWait w q u k.log := by
  have hcollected : InWait w q u (.collected k.currentThread p t status :: k.log) →
      InWait w q u k.log :=
    fun h => h.calm (Extends.refl.cons trivial)
  rcases k.log_collect p t status with heq | ⟨slot, -, heq⟩
  · rw [heq] at h
    exact hcollected h
  · rw [heq] at h
    rcases h with heq | ⟨-, h⟩
    · cases heq
    · exact hcollected h

theorem Waiting.collect (h : k.Waiting) (p : ProcessId) (t : ThreadId) (status : Nat) :
    (k.collect p t status).Waiting := by
  intro w q u hwait
  rw [contextOf_collect]
  exact h w q u (inWait_collect hwait)

theorem leaveJoin_fields (k : Kernel) (t : ThreadId) :
    (k.leaveJoin t).currentThread = k.currentThread ∧
      (k.leaveJoin t).processes = k.processes := by
  refine ⟨?_, (k.sameEnds_leaveJoin t).processes⟩
  have hstays : Stays { k with resuming := none } (k.leaveJoin t) :=
    (stays_dropJoinWaiter _ t).trans (stays_markReapable _ t)
  exact hstays.currentThread

/-- The process that a wait finds is led by the thread that it has joined. -/
theorem Lifetimes.found (h : k.Lifetimes) (hr : k.Records) {slot : Nat}
    (hslot : slot < maxProcesses) (hresuming : k.resuming = some (.waiting (slot + 1) t))
    (hexited : (k.threads t).state = .exited)
    (hguard : ∀ c ∈ k.resuming, k.FindsAwaited c) (hused : (k.processes slot).id ≠ noThread) :
    Awaits k.currentThread (slot + 1) t k.log ∧ (k.processes slot).mainThread = some t := by
  have hid : (k.processes slot).id = slot + 1 :=
    (hr.shape slot hslot).resolve_left fun hempty => hused (congrArg Process.id hempty)
  have hfind := hr.findRecord_pid hslot hused
  rw [hid] at hfind
  have hfinds : k.FindsAwaited (.waiting (slot + 1) t) := hguard _ hresuming
  have hawaits := hfinds hexited (by rw [hfind]; rfl)
  refine ⟨hawaits, h.awaited k.currentThread slot t ?_ hawaits hused⟩
  rw [contextOf, if_pos rfl, hresuming]

end Collections

/-! ## Steps -/

section Steps

variable {boot : Nat} {base : Memory} {live : List Nat} {k k' : Kernel} {a : Action}

/-- A wait that goes on takes the status of its thread. -/
theorem Lifetimes.waited (h : k.Lifetimes) (hw : k.WellFormed)
    (hnames : NamesSpaces live k.processes) (hguard : ∀ c ∈ k.resuming, k.FindsAwaited c)
    {p : ProcessId} {t : ThreadId} (hr : k.resuming = some (.waiting p t))
    (hexited : (k.threads t).state = .exited) (status : Nat) :
    ((k.leaveJoin t).collect p t status).Lifetimes := by
  have hcontext : k.contextOf k.currentThread = some (.waiting p t) := by
    rw [contextOf, if_pos rfl, hr]
  obtain ⟨slot, -, hslot, rfl⟩ := hw.waits _ _ _ hcontext
  obtain ⟨hcurrent, hprocesses⟩ := k.leaveJoin_fields t
  have hfound := h.found hw.toRecords hslot hr hexited hguard
  have hrecords := (hw.leaveJoin hr rfl hexited).toRecords
  refine (h.leaveJoin t).collect hrecords (by rw [hprocesses]; exact hnames) hslot ?_ ?_ status
  · rw [hprocesses]
    exact fun hused => (hfound hused).2
  · rw [hprocesses, hcurrent, log_leaveJoin]
    exact fun hused _ => (hfound hused).1

/-- A call that collects an exited child without blocking. -/
theorem Lifetimes.collected (h : k.Lifetimes) (hwaiting : k.Waiting) (hw : k.WellFormed)
    (hnames : NamesSpaces live k.processes) {p : ProcessId} {t : ThreadId} {slot : Nat}
    (hr : k.resuming = none) (hchild : k.Child p t slot) (hlt : t < maxThreads)
    (hne : t ≠ k.currentThread) (hexited : (k.threads t).state = .exited) (status : Nat) :
    ((k.markReapable t).collect p t status).Lifetimes := by
  obtain ⟨-, rfl⟩ := hw.child_ne hchild
  have hprocesses := (k.sameEnds_markReapable t).processes
  have hrecords := (hw.markReapable hlt hne hexited).toRecords
  have hcurrent := (k.stays_markReapable t).currentThread
  refine (h.markReapable t).collect hrecords (by rw [hprocesses]; exact hnames) hchild.slot_lt
    ?_ ?_ status
  · rw [hprocesses]
    exact fun _ => hchild.main_eq
  · rw [hcurrent, log_markReapable]
    intro _ hwait
    have hcontext := hwaiting _ _ _ hwait
    rw [contextOf, if_pos rfl, hr] at hcontext
    cases hcontext

/-- A new thread of a process whose record has no other main thread. -/
theorem Lifetimes.handed (h : k.Lifetimes) (hr : k.resuming = none) {slot : ThreadId}
    {entry : Option Nat} {process : Option ProcessId} {isUser : Bool}
    (huser : ∀ p, process = some p → isUser = true)
    (hmain : ∀ i, process = some (i + 1) → (k.processes i).mainThread = none)
    (hhanded : k.Handed slot entry process isUser k') : k'.Lifetimes := by
  obtain ⟨k₁, userContext, ownsUserStack, hq, -, rfl⟩ := hhanded
  have hr₁ : k₁.resuming = none := hq.resuming.trans hr
  refine Lifetimes.woken ((h.quiet hq).hand hr₁ rfl huser fun i u hp hu => ?_)
    (woken_enqueue _ slot)
  rw [hq.processes, hmain i hp] at hu
  cases hu

theorem Waiting.handed (h : k.Waiting) (hr : k.resuming = none) {slot : ThreadId}
    {entry : Option Nat} {process : Option ProcessId} {isUser : Bool}
    (hhanded : k.Handed slot entry process isUser k') : k'.Waiting := by
  obtain ⟨k₁, userContext, ownsUserStack, hq, -, rfl⟩ := hhanded
  have hr₁ : k₁.resuming = none := hq.resuming.trans hr
  have hhand : (k₁.hand slot (newThread (k₁.threads slot) entry process userContext isUser
      ownsUserStack)).Waiting := (h.tidy (tidy_quiet hq)).hand hr₁ rfl
  exact hhand.tidy (tidy_woken (woken_enqueue _ slot))

theorem Lifetimes.recorded (h : k.Lifetimes) {p : ProcessId} (hrec : k.Recorded p k') :
    k'.Lifetimes := by
  obtain ⟨k₁, k₂, space, hq, hcreate, hq'⟩ := hrec
  obtain ⟨slot, -, -, rfl, -, rfl⟩ := createProcess_some hcreate
  exact Lifetimes.quiet ((h.quiet hq).create slot space) hq'

theorem Waiting.recorded (h : k.Waiting) {p : ProcessId} (hrec : k.Recorded p k') :
    k'.Waiting := by
  obtain ⟨k₁, k₂, space, hq, hcreate, hq'⟩ := hrec
  obtain ⟨slot, -, -, rfl, -, rfl⟩ := createProcess_some hcreate
  have hcreated : (k₁.create slot space).Waiting := by
    intro w q u hwait
    rcases hwait with heq | ⟨-, hbefore⟩
    · cases heq
    · exact h.tidy (tidy_quiet hq) w q u hbefore
  exact Waiting.tidy hcreated (tidy_quiet hq')

theorem Waiting.setMain (h : k.Waiting) (p : ProcessId) (t : ThreadId) :
    (k.setProcessMainThread p t).Waiting := by
  unfold setProcessMainThread
  split
  · exact h
  · intro w q u hwait
    rcases hwait with heq | ⟨-, hbefore⟩
    · cases heq
    · exact h w q u hbefore

/-- A spawn leaves the other threads with their processes, and none of them
comes back. -/
theorem Handed.other {slot : ThreadId} {entry : Option Nat} {process : Option ProcessId}
    {isUser : Bool} (h : k.Handed slot entry process isUser k') {u : ThreadId} (hu : u ≠ slot) :
    (k'.threads u).process = (k.threads u).process ∧ (k'.Active u → k.Active u) := by
  obtain ⟨k₁, userContext, ownsUserStack, hq, -, rfl⟩ := h
  have hbefore := steady_quiet hq
  have hafter := steady_woken (woken_enqueue (k₁.hand slot (newThread (k₁.threads slot) entry
    process userContext isUser ownsUserStack)) slot)
  have hsame : ∀ thread, (k₁.hand slot thread).threads u = k₁.threads u :=
    fun thread => put_other hu
  refine ⟨?_, fun hactive => hbefore.active u ?_⟩
  · rw [← hbefore.process, ← hsame]
    exact hafter.process u
  · rcases hafter.active u hactive with heq | hlive
    · exact .inl heq
    · rw [hsame] at hlive
      exact .inr hlive

theorem Recorded.other {p : ProcessId} (h : k.Recorded p k') (u : ThreadId) :
    (k'.threads u).process = (k.threads u).process ∧ (k'.Active u → k.Active u) := by
  obtain ⟨k₁, k₂, space, hq, hcreate, hq'⟩ := h
  obtain ⟨slot, -, -, rfl, -, rfl⟩ := createProcess_some hcreate
  have hbefore := steady_quiet hq
  have hafter := steady_quiet hq'
  exact ⟨(hafter.process u).trans (hbefore.process u),
    fun hactive => hbefore.active u (hafter.active u hactive)⟩

/-- The new thread of a new process becomes its main thread. -/
theorem Lifetimes.spawned (h : k.Lifetimes) (hw : k.WellFormed) (hsettled : k.Settled)
    (hr : k.resuming = none) {p : ProcessId} {slot : ThreadId} {k₁ k₂ : Kernel}
    (hrec : k.Recorded p k₁) (hhanded : k₁.Handed slot none (some p) true k₂) :
    (k₂.setProcessMainThread p slot).Lifetimes := by
  obtain ⟨i, hpos, hi, rfl, hfree, space, hprocesses⟩ := hrec.slot
  have hself : (k₁.processes i).mainThread = none := by
    rw [hprocesses, put_same]
  have hr₁ : k₁.resuming = none := hrec.spec.2.trans hr
  have hk₂ : k₂.Lifetimes := by
    refine (h.recorded hrec).handed hr₁ (fun _ _ => rfl) (fun j hj => ?_) hhanded
    obtain rfl := Nat.succ.inj (Option.some.inj hj)
    exact hself
  obtain ⟨k₃, hq, -, -, -, hrecords⟩ := hhanded.threads
  have hsame : k₂.processes = k₁.processes := hrecords.trans hq.processes
  refine hk₂.setMain (fun j hj hid => ?_) (by rw [hsame, hself]) fun u hu hactive => ?_
  · rw [hsame] at hid
    rcases (hw.recorded hrec).shape j hj with hempty | hpid
    · rw [hempty] at hid
      exact absurd hid.symm (pid_ne_noThread hi)
    · exact Nat.succ.inj (hpid.symm.trans hid)
  · by_contra hne
    obtain ⟨hprocess, hback⟩ := hhanded.other hne
    obtain ⟨hprocess', hback'⟩ := hrec.other u
    rw [hprocess, hprocess'] at hu
    exact not_hasRecord_of_free hi hfree (hsettled u _ hu (hback' (hback hactive))).1

theorem Lifetimes.step (h : k.Lifetimes) (hwaiting : k.Waiting) (hsettled : k.Settled)
    (hnames : NamesSpaces live k.processes) (hw : k.WellFormed) (hguard : k.CollectsAwaited a)
    (hstep : k.step a = some k') : k'.Lifetimes := by
  obtain ⟨⟨hsyscall, -⟩, hfinds⟩ := hguard
  cases step_effect hw.idle.1 hstep with
  | quiet hq => exact h.quiet hq
  | woken hr hwakes hq => exact (h.woken hwakes.woken).quiet hq
  | resumed hr hlive hq => exact h.clear.quiet hq
  | joined hr hexited hq => exact (h.leaveJoin _).quiet hq
  | waited hr hexited hq => exact (h.waited hw hnames hfinds hr hexited _).quiet hq
  | yielded hr => exact h.keep k.sameHomes_yieldNow (steady_yieldNow hw) (tidy_yieldNow hr)
  | exited status hr hidle =>
    exact h.keep (k.sameHomes_exitCurrent status) (steady_exitCurrent hw hidle status)
      (tidy_exitCurrent hr status)
  | blocked hr hidle hreg => exact h.blocked hw hreg hidle
  | reaped hr hlt hne hexited hq => exact (h.markReapable _).quiet hq
  | collected hr hchild hlt hne hexited hq =>
    exact (h.collected hwaiting hw hnames hr hchild hlt hne hexited _).quiet hq
  | @terminated p t _ _ hr hchild hlookup hlive hq =>
    have hended := h.keep (k.sameHomes_endThread p t) (k.steady_endThread p t)
      (k.tidy_endThread p t)
    exact (hended.woken (woken_wakeJoinWaiters _ t)).quiet hq
  | handed hr hspawns hkind hprocess hhanded hq =>
    rw [hsyscall] at hkind
    rw [hkind] at hprocess
    refine (h.handed hr (fun _ _ => hkind) (fun i hi => ?_) hhanded).quiet hq
    rw [hprocess] at hi
    obtain rfl : 0 = i := Nat.succ.inj (Option.some.inj hi)
    exact hw.first.2.2
  | recorded hr huser hrec => exact h.recorded hrec
  | spawned hr huser hrec hhanded hq =>
    exact (h.spawned hw hsettled hr hrec hhanded).quiet hq

theorem Waiting.step (h : k.Waiting) (hw : k.WellFormed) (hstep : k.step a = some k') :
    k'.Waiting := by
  -- What a thread that goes on leaves of the waits of the others.
  have hresume : a = .resume → ∀ {c : Context}, k.resuming = some c →
      (∀ w p t, InWait w p t k'.log → InWait w p t k.log) →
      (∀ w p t, { k with resuming := none }.contextOf w = some (.waiting p t) →
        k'.contextOf w = some (.waiting p t)) → k'.Waiting := by
    intro ha c hr hlog hcontext
    refine h.resume hr (fun w p t hw hc => hcontext w p t ?_) hlog fun p t hc => ?_
    · rw [contextOf_clear, if_neg hw]
      exact hc
    · rw [hc] at hr
      rw [ha] at hstep
      exact resume_waiting hr hstep
  cases step_effect hw.idle.1 hstep with
  | quiet hq => exact h.tidy (tidy_quiet hq)
  | woken hr hwakes hq => exact h.tidy ((tidy_woken hwakes.woken).trans (tidy_quiet hq))
  | resumed hr hlive hq =>
    have htidy := tidy_quiet hq
    exact hresume rfl hr (fun w p t hwait => hwait.calm htidy.log)
      fun w p t hc => (htidy.waits w p t).mpr hc
  | @joined t _ hr hexited hq =>
    have htidy := (k.tidy_leaveJoin t).trans (tidy_quiet hq)
    exact hresume rfl hr (fun w p t hwait => hwait.calm htidy.log)
      fun w p t hc => (htidy.waits w p t).mpr hc
  | @waited p t _ hr hexited hq =>
    have hleft := k.tidy_leaveJoin t
    have hquiet := tidy_quiet hq
    refine hresume rfl hr (fun w q u hwait => ?_) fun w q u hc => ?_
    · exact (inWait_collect (hwait.calm hquiet.log)).calm hleft.log
    · rw [hquiet.waits, contextOf_collect]
      exact (hleft.waits w q u).mpr hc
  | yielded hr => exact h.tidy (tidy_yieldNow hr)
  | exited status hr hidle => exact h.tidy (tidy_exitCurrent hr status)
  | blocked hr hidle hreg => exact h.blocked hw hr hreg hidle
  | reaped hr hlt hne hexited hq =>
    exact h.tidy ((k.tidy_markReapable _).trans (tidy_quiet hq))
  | @collected _ p t _ _ hr hchild hlt hne hexited hq =>
    exact ((h.tidy (k.tidy_markReapable t)).collect p t _).tidy (tidy_quiet hq)
  | @terminated p t _ _ hr hchild hlookup hlive hq =>
    have hwoken := tidy_woken (woken_wakeJoinWaiters (k.endThread p t) t)
    exact h.tidy (((k.tidy_endThread p t).trans hwoken).trans (tidy_quiet hq))
  | handed hr hspawns hkind hprocess hhanded hq =>
    exact (h.handed hr hhanded).tidy (tidy_quiet hq)
  | recorded hr huser hrec => exact h.recorded hrec
  | spawned hr huser hrec hhanded hq =>
    have hhand := (h.recorded hrec).handed (hrec.spec.2.trans hr) hhanded
    exact (hhand.setMain _ _).tidy (tidy_quiet hq)

/-! ## What a step collects -/

/-- A step collects only processes whose main thread has ended, and its caller
belongs to a process itself. -/
theorem Lifetimes.clears (h : k.Lifetimes) (hw : k.WellFormed) (hguard : k.CollectsAwaited a)
    {slot : Nat} (hslot : slot < maxProcesses) (hclears : k.Clears a slot) :
    (∃ t, (k.processes slot).mainThread = some t ∧ ¬ k.Active t) ∧
      ((k.threads k.currentThread).process).isSome := by
  obtain ⟨hused, k', hstep, hfree⟩ := hclears
  have hsame : (k'.processes slot).id = (k.processes slot).id → False := by
    intro heq
    exact hused (heq.symm.trans hfree)
  have hkept : SameHomes k k' → False := fun hh => hsame (hh.id slot)
  have hother : ∀ i, (k.processes i).id = noThread → slot ≠ i := by
    intro i hnone heq
    rw [heq] at hused
    exact hused hnone
  have hid : (k.processes slot).id = slot + 1 :=
    (hw.shape slot hslot).resolve_left fun hempty => hused (congrArg Process.id hempty)
  have hinactive : ∀ {t : ThreadId}, (k.threads t).state = .exited → t ≠ k.currentThread →
      ¬ k.Active t := by
    intro t hexited hne hactive
    exact hactive.elim hne fun hlive => hlive hexited
  -- The process that a collection has cleared is the one that it was for.
  have hcollect : ∀ {k₁ : Kernel} {p : ProcessId} {t : ThreadId} {status : Nat},
      k₁.processes = k.processes → Quiet (k₁.collect p t status) k' → p = slot + 1 := by
    intro k₁ p t status hprocesses hq
    rcases k₁.collect_ids p t status slot with heq | heq
    · rw [hprocesses] at heq
      exact (hsame ((congrArg (fun r => (r slot).id) hq.processes).trans heq)).elim
    · rw [hprocesses, hid] at heq
      exact heq.symm
  cases step_effect hw.idle.1 hstep with
  | quiet hq => exact (hkept (sameHomes_quiet hq)).elim
  | woken hr hwakes hq =>
    exact (hkept ((sameHomes_woken hwakes.woken).trans (sameHomes_quiet hq))).elim
  | resumed hr hlive hq =>
    exact (hkept ((k.sameHomes_clear none).trans (sameHomes_quiet hq))).elim
  | joined hr hexited hq =>
    exact (hkept ((k.sameHomes_leaveJoin _).trans (sameHomes_quiet hq))).elim
  | @waited p t _ hr hexited hq =>
    obtain rfl := hcollect (k.leaveJoin_fields t).2 hq
    have hcontext : k.contextOf k.currentThread = some (.waiting (slot + 1) t) := by
      rw [contextOf, if_pos rfl, hr]
    have hmain := (h.found hw.toRecords hslot hr hexited hguard.2 hused).2
    have hne := (hw.joins _ _ t hcontext rfl).1
    exact ⟨⟨t, hmain, hinactive hexited hne⟩, h.caller _ _ t hcontext⟩
  | yielded hr => exact (hkept k.sameHomes_yieldNow).elim
  | exited status hr hidle => exact (hkept (k.sameHomes_exitCurrent status)).elim
  | blocked hr hidle hreg =>
    exact (hkept ((sameHomes_registers hreg).trans (sameHomes_blockCurrent _ _))).elim
  | reaped hr hlt hne hexited hq =>
    exact (hkept ((k.sameHomes_markReapable _).trans (sameHomes_quiet hq))).elim
  | @collected _ p t i _ hr hchild hlt hne hexited hq =>
    obtain ⟨-, hpid⟩ := hw.child_ne hchild
    obtain rfl := hcollect (k.sameEnds_markReapable t).processes hq
    obtain rfl := Nat.succ.inj hpid
    exact ⟨⟨t, hchild.main_eq, hinactive hexited hne⟩, hchild.caller⟩
  | @terminated p t _ _ hr hchild hlookup hlive hq =>
    have hwoken := (k.sameHomes_endThread p t).trans (sameHomes_woken (woken_wakeJoinWaiters _ t))
    exact (hkept (hwoken.trans (sameHomes_quiet hq))).elim
  | handed hr hspawns hkind hprocess hhanded hq =>
    obtain ⟨k₁, hq₁, -, -, -, hprocesses⟩ := hhanded.threads
    refine (hsame ?_).elim
    rw [hq.processes, hprocesses, hq₁.processes]
  | recorded hr huser hrec =>
    refine (hsame ?_).elim
    obtain ⟨i, -, hi, rfl, hnone, space, hprocesses⟩ := hrec.slot
    rw [hprocesses, put_other (hother i hnone)]
  | spawned hr huser hrec hhanded hq =>
    refine (hsame ?_).elim
    obtain ⟨i, -, hi, rfl, hnone, space, hprocesses⟩ := hrec.slot
    obtain ⟨k₁, hq₁, -, -, -, hhands⟩ := hhanded.threads
    rw [hq.processes, (sameHomes_setMain _ _ _).id, hhands, hq₁.processes, hprocesses,
      put_other (hother i hnone)]

end Steps

/-! ## Runs -/

/-- The invariant of runs without mistaken waits. -/
structure Tended (boot : Nat) (base : Memory) (k : Kernel) : Prop where
  settled : k.Settled
  home : ∀ p, k.Home p
  housed : k.Housed (.plain boot base)
  lifetimes : k.Lifetimes
  waiting : k.Waiting

section Tended

variable {boot : Nat} {base : Memory} {k k' : Kernel} {a : Action}

theorem Tended.spaces (h : k.Tended boot base) : ∃ live,
    InSpace (.plain boot base) live k.memory ∧ NamesSpaces live k.processes := by
  obtain ⟨live, hm, hnames⟩ := h.housed
  exact ⟨live, hm, hnames trivial⟩

/-- The space of the process that the current thread belongs to. -/
theorem Tended.current (h : k.Tended boot base) (hw : k.WellFormed)
    (huser : (k.threads k.currentThread).isUser = true) :
    ∃ slot < maxProcesses, (k.threads k.currentThread).process = some (slot + 1) ∧
      (k.processes slot).id = slot + 1 ∧
      (k.processes slot).addressSpace = k.memory.activeAddressSpace := by
  obtain ⟨slot, hslot, hprocess⟩ := hw.userProcess _ huser
  obtain ⟨hrecord, -⟩ := h.settled _ _ hprocess (.inl rfl)
  have hid : (k.processes slot).id = slot + 1 := by
    obtain ⟨i, -, hpid, hid⟩ := hrecord
    obtain rfl := Nat.succ.inj hpid
    exact hid
  have hused : (k.processes slot).id ≠ noThread := by
    rw [hid]
    exact pid_ne_noThread hslot
  refine ⟨slot, hslot, hprocess, hid, ?_⟩
  obtain ⟨live, hm, hnames⟩ := h.spaces
  have hspace := h.home _ huser hprocess hrecord
  have htarget := hm.spaces.target_eq (hnames.live slot hslot hused)
  exact htarget.symm.trans hspace.symm

/-- No thread of a process that a step collects can run. -/
theorem Tended.quiescent (h : k.Tended boot base) (hw : k.WellFormed)
    (hguard : k.CollectsAwaited a) {slot : Nat} (hslot : slot < maxProcesses)
    (hclears : k.Clears a slot) : k.Quiescent (slot + 1) := by
  obtain ⟨⟨t, hmain, hidle⟩, -⟩ := h.lifetimes.clears hw hguard hslot hclears
  intro u _ hprocess hactive
  obtain rfl := h.lifetimes.main u slot hprocess hactive t hmain
  exact hidle hactive

/-- A step does not collect the process that it runs in. -/
theorem Tended.spare (h : k.Tended boot base) (hw : k.WellFormed)
    (hguard : k.CollectsAwaited a) {slot : Nat} (hslot : slot < maxProcesses)
    (hclears : k.Clears a slot) :
    (k.processes slot).addressSpace ≠ k.memory.activeAddressSpace := by
  obtain ⟨⟨t, hmain, hidle⟩, hcaller⟩ := h.lifetimes.clears hw hguard hslot hclears
  obtain ⟨p, hp⟩ := Option.isSome_iff_exists.mp hcaller
  obtain ⟨i, hi, hprocess, hid, hspace⟩ := h.current hw (h.lifetimes.user _ p hp)
  intro heq
  obtain ⟨live, -, hnames⟩ := h.spaces
  have hused : (k.processes i).id ≠ noThread := by
    rw [hid]
    exact pid_ne_noThread hi
  obtain rfl := hnames.distinct slot hslot i hi hclears.1 hused (heq.trans hspace.symm)
  obtain rfl := h.lifetimes.main _ slot hprocess (.inl rfl) t hmain
  exact hidle (.inl rfl)

theorem Tended.step (h : k.Tended boot base) (hw : k.WellFormed)
    (hguard : k.CollectsAwaited a) (hstep : k.step a = some k') : k'.Tended boot base where
  settled := h.settled.step hw (fun _ hslot hclears => h.quiescent hw hguard hslot hclears) hstep
  home p := (h.home p).step hw (fun hp => (h.settled _ p hp (.inl rfl)).1) hstep
  housed := h.housed.step trivial hw hguard.1.2
    (fun _ hslot hclears => h.spare hw hguard hslot hclears) hstep
  lifetimes := by
    obtain ⟨live, -, hnames⟩ := h.spaces
    exact h.lifetimes.step h.waiting h.settled hnames hw hguard hstep
  waiting := h.waiting.step hw hstep

end Tended

section Boot

variable {k : Kernel}

theorem Booted.mainThread (h : k.Booted) (slot : Nat) : (k.processes slot).mainThread = none := by
  obtain ⟨space, before, between, hprocesses, -, -, -⟩ := h.records
  rw [hprocesses, put_apply]
  split <;> rfl

theorem Booted.not_waiting (h : k.Booted) (w : ThreadId) (p : ProcessId) (t : ThreadId) :
    k.contextOf w ≠ some (.waiting p t) := by
  rw [h.contextOf]
  intro heq
  cases heq

theorem Booted.lifetimes (h : k.Booted) : k.Lifetimes where
  user t p hp := by
    obtain ⟨userContext, hfirst⟩ := h.first
    rcases slot_cases t with rfl | rfl | hge
    · rw [h.idle_field Thread.process fun _ => rfl] at hp
      cases hp
    · exact congrArg Thread.isUser hfirst
    · rw [h.other hge Thread.process fun _ => rfl] at hp
      cases hp
  caller w p t hc := absurd hc (h.not_waiting w p t)
  main t slot _ _ u hu := by
    rw [h.mainThread] at hu
    cases hu
  awaited w slot t hc := absurd hc (h.not_waiting w _ t)
  holds slot _ hused := by
    obtain ⟨space, before, between, hprocesses, -, hbetween, hlog⟩ := h.records
    rw [hprocesses, put_apply] at hused ⊢
    split at hused
    · rename_i hslot
      rw [if_pos hslot, hslot, hlog]
      have hcreated : Holds 1 space (.created userProcessId space :: before) := Since.now rfl
      have hheld := hcreated.calm (hbetween.mono Event.isCalm_of_quiet)
      exact hheld.calm ((((Extends.refl.cons trivial).cons trivial).cons trivial).cons trivial)
    · exact absurd rfl hused
  leads slot _ t ht := by
    rw [h.mainThread] at ht
    cases ht
  sound := by
    obtain ⟨space, hlog⟩ := h.log
    have hgrown : Extends (fun e : Event => e.IsMinor ∨ e = .handed 1 ∨
        e = .created userProcessId space) [] k.log := ⟨k.log, by rw [List.append_nil], hlog⟩
    refine Sound.grow (show Sound Event.Rightful [] from trivial) hgrown fun e he _ _ => ?_
    rcases he with hminor | rfl | rfl
    · cases e <;> first | exact hminor.elim | trivial
    · trivial
    · trivial

theorem Booted.waiting (h : k.Booted) : k.Waiting := by
  intro w p t hwait
  obtain ⟨space, before, between, -, hbefore, hbetween, hlog⟩ := h.records
  have hcalm : Extends Event.IsCalm between k.log := by
    rw [hlog]
    exact (((Extends.refl.cons trivial).cons trivial).cons trivial).cons trivial
  rcases (hwait.calm hcalm).calm (hbetween.mono Event.isCalm_of_quiet) with heq | ⟨-, hearly⟩
  · cases heq
  · exact (InWait.calm hearly (hbefore.mono Event.isCalm_of_quiet)).elim

end Boot

/-- What the kernel promises of the threads and spaces of its processes. -/
structure LifetimeSafe (k : Kernel) : Prop where
  /-- a user thread that has not exited belongs to the process that has the
  record of its pid, and the space of this record exists -/
  live : ∀ t, (k.threads t).isUser = true → (k.threads t).state ≠ .exited →
    ∃ slot < maxProcesses, (k.threads t).process = some (slot + 1) ∧
      (k.processes slot).id = slot + 1 ∧
      k.instanceOf t = some (k.presentInstance (slot + 1)) ∧
      Holds (slot + 1) (k.processes slot).addressSpace k.log ∧
      HasSpace (k.processes slot).addressSpace k.memory
  /-- a user thread runs in the space of its process -/
  active : (k.threads k.currentThread).isUser = true →
    ∃ p, (k.threads k.currentThread).process = some p ∧
      k.processAddressSpace p = some k.memory.activeAddressSpace
  /-- a space that was destroyed was that of the process whose main thread the
  caller had just collected, and whose pid it had waited for -/
  destroyed : ∀ later earlier w p t space,
    k.log = later ++ .destroyed w p t space :: earlier →
      (∃ status, earlier.head? = some (.collected w p t status)) ∧
        Holds p space earlier ∧ Leads p t earlier ∧
          (InWait w p t earlier → Awaits w p t earlier)

theorem Tended.safe {boot : Nat} {base : Memory} {k : Kernel} (h : k.Tended boot base)
    (hw : k.WellFormed) : k.LifetimeSafe where
  live t huser hlive := by
    obtain ⟨slot, hslot, hprocess⟩ := hw.userProcess t huser
    obtain ⟨hrecord, hinstance⟩ := h.settled t _ hprocess (.inr hlive)
    have hid : (k.processes slot).id = slot + 1 := by
      obtain ⟨i, -, hpid, hid⟩ := hrecord
      obtain rfl := Nat.succ.inj hpid
      exact hid
    have hused : (k.processes slot).id ≠ noThread := by
      rw [hid]
      exact pid_ne_noThread hslot
    obtain ⟨live, hm, hnames⟩ := h.spaces
    exact ⟨slot, hslot, hprocess, hid, hinstance, h.lifetimes.holds slot hslot hused,
      hm.spaces.hasSpace (hnames.live slot hslot hused)⟩
  active huser := by
    obtain ⟨slot, hslot, hprocess, hid, hspace⟩ := h.current hw huser
    refine ⟨slot + 1, hprocess, ?_⟩
    rw [hw.toRecords.processAddressSpace ⟨slot, hslot, rfl, hid⟩]
    exact congrArg some hspace
  destroyed later earlier w p t space heq := by
    have hsound := h.lifetimes.sound
    rw [heq] at hsound
    exact hsound.at

section Runs

variable {places : Places} {m base : Memory} {config : PagingConfig} {k : Kernel}

theorem tended (hboot : BootTables places m)
    (hinit : initializeVirtualMemory config m = .ok () base)
    (h : ReachedFrom base CollectsAwaited k) :
    k.WellFormed ∧ k.Tended (target m.cr3) base := by
  obtain ⟨image, k₀, hk₀, hrun⟩ := h
  have hbooted := boot_booted hk₀
  have hkeeps : ∀ (k : Kernel) a (k' : Kernel), k.WellFormed ∧ k.Tended (target m.cr3) base →
      k.CollectsAwaited a → k.step a = some k' →
        k'.WellFormed ∧ k'.Tended (target m.cr3) base := by
    intro k a k' hinv hguard hstep
    exact ⟨hinv.1.step hstep, hinv.2.step hinv.1 hguard hstep⟩
  refine hrun.invariant (fun k => k.WellFormed ∧ k.Tended (target m.cr3) base) hkeeps
    ⟨hbooted.wellFormed, ?_⟩
  exact
    { settled := hbooted.settled
      home := boot_home hk₀
      housed := boot_housed hboot hinit hk₀
      lifetimes := hbooted.lifetimes
      waiting := hbooted.waiting }

/-- Threads and address spaces live as long as their processes, in every run
without a mistaken wait. -/
theorem lifetimeSafe (hboot : BootTables places m)
    (hinit : initializeVirtualMemory config m = .ok () base)
    (h : ReachedFrom base CollectsAwaited k) : k.LifetimeSafe := by
  obtain ⟨hw, horderly⟩ := tended hboot hinit h
  exact horderly.safe hw

/-- The memory of the small machine has been initialised. -/
theorem initialize_bareMemory :
    initializeVirtualMemory upperHalfConfig bareMemory = .ok () plainMemory := by
  have hok : (EStateM.run' (initializeVirtualMemory upperHalfConfig) bareMemory).isSome := by
    decide +kernel
  unfold EStateM.run' EStateM.run at hok
  cases h : initializeVirtualMemory upperHalfConfig bareMemory with
  | ok u memory =>
    unfold plainMemory
    rw [h]
  | error e memory =>
    rw [h] at hok
    cases hok

set_option maxRecDepth 100000 in
/-- A run in which a parent blocks until its child exits and then collects it. -/
theorem lifetimeSafe_wait : ∃ k : Kernel, k.LifetimeSafe ∧
    Event.collected 1 2 2 7 ∈ k.log ∧ (k.processes 1).id = noThread := by
  have hrun : ((boot plainMemory smallImage).bind (exec step CollectsAwaited
      [.resume, .spawnSmall, .waitProcess 2, .resume, .yieldNow, .resume, .exit 7,
        .resume])).any
      fun k => decide (Event.collected 1 2 2 7 ∈ k.log) && (k.processes 1).id == noThread := by
    decide +kernel
  obtain ⟨k, hk, hfound⟩ := ReachedFrom.of_exec hrun
  simp only [Bool.and_eq_true, decide_eq_true_eq, beq_iff_eq] at hfound
  exact ⟨k, lifetimeSafe bootTables_bareMemory initialize_bareMemory hk, hfound⟩

end Runs

end OpenKernel.Kernel
