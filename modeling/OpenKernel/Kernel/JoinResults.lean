import OpenKernel.Kernel.Joiners
import OpenKernel.Kernel.Results

/-!
# What the joins return

The slot of a thread is not given away as long as another thread is inside a
`join` of it, so a join ends with the status of the very thread that it was
made for, however long that takes and whoever ends it.  `Joining` says so of
the joins under way.  `wait_process` joins the main thread of the child.
-/

namespace OpenKernel

open Lib

namespace Event

/-- The event ends the thread in the slot with this status. -/
def Ends (t : ThreadId) (status : Nat) (e : Event) : Prop :=
  e = .exited t status ∨ (∃ p, e = .terminated p t) ∧ status = terminatedStatus

/-- The slot in which the event starts or ends a thread. -/
def marks : Event → Option ThreadId
  | handed t | exited t _ | terminated _ t => some t
  | _ => none

end Event

/-- The last thread in the slot has ended with this status. -/
def Ended (t : ThreadId) (status : Nat) (log : List Event) : Prop :=
  Since (Event.Ends t status) (fun e => e.marks = some t) log

/-- The slot `t` has not been given away since `w` has blocked in the call. -/
def HeldSince (w : ThreadId) (c : Context) (t : ThreadId) (log : List Event) : Prop :=
  Since (· = .blocked w c) (· = .handed t) log

section Log

variable {t w : ThreadId} {status : Nat} {c : Context} {log log' : List Event}

theorem Ended.marksNone (h : Ended t status log)
    (hlog : Extends (fun e => e.marks = none) log log') : Ended t status log' := by
  refine hlog.since (fun e he hmarks => ?_) h
  rw [he] at hmarks
  cases hmarks

theorem HeldSince.marksNone (h : HeldSince w c t log)
    (hlog : Extends (fun e => e.marks = none) log log') : HeldSince w c t log' := by
  refine hlog.since (fun e he heq => ?_) h
  rw [heq] at he
  cases he

end Log

namespace Kernel

/-- What holds of the target while `w` is inside its join. -/
structure JoinOf (k : Kernel) (w : ThreadId) (c : Context) (t : ThreadId) : Prop where
  held : HeldSince w c t k.log
  target : t = idleThread ∨ (k.threads t).isUser = true

/-- The invariant of the joins. -/
structure Joining (k : Kernel) : Prop where
  ended : ∀ t, (k.threads t).isUser = true → (k.threads t).state = .exited →
    Ended t (k.threads t).exitStatus k.log
  unused : ∀ t, t ≠ idleThread → (k.threads t).isUser = false →
    (k.threads t).exitStatus = 0
  joins : ∀ w < maxThreads, ∀ c t, k.contextOf w = some c → c.joins = some t →
    k.JoinOf w c t

/-! ## Changes that no join sees -/

/-- No thread has come or ended, and none has got into a join. -/
structure SameJoins (k k' : Kernel) : Prop where
  isUser : ∀ t, (k'.threads t).isUser = (k.threads t).isUser
  exitStatus : ∀ t, (k'.threads t).exitStatus = (k.threads t).exitStatus
  exited : ∀ t, (k'.threads t).state = .exited → (k.threads t).state = .exited
  contextOf : ∀ w c t, k'.contextOf w = some c → c.joins = some t → k.contextOf w = some c
  log : Extends (fun e => e.marks = none) k.log k'.log

theorem marks_of_quiet (e : Event) (h : e.IsQuiet) : e.marks = none := by
  cases e <;> first | exact h.elim | rfl

theorem marks_of_queue (e : Event) (h : e.IsQueue) : e.marks = none := by
  cases e <;> first | exact h.elim | rfl

section Steps

variable {k k' k'' : Kernel} {t w : ThreadId}

namespace SameJoins

theorem refl (k : Kernel) : SameJoins k k :=
  ⟨fun _ => rfl, fun _ => rfl, fun _ ht => ht, fun _ _ _ hc _ => hc, .refl⟩

theorem trans (h : SameJoins k k') (h' : SameJoins k' k'') : SameJoins k k'' where
  isUser t := (h'.isUser t).trans (h.isUser t)
  exitStatus t := (h'.exitStatus t).trans (h.exitStatus t)
  exited t ht := h.exited t (h'.exited t ht)
  contextOf w c t hc hjoins := h.contextOf w c t (h'.contextOf w c t hc hjoins) hjoins
  log := h.log.trans h'.log

theorem quiet (h : Quiet k k') : SameJoins k k' where
  isUser := h.isUser
  exitStatus := h.exitStatus
  exited t ht := by rwa [h.state] at ht
  contextOf w c t hc _ := by rwa [h.contextOf] at hc
  log := h.log.mono marks_of_quiet

theorem woken (h : Woken k k') : SameJoins k k' where
  isUser := h.isUser
  exitStatus := h.exitStatus
  exited t ht := (h.exited_iff t).mp ht
  contextOf w c t hc _ := by rwa [h.contextOf] at hc
  log := h.log.mono marks_of_queue

/-- One thread changes, and neither ends nor goes on elsewhere. -/
theorem updateThread (k : Kernel) (u : ThreadId) {f : Thread → Thread}
    (huser : (f (k.threads u)).isUser = (k.threads u).isUser)
    (hstatus : (f (k.threads u)).exitStatus = (k.threads u).exitStatus)
    (hstate : (f (k.threads u)).state = .exited → (k.threads u).state = .exited)
    (hcontext : (f (k.threads u)).context = (k.threads u).context) :
    SameJoins k (k.updateThread u f) := by
  have hself : (k.updateThread u f).threads u = f (k.threads u) := put_same _ _ _
  have hother : ∀ t, t ≠ u → (k.updateThread u f).threads t = k.threads t :=
    fun t ht => put_other ht
  refine ⟨fun t => ?_, fun t => ?_, fun t ht => ?_, fun w c t hc _ => ?_, .refl⟩
  · by_cases htu : t = u
    · rw [htu, hself, huser]
    · rw [hother t htu]
  · by_cases htu : t = u
    · rw [htu, hself, hstatus]
    · rw [hother t htu]
  · by_cases htu : t = u
    · rw [htu, hself] at ht
      rw [htu]
      exact hstate ht
    · rwa [hother t htu] at ht
  · rwa [k.contextOf_updateThread u hcontext] at hc

/-- Process records do not matter. -/
theorem of_threads (hthreads : k'.threads = k.threads)
    (hcurrent : k'.currentThread = k.currentThread) (hresuming : k'.resuming = k.resuming)
    (hlog : Extends (fun e => e.marks = none) k.log k'.log) : SameJoins k k' := by
  refine ⟨fun t => ?_, fun t => ?_, fun t ht => ?_, fun w c t hc _ => ?_, hlog⟩
  · rw [hthreads]
  · rw [hthreads]
  · rwa [hthreads] at ht
  · unfold Kernel.contextOf at hc ⊢
    rwa [hthreads, hcurrent, hresuming] at hc

theorem clear (k : Kernel) : SameJoins k { k with resuming := none } := by
  refine ⟨fun _ => rfl, fun _ => rfl, fun _ ht => ht, fun w c t hc _ => ?_, .refl⟩
  rw [contextOf_clear] at hc
  split at hc
  · cases hc
  · exact hc

end SameJoins

theorem Joining.same (h : k.Joining) (hs : SameJoins k k') : k'.Joining where
  ended t huser hexited := by
    rw [hs.isUser] at huser
    rw [hs.exitStatus]
    exact (h.ended t huser (hs.exited t hexited)).marksNone hs.log
  unused t hidle huser := by
    rw [hs.isUser] at huser
    rw [hs.exitStatus]
    exact h.unused t hidle huser
  joins w hw c t hc hjoins := by
    obtain ⟨hheld, htarget⟩ := h.joins w hw c t (hs.contextOf w c t hc hjoins) hjoins
    rw [← hs.isUser] at htarget
    exact ⟨hheld.marksNone hs.log, htarget⟩

theorem sameJoins_markReapable (k : Kernel) (t : ThreadId) : SameJoins k (k.markReapable t) := by
  unfold markReapable
  split
  · exact .updateThread k t rfl rfl id rfl
  · exact .refl k

theorem sameJoins_leaveJoin (k : Kernel) (t : ThreadId) : SameJoins k (k.leaveJoin t) := by
  unfold leaveJoin dropJoinWaiter
  refine SameJoins.trans (.clear k) (SameJoins.trans ?_ (sameJoins_markReapable _ t))
  split
  · exact .updateThread _ t rfl rfl id rfl
  · exact .refl _

theorem sameJoins_collect (k : Kernel) (p : ProcessId) (t : ThreadId) (status : Nat) :
    SameJoins k (k.collect p t status) := by
  unfold collect
  dsimp only
  split
  · exact .of_threads rfl rfl rfl (Extends.cons .refl rfl)
  · exact .of_threads rfl rfl rfl (Extends.cons (Extends.cons .refl rfl) rfl)

theorem sameJoins_reparent (k : Kernel) (t : ThreadId) :
    SameJoins k (k.reparentChildrenOfExitedProcess t) := by
  unfold reparentChildrenOfExitedProcess
  split
  · exact .refl k
  · obtain ⟨log, heq, hlog⟩ := k.reparentChildren_spec _ t
    rw [heq]
    refine .of_threads rfl rfl rfl (hlog.mono ?_)
    rintro e ⟨child, rfl⟩
    rfl

theorem sameJoins_recorded {p : ProcessId} (h : k.Recorded p k') : SameJoins k k' := by
  obtain ⟨k₁, k₂, space, h₁, h₂, h₃⟩ := h
  obtain ⟨slot, -, -, -, -, rfl⟩ := createProcess_some h₂
  refine (SameJoins.quiet h₁).trans (SameJoins.trans ?_ (.quiet h₃))
  exact .of_threads rfl rfl rfl (Extends.cons .refl rfl)

theorem sameJoins_setProcessMainThread (k : Kernel) (p : ProcessId) (t : ThreadId) :
    SameJoins k (k.setProcessMainThread p t) := by
  unfold setProcessMainThread
  split
  · exact .refl k
  · exact .of_threads rfl rfl rfl (Extends.cons .refl rfl)

/-! ## Switches -/

/-- A switch saves the current thread at a place where it joins nothing, or in a
join that has just begun. -/
theorem Joining.dispatch {saved : Context} (h : k.Joining) (hd : Dispatched k saved k')
    (hsaved : ∀ t, saved.joins = some t → k.JoinOf k.currentThread saved t) : k'.Joining where
  ended t huser hexited := by
    rw [hd.isUser] at huser
    rw [hd.exitStatus]
    have hne : t ≠ k'.currentThread := by
      intro heq
      rw [hd.state, if_pos heq] at hexited
      cases hexited
    rw [hd.state_of_ne t hne] at hexited
    exact (h.ended t huser hexited).marksNone (hd.log.mono marks_of_queue)
  unused t ht huser := by
    rw [hd.isUser] at huser
    rw [hd.exitStatus]
    exact h.unused t ht huser
  joins w hw c t hc hjoins := by
    have hjoin : k.JoinOf w c t := by
      rw [hd.contextOf] at hc
      split at hc
      · rename_i hcur
        obtain rfl := Option.some.inj hc
        rw [hcur]
        exact hsaved t hjoins
      · exact h.joins w hw c t hc hjoins
    obtain ⟨hheld, htarget⟩ := hjoin
    rw [← hd.isUser] at htarget
    exact ⟨hheld.marksNone (hd.log.mono marks_of_queue), htarget⟩

theorem Joining.schedule (h : k.Joining) {saved : Context} (hsaved : saved.joins = none) :
    (k.scheduleFromCurrent saved).Joining := by
  refine h.dispatch (schedule_spec k saved).1 fun t ht => ?_
  rw [hsaved] at ht
  cases ht

theorem Joining.yieldNow (h : k.Joining) : k.yieldNow.Joining := by
  unfold Kernel.yieldNow
  dsimp only
  split
  · exact h
  · split
    · exact h.schedule rfl
    · have hready : SameJoins k (k.setState k.currentThread .ready) := by
        refine .updateThread k _ rfl rfl (fun hx => ?_) rfl
        cases hx
      have hsame := hready.trans (.woken (woken_enqueue _ k.currentThread))
      exact (h.same hsame).schedule rfl

/-- A thread blocks in a call that it has entered in the tables. -/
theorem Joining.blocked (h : k.Joining) (hw : k.WellFormed) (hcounted : k.Counted)
    (hidle : k.currentThread ≠ idleThread) {a : Action} {c : Context}
    (hreg : k.Registers a c k') : (k'.blockCurrent c).Joining := by
  have hsame : SameJoins k k' := by
    cases hreg with
    | raw => exact .refl k
    | sleep | futex => exact .of_threads rfl rfl rfl .refl
    | join t | wait p t => exact .updateThread k t rfl rfl id rfl
  have hcur : k'.currentThread = k.currentThread := by cases hreg <;> rfl
  have htarget : ∀ t, c.joins = some t → t = idleThread ∨ (k.threads t).isUser = true := by
    have hlive : ∀ t, (k.threads t).state ≠ .exited →
        t = idleThread ∨ (k.threads t).isUser = true :=
      fun t ht => or_iff_not_imp_left.mpr fun hne => hcounted.users t hne (.inl ht)
    intro t ht
    cases hreg with
    | raw | sleep | futex => cases ht
    | join u hlt hne hu | wait p u slot hchild hlt hne hu =>
      obtain rfl := Option.some.inj ht
      exact hlive _ hu
  unfold Kernel.blockCurrent
  dsimp only
  rw [hcur, if_neg (not_or.mpr ⟨hw.ne_noThread, hidle⟩)]
  have hblocked : SameJoins k ((k'.setState k.currentThread .blocked).record
      (.blocked k.currentThread c)) := by
    refine hsame.trans (SameJoins.trans (.updateThread k' k.currentThread rfl rfl
      (fun hx => ?_) rfl) (.of_threads rfl rfl rfl (Extends.cons .refl rfl)))
    cases hx
  refine (h.same hblocked).dispatch (schedule_spec _ _).1 fun t ht => ⟨?_, ?_⟩
  · refine Since.now ?_
    show Event.blocked k.currentThread c = .blocked k'.currentThread c
    rw [hcur]
  · rw [hblocked.isUser]
    exact htarget t ht

/-! ## Starts and ends -/

/-- A thread ends. -/
theorem Joining.ends (h : k.Joining) {u : ThreadId} {f : Thread → Thread} {e : Event}
    (huser : (f (k.threads u)).isUser = (k.threads u).isUser)
    (hcontext : (f (k.threads u)).context = (k.threads u).context)
    (hlive : u = idleThread ∨ (k.threads u).isUser = true)
    (he : e.Ends u (f (k.threads u)).exitStatus) :
    ((k.updateThread u f).record e).Joining := by
  have hself : ((k.updateThread u f).record e).threads u = f (k.threads u) := put_same _ _ _
  have hother : ∀ t, t ≠ u → ((k.updateThread u f).record e).threads t = k.threads t :=
    fun t ht => put_other ht
  have hmarks : e.marks = some u := by
    rcases he with rfl | ⟨⟨p, rfl⟩, -⟩ <;> rfl
  have hsame : ∀ t, (((k.updateThread u f).record e).threads t).isUser =
      (k.threads t).isUser := by
    intro t
    by_cases htu : t = u
    · rw [htu, hself, huser]
    · rw [hother t htu]
  refine ⟨fun t ht hexited => ?_, fun t hidle ht => ?_, fun w hw c t hc hjoins => ?_⟩
  · by_cases htu : t = u
    · rw [htu, hself]
      exact Since.now he
    · rw [hother t htu] at ht hexited ⊢
      refine Since.later (fun heq => ?_) (h.ended t ht hexited)
      rw [hmarks] at heq
      exact htu (Option.some.inj heq).symm
  · by_cases htu : t = u
    · rw [hsame, htu, hlive.resolve_left (htu ▸ hidle)] at ht
      cases ht
    · rw [hother t htu] at ht ⊢
      exact h.unused t hidle ht
  · have hc' : k.contextOf w = some c := by
      rw [← k.contextOf_updateThread u hcontext]
      exact hc
    obtain ⟨hheld, htarget⟩ := h.joins w hw c t hc' hjoins
    rw [← hsame] at htarget
    refine ⟨Since.later (fun heq => ?_) hheld, htarget⟩
    rw [heq] at he
    rcases he with heq | ⟨⟨p, heq⟩, -⟩ <;> cases heq

theorem Joining.exitCurrent (h : k.Joining) (hw : k.WellFormed) (hcounted : k.Counted)
    (hidle : k.currentThread ≠ idleThread) (status : Nat) :
    (k.exitCurrent status).Joining := by
  unfold Kernel.exitCurrent
  dsimp only
  rw [if_neg (not_or.mpr ⟨hw.ne_noThread, hidle⟩)]
  have hended := h.ends (u := k.currentThread) (f := fun t =>
    { t with state := .exited, entry := none, exitStatus := status, reapable := !t.isUser })
    rfl rfl (.inr (hcounted.current_user hidle)) (.inl rfl)
  have hsame := SameJoins.trans (.woken (woken_wakeJoinWaiters ((k.updateThread k.currentThread
    fun t => { t with
      state := .exited, entry := none, exitStatus := status, reapable := !t.isUser }).record
      (.exited k.currentThread status)) k.currentThread)) (sameJoins_reparent _ k.currentThread)
  exact (hended.same hsame).schedule rfl

theorem Joining.endThread (h : k.Joining) (hcounted : k.Counted) (p : ProcessId) {t : ThreadId}
    (hlive : (k.threads t).state ≠ .exited) : (k.endThread p t).Joining := by
  refine h.ends rfl rfl ?_ (.inr ⟨⟨p, rfl⟩, rfl⟩)
  exact or_iff_not_imp_left.mpr fun hne => hcounted.users t hne (.inl hlive)

/-- Nobody is inside a join of a slot that can be reused. -/
theorem Counted.not_joins (h : k.Counted) (hslot : k.reusableSlot = some t)
    (hw : w < maxThreads) {c : Context} (hc : k.contextOf w = some c) :
    c.joins ≠ some t := by
  intro hjoins
  obtain ⟨hpos, -, -, hreap⟩ := reusableSlot_some hslot
  have hcard := Finset.card_pos.mpr ⟨w, mem_joiners_of_context hw hc hjoins⟩
  have hle := h.joiners_le t
  rw [h.unreaped t (Nat.one_le_iff_ne_zero.mp hpos) hreap] at hle
  omega

theorem Joining.handed (h : k.Joining) (hw : k.WellFormed) (hcounted : k.Counted)
    {slot : ThreadId} {entry : Option Nat} {process : Option ProcessId}
    (hk' : k.Handed slot entry process true k') : k'.Joining := by
  obtain ⟨k₁, userContext, ownsUserStack, hq, hslot, rfl⟩ := hk'
  obtain ⟨hpos, hlt, -, hreap⟩ := reusableSlot_some hslot
  have hcur : slot ≠ k₁.currentThread := by
    rw [hq.currentThread]
    rintro rfl
    rw [hw.current_kept (Nat.one_le_iff_ne_zero.mp hpos)] at hreap
    cases hreap
  have h₁ := h.same (.quiet hq)
  generalize hthread : newThread (k₁.threads slot) entry process userContext true
    ownsUserStack = thread
  have huser : thread.isUser = true ∧ thread.state = .ready ∧ thread.context = .trampoline := by
    rw [← hthread]
    exact ⟨rfl, rfl, rfl⟩
  have hthreads : ∀ t, (k₁.install slot thread).threads t =
      if t = slot then thread else k₁.threads t := by
    intro t
    unfold install
    rw [((k₁.updateThread slot fun _ => thread).record (.handed slot)).enqueue_fields slot |>.1]
    exact put_apply _ _ _ _
  have hlog : Extends (fun e => e.marks = none) (.handed slot :: k₁.log)
      (k₁.install slot thread).log := by
    have henqueue := ((k₁.updateThread slot fun _ => thread).record
      (.handed slot)).enqueue_fields slot
    exact henqueue.2.2.2.2.2.mono marks_of_queue
  refine ⟨fun t ht hexited => ?_, fun t hidle ht => ?_, fun w hlt' c t hc hjoins => ?_⟩
  · rw [hthreads] at ht hexited ⊢
    split at hexited
    · rw [huser.2.1] at hexited
      cases hexited
    · rename_i hne
      rw [if_neg hne] at ht ⊢
      refine Ended.marksNone (Since.later (fun heq => ?_) (h₁.ended t ht hexited)) hlog
      exact hne (Option.some.inj heq).symm
  · rw [hthreads] at ht ⊢
    split at ht
    · rw [huser.1] at ht
      cases ht
    · rename_i hne
      rw [if_neg hne]
      exact h₁.unused t hidle ht
  · rw [contextOf_install k₁ thread hcur] at hc
    split at hc
    · obtain rfl := Option.some.inj hc
      rw [huser.2.2] at hjoins
      cases hjoins
    · have hne : t ≠ slot := by
        rintro rfl
        rw [hq.contextOf] at hc
        exact hcounted.not_joins hslot hlt' hc hjoins
      obtain ⟨hheld, htarget⟩ := h₁.joins w hlt' c t hc hjoins
      refine ⟨HeldSince.marksNone (Since.later (fun heq => ?_) hheld) hlog, ?_⟩
      · exact hne (Event.handed.inj heq).symm
      · rw [hthreads, if_neg hne]
        exact htarget

/-! ## Runs -/

theorem Joining.step (h : k.Joining) (hw : k.WellFormed) (hcounted : k.Counted) {a : Action}
    (hsyscall : a.isInternal = false) (hstep : k.step a = some k') : k'.Joining := by
  cases step_effect hw.idle.1 hstep with
  | quiet hq => exact h.same (.quiet hq)
  | woken hr hwakes hq => exact h.same (SameJoins.trans (.woken hwakes.woken) (.quiet hq))
  | resumed hr hlive hq => exact h.same (SameJoins.trans (.clear k) (.quiet hq))
  | joined hr hexited hq => exact h.same ((k.sameJoins_leaveJoin _).trans (.quiet hq))
  | waited hr hexited hq =>
    exact h.same (((k.sameJoins_leaveJoin _).trans (sameJoins_collect _ _ _ _)).trans (.quiet hq))
  | yielded hr => exact h.yieldNow
  | exited status hr hidle => exact h.exitCurrent hw hcounted hidle status
  | blocked hr hidle hreg => exact h.blocked hw hcounted hidle hreg
  | reaped hr hlt hne hexited hq => exact h.same ((k.sameJoins_markReapable _).trans (.quiet hq))
  | collected hr hchild hlt hne hexited hq =>
    exact h.same (((k.sameJoins_markReapable _).trans (sameJoins_collect _ _ _ _)).trans
      (.quiet hq))
  | terminated hr hchild hlookup hlive hq =>
    exact ((h.endThread hcounted _ hlive).same
      (SameJoins.trans (.woken (woken_wakeJoinWaiters _ _)) (.quiet hq)))
  | handed hr hspawns hkind hprocess hhanded hq =>
    rw [hsyscall] at hkind
    rw [hkind] at hhanded
    exact (h.handed hw hcounted hhanded).same (.quiet hq)
  | recorded hr huser hrec => exact h.same (sameJoins_recorded hrec)
  | spawned hr huser hrec hhanded hq =>
    have hrecorded := h.same (sameJoins_recorded hrec)
    exact (hrecorded.handed (hw.recorded hrec) (hcounted.recorded hrec) hhanded).same
      ((sameJoins_setProcessMainThread _ _ _).trans (.quiet hq))

end Steps

/-! ## Results -/

section Results

variable {k k' : Kernel} {t : ThreadId} {v : Nat}

/-- The step asks for the status of the thread in the slot `t`. -/
def Asks (k : Kernel) (t : ThreadId) : Action → Prop
  | .join u => u = t
  | .waitProcess p | .tryWaitProcess p =>
    k.currentProcess.bind (k.childMainThread p) = some t
  | _ => False

/-- The status of an exited slot is that of the last thread in it, if there has
been one. -/
theorem Joining.status (h : k.Joining) (hexited : (k.threads t).state = .exited)
    (hidle : t ≠ idleThread) :
    Ended t (k.threads t).exitStatus k.log ∨
      (k.threads t).isUser = false ∧ (k.threads t).exitStatus = 0 := by
  cases huser : (k.threads t).isUser with
  | true => exact .inl (h.ended t huser hexited)
  | false => exact .inr ⟨rfl, h.unused t hidle huser⟩

theorem joinResult_exited {status : Nat} (h : k.joinResult t = some (some status)) :
    (k.threads t).state = .exited ∧ status = (k.threads t).exitStatus := by
  unfold joinResult at h
  dsimp only at h
  split at h
  · cases h
  · split at h
    · rename_i hexited
      exact ⟨hexited, (Option.some.inj (Option.some.inj h)).symm⟩
    · split at h <;> cases h

theorem tryJoin_exited {status : Nat} (h : (k.tryJoin t).1 = some status) :
    (k.threads t).state = .exited ∧ status = (k.threads t).exitStatus := by
  unfold tryJoin at h
  dsimp only at h
  split at h
  · cases h
  · rename_i hne
    have hexited : (k.threads t).state = .exited := by
      by_contra hlive
      exact hne (.inr (.inr (.inr hlive)))
    exact ⟨hexited, (Option.some.inj h).symm⟩

theorem resuming_tryJoin (k : Kernel) (t : ThreadId) :
    (k.tryJoin t).2.resuming = k.resuming := by
  unfold tryJoin
  dsimp only
  split
  · rfl
  · exact k.resuming_markReapable t

/-- The word of a call that asks for a status. -/
theorem word_of_asks {a : Action} (ha : k.Asks t a) (hstep : k.step a = some k')
    (hword : k'.returnedWord = some v) :
    v = failure ∨ (k.threads t).state = .exited ∧ v = (k.threads t).exitStatus := by
  have henabled : k.enabled a = true := by
    by_contra hnot
    rw [step, if_neg hnot] at hstep
    cases hstep
  rw [step, if_pos henabled] at hstep
  have hresult : ∀ result : Option Nat, v = result.getD failure →
      (∀ status, result = some status →
        (k.threads t).state = .exited ∧ status = (k.threads t).exitStatus) →
      v = failure ∨ (k.threads t).state = .exited ∧ v = (k.threads t).exitStatus := by
    intro result hv hsome
    cases result with
    | none => exact .inl hv
    | some status =>
      obtain ⟨hexited, hstatus⟩ := hsome status rfl
      exact .inr ⟨hexited, hv.trans hstatus⟩
  have hjoin : (k.joinResult t).map (·.getD failure) = some v →
      v = failure ∨ (k.threads t).state = .exited ∧ v = (k.threads t).exitStatus := by
    intro hv
    obtain ⟨result, hjoin, heq⟩ := Option.map_eq_some_iff.mp hv
    refine hresult result heq.symm fun status hstatus => joinResult_exited (hjoin.trans ?_)
    rw [hstatus]
  cases a with
  | join u =>
    obtain rfl : u = t := ha
    obtain rfl := Option.some.inj hstep
    have hr : k.resuming = none := by
      have := (Bool.and_eq_true_iff.mp henabled).1
      exact Option.isNone_iff_eq_none.mp this
    have hjoined := returnedWord_join hr u (.joining u) finishJoinCall
      fun status k₁ hr₁ => returnedWord_returnValue hr₁ (status.getD failure)
    exact hjoin (hjoined.symm.trans hword)
  | waitProcess p =>
    obtain rfl := Option.some.inj hstep
    have hr : k.resuming = none :=
      Option.isNone_iff_eq_none.mp (Bool.and_eq_true_iff.mp henabled).1
    rw [returnedWord_waitProcess hr, waitResult, show k.currentProcess.bind _ = _ from ha] at hword
    exact hjoin hword
  | tryWaitProcess p =>
    obtain rfl := Option.some.inj hstep
    have hr : k.resuming = none :=
      Option.isNone_iff_eq_none.mp (Bool.and_eq_true_iff.mp henabled).1
    unfold tryWaitProcess at hword
    rw [show k.currentProcess.bind _ = _ from ha] at hword
    dsimp only at hword
    rw [returnedWord_finishWait ((k.resuming_tryJoin t).trans hr)] at hword
    exact hresult (k.tryJoin t).1 (Option.some.inj hword).symm fun _ => tryJoin_exited
  | _ => exact ha.elim

/-- The word of a join that has blocked. -/
theorem word_of_resumed {c : Context} (hr : k.resuming = some c) (hjoins : c.joins = some t)
    (hstep : k.step .resume = some k') (hword : k'.returnedWord = some v) :
    v = failure ∨ (k.threads t).state = .exited ∧ v = (k.threads t).exitStatus := by
  have henabled : k.enabled .resume = true := by
    show k.resuming.isSome = true
    rw [hr]
    rfl
  rw [step, if_pos henabled] at hstep
  unfold perform at hstep
  rw [hr] at hstep
  have hjoined : some ((({ k with resuming := none } : Kernel).joinedResult t).getD failure) =
      some v → v = failure ∨ (k.threads t).state = .exited ∧ v = (k.threads t).exitStatus := by
    intro hv
    unfold joinedResult at hv
    split at hv
    · rename_i hexited
      exact .inr ⟨hexited, (Option.some.inj hv).symm⟩
    · exact .inl (Option.some.inj hv).symm
  cases c with
  | joining u =>
    obtain rfl : u = t := Option.some.inj hjoins
    obtain rfl := Option.some.inj hstep
    have hfinished := returnedWord_finishJoin (k := { k with resuming := none }) rfl u
      finishJoinCall fun status k₁ hr₁ => returnedWord_returnValue hr₁ (status.getD failure)
    exact hjoined (hfinished.symm.trans hword)
  | waiting p u =>
    obtain rfl : u = t := Option.some.inj hjoins
    obtain rfl := Option.some.inj hstep
    have hfinished := returnedWord_finishJoin (k := { k with resuming := none }) rfl u
      (finishWait p u) fun status k₁ hr₁ => returnedWord_finishWait hr₁ p u status
    exact hjoined (hfinished.symm.trans hword)
  | _ => cases hjoins

/-- What the joins promise. -/
structure JoinsDeliver (k : Kernel) : Prop where
  /-- nobody else gets the slot of a thread that is waited for -/
  held : ∀ w < maxThreads, ∀ c t, k.contextOf w = some c → c.joins = some t →
    HeldSince w c t k.log ∧ k.reusableSlot ≠ some t
  /-- a call that ends at once has the status of the last thread in the slot -/
  answered : ∀ a t k' v, k.Asks t a → k.step a = some k' → k'.returnedWord = some v →
    v = failure ∨ Ended t v k.log ∨ (k.threads t).isUser = false ∧ v = 0
  /-- a call that has blocked has the status of the thread that it has blocked for -/
  resumed : ∀ c t k' v, k.resuming = some c → c.joins = some t →
    k.step .resume = some k' → k'.returnedWord = some v →
      v = failure ∨ Ended t v k.log ∧ HeldSince k.currentThread c t k.log

theorem Joining.deliver (h : k.Joining) (hw : k.WellFormed) (hcounted : k.Counted) :
    k.JoinsDeliver := by
  have hidle : ∀ t, (k.threads t).state = .exited → t ≠ idleThread := by
    rintro t hexited rfl
    exact hw.idle.2.1 hexited
  refine ⟨fun w hlt c t hc hjoins => ⟨(h.joins w hlt c t hc hjoins).held, fun hslot => ?_⟩,
    fun a t k' v ha hstep hword => ?_, fun c t k' v hr hjoins hstep hword => ?_⟩
  · exact hcounted.not_joins hslot hlt hc hjoins
  · refine (word_of_asks ha hstep hword).imp_right fun ⟨hexited, hv⟩ => ?_
    rw [hv]
    exact h.status hexited (hidle t hexited)
  · have hc : k.contextOf k.currentThread = some c := by
      rw [contextOf, if_pos rfl, hr]
    obtain ⟨hheld, htarget⟩ := h.joins _ hw.current_lt c t hc hjoins
    refine (word_of_resumed hr hjoins hstep hword).imp_right fun ⟨hexited, hv⟩ => ⟨?_, hheld⟩
    rw [hv]
    exact h.ended t (htarget.resolve_left (hidle t hexited)) hexited

end Results

theorem Booted.joining {k : Kernel} (h : k.Booted) : k.Joining := by
  obtain ⟨userContext, hfirst⟩ := h.first
  refine ⟨fun t huser hexited => ?_, fun t hidle _ => ?_, fun w _ c t hc hjoins => ?_⟩
  · rcases slot_cases t with rfl | rfl | hge
    · rw [h.idle_field Thread.isUser fun _ => rfl] at huser
      cases huser
    · have hrunning : (k.threads 1).state = .running := congrArg Thread.state hfirst
      rw [hrunning] at hexited
      cases hexited
    · rw [h.other hge Thread.isUser fun _ => rfl] at huser
      cases huser
  · rcases slot_cases t with rfl | rfl | hge
    · exact absurd rfl hidle
    · exact congrArg Thread.exitStatus hfirst
    · exact h.other hge Thread.exitStatus fun _ => rfl
  · rw [h.contextOf] at hc
    obtain rfl := Option.some.inj hc
    cases hjoins

/-- Every join, and every wait, ends with the status of the thread that it was
made for. -/
theorem joinsDeliver {memory : Memory} {k : Kernel} (h : ReachedFrom memory Syscalls k) :
    k.JoinsDeliver := by
  obtain ⟨hw, hcounted, hjoining⟩ := h.invariant (fun k => k.Counted ∧ k.Joining)
    (fun _ hk => ⟨hk.counted, hk.joining⟩)
    fun _ _ _ hw hk hguard hstep =>
      ⟨hk.1.step hw hguard hstep, hk.2.step hw hk.1 hguard hstep⟩
  exact hjoining.deliver hw hcounted

set_option maxRecDepth 100000 in
/-- PID 1 joins a thread that ends with status 7 later. -/
theorem joinsDeliver_seven : ∃ k : Kernel, k.JoinsDeliver ∧
    k.resuming = some (.joining 2) ∧
      ((k.step .resume).bind fun k' => k'.returnedWord) = some 7 := by
  have hrun : ((boot plainMemory smallImage).bind (exec step Syscalls
      [.resume, .threadCreate futureUserSpaceBase 0 0, .join 2, .resume, .yieldNow, .resume,
        .exit 7])).any fun k => decide (k.resuming = some (.joining 2) ∧
          ((k.step .resume).bind fun k' => k'.returnedWord) = some 7) := by
    decide +kernel
  obtain ⟨k, hk, hfound⟩ := ReachedFrom.of_exec hrun
  exact ⟨k, joinsDeliver hk, of_decide_eq_true hfound⟩

end Kernel

end OpenKernel
