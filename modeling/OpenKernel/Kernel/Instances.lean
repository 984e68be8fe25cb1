import OpenKernel.Kernel.Events
import OpenKernel.Kernel.Families

/-!
# Process instances

Pids are given again, so a process is named by its pid and the number of times
this pid has been given so far.  A thread belongs to the instance that had its
pid when the thread got its slot.

`Settled` says that the threads that can still run belong to the present
instance of their pid, and that this instance has a record.  It holds as long
as no process is collected while one of its threads can still run.
-/

namespace OpenKernel

open Lib

/-- A process among all that have had its pid. -/
structure ProcessInstance where
  process : ProcessId
  incarnation : Nat
  deriving DecidableEq, Repr

namespace Event

/-- The event gives the pid to a new process. -/
def creates (p : ProcessId) : Event → Bool
  | created q _ => q == p
  | _ => false

/-- The event gives the slot to a new thread. -/
def hands (t : ThreadId) : Event → Bool
  | handed u => u == t
  | _ => false

/-- Events that give neither a pid nor a slot. -/
def IsPlain : Event → Prop
  | created _ _ | handed _ => False
  | _ => True

theorem isPlain_of_minor (e : Event) (h : e.IsMinor) : e.IsPlain := by
  cases e <;> first | exact h.elim | trivial

theorem IsPlain.creates {e : Event} (h : e.IsPlain) (p : ProcessId) :
    e.creates p = false := by
  cases e <;> first | exact h.elim | rfl

theorem IsPlain.hands {e : Event} (h : e.IsPlain) (t : ThreadId) :
    e.hands t = false := by
  cases e <;> first | exact h.elim | rfl

end Event

/-- How often the pid has been given. -/
def givenTimes (p : ProcessId) (log : List Event) : Nat :=
  log.countP (Event.creates p)

/-- The log when the slot was given to its last thread. -/
def logAtBirth (t : ThreadId) (log : List Event) : List Event :=
  log.dropWhile fun e => !e.hands t

section Log

variable {log log' : List Event} {p : ProcessId} {t : ThreadId}

theorem givenTimes_plain (h : Extends Event.IsPlain log log') :
    givenTimes p log' = givenTimes p log := by
  obtain ⟨events, rfl, hplain⟩ := h
  have hnone : events.countP (Event.creates p) = 0 := by
    rw [List.countP_eq_zero]
    intro e he
    simp [(hplain e he).creates p]
  rw [givenTimes, List.countP_append, hnone, Nat.zero_add]
  rfl

theorem logAtBirth_plain (h : Extends Event.IsPlain log log') :
    logAtBirth t log' = logAtBirth t log := by
  obtain ⟨events, rfl, hplain⟩ := h
  induction events with
  | nil => rfl
  | cons e events ih =>
    have he := (hplain e (by simp)).hands t
    rw [List.cons_append, logAtBirth, List.dropWhile_cons, he]
    exact ih fun e' he' => hplain e' (by simp [he'])

theorem givenTimes_created {space : Nat} (q : ProcessId) :
    givenTimes q (.created p space :: log) =
      givenTimes q log + if p = q then 1 else 0 := by
  rw [givenTimes, List.countP_cons, Event.creates]
  by_cases hp : p = q
  · simp [hp, givenTimes]
  · simp [hp, givenTimes]

theorem logAtBirth_handed (log : List Event) :
    logAtBirth t (.handed t :: log) = .handed t :: log := by
  simp [logAtBirth, Event.hands]

theorem logAtBirth_handed_other {u : ThreadId} (h : u ≠ t) :
    logAtBirth t (.handed u :: log) = logAtBirth t log := by
  have hother : (Event.handed u).hands t = false := by
    simp [Event.hands, h]
  rw [logAtBirth, List.dropWhile_cons, hother]
  rfl

end Log

namespace Kernel

/-- The present instance of a pid. -/
def presentInstance (k : Kernel) (p : ProcessId) : ProcessInstance :=
  ⟨p, givenTimes p k.log⟩

/-- The instance that a thread belongs to. -/
def instanceOf (k : Kernel) (t : ThreadId) : Option ProcessInstance :=
  (k.threads t).process.map fun p => ⟨p, givenTimes p (logAtBirth t k.log)⟩

/-- The pid has a record. -/
def HasRecord (k : Kernel) (p : ProcessId) : Prop :=
  ∃ slot < maxProcesses, p = slot + 1 ∧ (k.processes slot).id = p

instance (k : Kernel) : DecidablePred k.HasRecord := fun p =>
  inferInstanceAs (Decidable (∃ slot < maxProcesses, p = slot + 1 ∧ (k.processes slot).id = p))

/-- The thread runs, or it can be switched to. -/
def Active (k : Kernel) (t : ThreadId) : Prop :=
  t = k.currentThread ∨ (k.threads t).state ≠ .exited

/-- Threads that can still run belong to processes that have a record. -/
def Settled (k : Kernel) : Prop :=
  ∀ t p, (k.threads t).process = some p → k.Active t →
    k.HasRecord p ∧ k.instanceOf t = some (k.presentInstance p)

/-! ## Steps that create nothing -/

/-- No pid and no slot is given, no record is cleared, and no thread comes
back. -/
structure Steady (k k' : Kernel) : Prop where
  process : ∀ t, (k'.threads t).process = (k.threads t).process
  active : ∀ t, k'.Active t → k.Active t
  ids : ∀ slot, (k'.processes slot).id = (k.processes slot).id
  log : Extends Event.IsPlain k.log k'.log

section Steady

variable {k k' k'' : Kernel}

theorem Steady.trans (h : Steady k k') (h' : Steady k' k'') : Steady k k'' where
  process t := (h'.process t).trans (h.process t)
  active t ht := h.active t (h'.active t ht)
  ids slot := (h'.ids slot).trans (h.ids slot)
  log := h.log.trans h'.log

theorem Steady.presentInstance (h : Steady k k') (p : ProcessId) :
    k'.presentInstance p = k.presentInstance p := by
  rw [Kernel.presentInstance, givenTimes_plain h.log]
  rfl

theorem Steady.instanceOf (h : Steady k k') (t : ThreadId) :
    k'.instanceOf t = k.instanceOf t := by
  rw [Kernel.instanceOf, h.process, logAtBirth_plain h.log]
  rfl

theorem Steady.hasRecord (h : Steady k k') {p : ProcessId} :
    k'.HasRecord p ↔ k.HasRecord p := by
  simp only [HasRecord, h.ids]

theorem Settled.steady (h : k.Settled) (hs : Steady k k') : k'.Settled := by
  intro t p hp hactive
  rw [hs.process] at hp
  rw [hs.hasRecord, hs.instanceOf, hs.presentInstance]
  exact h t p hp (hs.active t hactive)

/-- The same threads have ended. -/
theorem steady_of_sameEnds (hs : SameEnds k k')
    (hcurrent : k'.currentThread = k.currentThread)
    (hlog : Extends Event.IsPlain k.log k'.log) : Steady k k' where
  process := hs.process
  active t ht := by
    rw [Active, hcurrent, ne_eq, hs.exited_iff] at ht
    exact ht
  ids slot := by rw [hs.processes]
  log := hlog

theorem steady_quiet (hq : Quiet k k') : Steady k k' :=
  steady_of_sameEnds (sameEnds_quiet hq) hq.currentThread
    (hq.minor.mono Event.isPlain_of_minor)

theorem steady_woken (hw : Woken k k') : Steady k k' :=
  steady_of_sameEnds (sameEnds_woken hw) hw.currentThread
    (hw.minor.mono Event.isPlain_of_minor)

/-- Any change of the current thread that leaves its process. -/
theorem steady_updateCurrent (k : Kernel) {f : Thread → Thread}
    (hprocess : (f (k.threads k.currentThread)).process =
      (k.threads k.currentThread).process) :
    Steady k (k.updateThread k.currentThread f) where
  process t := by
    show (put k.threads k.currentThread _ t).process = _
    by_cases ht : t = k.currentThread
    · rw [ht, put_same]
      exact hprocess
    · rw [put_other ht]
  active t ht := by
    by_cases hcurrent : t = k.currentThread
    · exact .inl hcurrent
    · rcases ht with heq | hlive
      · exact absurd heq hcurrent
      · have hother : (k.updateThread k.currentThread f).threads t =
            k.threads t := put_other hcurrent
        rw [hother] at hlive
        exact .inr hlive
  ids _ := rfl
  log := .refl

/-- Any thread can end. -/
theorem steady_endThread (k : Kernel) (p : ProcessId) (t : ThreadId) :
    Steady k (k.endThread p t) where
  process u := by
    show (put k.threads t _ u).process = _
    by_cases hu : u = t
    · rw [hu, put_same]
    · rw [put_other hu]
  active u hu := by
    rcases hu with heq | hlive
    · exact .inl heq
    · by_cases hut : u = t
      · have hended : ((k.endThread p t).threads u).state = .exited := by
          show (put k.threads t _ u).state = _
          rw [hut, put_same]
        exact absurd hended hlive
      · have hother : (k.endThread p t).threads u = k.threads u := put_other hut
        rw [hother] at hlive
        exact .inr hlive
  ids _ := rfl
  log := Extends.refl.cons trivial

theorem steady_record (k : Kernel) {e : Event} (he : e.IsPlain) :
    Steady k (k.record e) :=
  ⟨fun _ => rfl, fun _ ht => ht, fun _ => rfl, Extends.refl.cons he⟩

theorem steady_clear (k : Kernel) : Steady k { k with resuming := none } :=
  ⟨fun _ => rfl, fun _ ht => ht, fun _ => rfl, .refl⟩

theorem steady_markReapable (k : Kernel) (t : ThreadId) :
    Steady k (k.markReapable t) := by
  apply steady_of_sameEnds (k.sameEnds_markReapable t)
  · unfold markReapable
    split <;> rfl
  · rw [k.log_markReapable]
    exact .refl

theorem steady_leaveJoin (k : Kernel) (t : ThreadId) :
    Steady k (k.leaveJoin t) := by
  apply steady_of_sameEnds (k.sameEnds_leaveJoin t)
  · unfold leaveJoin dropJoinWaiter markReapable
    split <;> split <;> rfl
  · rw [k.log_leaveJoin]
    exact .refl

/-- The processor goes to a thread that has not ended. -/
theorem steady_dispatched {saved : Context}
    (hidle : (k.threads idleThread).state ≠ .exited)
    (hd : Dispatched k saved k') : Steady k k' where
  process := hd.process
  active t ht := by
    have hnext : (k.threads k'.currentThread).state ≠ .exited := by
      rcases hd.runnable with heq | hlive
      · rw [heq]
        exact hidle
      · exact hlive
    by_cases hcurrent : t = k'.currentThread
    · rw [hcurrent]
      exact .inr hnext
    · refine .inr ?_
      rw [← hd.state_of_ne t hcurrent]
      exact ht.resolve_left hcurrent
  ids slot := by rw [hd.processes]
  log := hd.log.mono fun e he =>
    Event.isPlain_of_minor e (Event.isMinor_of_queue e he)

theorem steady_reparent (k : Kernel) (t : ThreadId) :
    Steady k (k.reparentChildrenOfExitedProcess t) := by
  unfold reparentChildrenOfExitedProcess
  split
  · exact ⟨fun _ => rfl, fun _ ht => ht, fun _ => rfl, .refl⟩
  · rename_i slot _
    obtain ⟨log, heq, hlog⟩ := k.reparentChildren_spec (k.processes slot).id t
    rw [heq]
    refine ⟨fun _ => rfl, fun _ ht => ht, fun i => ?_, hlog.mono ?_⟩
    · dsimp only
      split
      · unfold adopt
        split <;> rfl
      · rfl
    · rintro e ⟨child, rfl⟩
      trivial

end Steady

/-! ## Steps that create -/

/-- A record goes to the pid that it stands for. -/
def create (k : Kernel) (slot space : Nat) : Kernel :=
  (k.setRecord slot
    { id := slot + 1
      addressSpace := space
      parent := k.currentProcess
      mainThread := none }).record (.created (slot + 1) space)

/-- A slot goes to a new thread. -/
def hand (k : Kernel) (slot : ThreadId) (thread : Thread) : Kernel :=
  (k.updateThread slot fun _ => thread).record (.handed slot)

/-- Pids without a record, and slots for processes with one, are given. -/
inductive Grows : Kernel → Kernel → Prop
  | steady {k k' : Kernel} (h : Steady k k') : Grows k k'
  | create (k : Kernel) (slot space : Nat) (hslot : slot < maxProcesses)
      (hfree : (k.processes slot).id = noThread) :
      Grows k (k.create slot space)
  | hand (k : Kernel) (slot : ThreadId) (thread : Thread)
      (hprocess : ∀ p, thread.process = some p → k.HasRecord p) :
      Grows k (k.hand slot thread)
  | trans {k k' k'' : Kernel} (h : Grows k k') (h' : Grows k' k'') :
      Grows k k''

section Grows

variable {k k' : Kernel}

theorem not_hasRecord_of_free {slot : Nat} (hslot : slot < maxProcesses)
    (hfree : (k.processes slot).id = noThread) : ¬ k.HasRecord (slot + 1) := by
  rintro ⟨i, -, hi, hid⟩
  obtain rfl : slot = i := Nat.succ.inj hi
  rw [hfree] at hid
  exact pid_ne_noThread hslot hid.symm

/-- A process that has a record keeps it, and its pid is not given again. -/
theorem Grows.hasRecord (h : Grows k k') {p : ProcessId}
    (hp : k.HasRecord p) :
    k'.HasRecord p ∧ k'.presentInstance p = k.presentInstance p := by
  induction h with
  | steady h => exact ⟨h.hasRecord.mpr hp, h.presentInstance p⟩
  | create k slot space hslot hfree =>
    have hne : slot + 1 ≠ p := by
      rintro rfl
      exact not_hasRecord_of_free hslot hfree hp
    obtain ⟨i, hi, rfl, hid⟩ := hp
    have his : i ≠ slot := fun heq => hne (by rw [heq])
    refine ⟨⟨i, hi, rfl, ?_⟩, ?_⟩
    · show (put k.processes slot _ i).id = i + 1
      rw [put_other his]
      exact hid
    · show ProcessInstance.mk (i + 1) (givenTimes (i + 1)
        (.created (slot + 1) space :: k.log)) = _
      rw [givenTimes_created, if_neg hne]
      rfl
  | hand k slot thread hprocess => exact ⟨hp, rfl⟩
  | trans _ _ ih ih' =>
    have hmiddle := ih hp
    have hlast := ih' hmiddle.1
    exact ⟨hlast.1, hlast.2.trans hmiddle.2⟩

theorem Grows.givenTimes_le (h : Grows k k') (p : ProcessId) :
    givenTimes p k.log ≤ givenTimes p k'.log := by
  induction h with
  | steady h => exact Nat.le_of_eq (givenTimes_plain h.log).symm
  | create k slot space hslot hfree =>
    show _ ≤ givenTimes p (.created (slot + 1) space :: k.log)
    rw [givenTimes_created]
    exact Nat.le_add_right _ _
  | hand k slot thread hprocess => exact Nat.le_refl _
  | trans _ _ ih ih' => exact Nat.le_trans ih ih'

/-- A pid that has a record and has not been given had one before. -/
theorem Grows.hasRecord_before (h : Grows k k') {p : ProcessId} (hp : k'.HasRecord p)
    (hsame : givenTimes p k'.log = givenTimes p k.log) : k.HasRecord p := by
  induction h with
  | steady h => exact h.hasRecord.mp hp
  | create k slot space hslot hfree =>
    change givenTimes p (.created (slot + 1) space :: k.log) = _ at hsame
    rw [givenTimes_created] at hsame
    obtain ⟨i, hi, rfl, hid⟩ := hp
    have his : i ≠ slot := by
      intro heq
      rw [if_pos (by rw [heq])] at hsame
      omega
    refine ⟨i, hi, rfl, ?_⟩
    have hother : (k.create slot space).processes i = k.processes i := put_other his
    rw [← hother]
    exact hid
  | hand k slot thread hprocess => exact hp
  | trans h h' ih ih' =>
    have hle := h.givenTimes_le p
    have hle' := h'.givenTimes_le p
    exact ih (ih' hp (by omega)) (by omega)

theorem Settled.grows (h : k.Settled) (hg : Grows k k') : k'.Settled := by
  induction hg with
  | steady hs => exact h.steady hs
  | create k slot space hslot hfree =>
    intro t p hp hactive
    have hold := h t p hp hactive
    have hcreated := (Grows.create k slot space hslot hfree).hasRecord hold.1
    rw [hcreated.2]
    exact ⟨hcreated.1, hold.2⟩
  | hand k slot thread hprocess =>
    intro t p hp hactive
    by_cases ht : t = slot
    · subst ht
      have hnew : (k.hand t thread).threads t = thread := put_same _ _ _
      rw [hnew] at hp
      refine ⟨hprocess p hp, ?_⟩
      rw [Kernel.instanceOf, hnew, hp]
      show some (ProcessInstance.mk p (givenTimes p
        (logAtBirth t (.handed t :: k.log)))) = _
      rw [logAtBirth_handed]
      rfl
    · have hsame : (k.hand slot thread).threads t = k.threads t :=
        put_other ht
      have hactive' : k.Active t := by
        rcases hactive with heq | hlive
        · exact .inl heq
        · rw [hsame] at hlive
          exact .inr hlive
      rw [hsame] at hp
      have hold := h t p hp hactive'
      refine ⟨hold.1, ?_⟩
      rw [Kernel.instanceOf, hsame]
      show (k.threads t).process.map (fun p => ProcessInstance.mk p (givenTimes p
        (logAtBirth t (.handed slot :: k.log)))) = _
      rw [logAtBirth_handed_other (Ne.symm ht)]
      exact hold.2
  | trans _ _ ih ih' => exact ih' (ih h)

/-- The record of a process none of whose threads can run. -/
theorem Settled.clear (h : k.Settled) {slot : Nat}
    (hidle : ∀ t, (k.threads t).process = some (slot + 1) → ¬ k.Active t) :
    (k.setRecord slot .empty).Settled := by
  intro t p hp hactive
  have hold := h t p hp hactive
  refine ⟨?_, hold.2⟩
  obtain ⟨i, hi, rfl, hid⟩ := hold.1
  have his : i ≠ slot := by
    rintro rfl
    exact hidle t hp hactive
  refine ⟨i, hi, rfl, ?_⟩
  show (put k.processes slot _ i).id = i + 1
  rw [put_other his]
  exact hid

end Grows

/-! ## What a step does -/

section Step

variable {k k' : Kernel}

theorem steady_schedule (saved : Context)
    (hidle : (k.threads idleThread).state ≠ .exited) :
    Steady k (k.scheduleFromCurrent saved) :=
  steady_dispatched hidle (schedule_spec k saved).1

theorem steady_yieldNow (hw : k.WellFormed) : Steady k k.yieldNow := by
  unfold yieldNow
  dsimp only
  rw [if_neg hw.ne_noThread]
  split
  · exact steady_schedule _ hw.idle.2.1
  · rename_i hidle
    have hready : Steady k (k.setState k.currentThread .ready) :=
      k.steady_updateCurrent rfl
    have hwoken := woken_enqueue (k.setState k.currentThread .ready)
      k.currentThread
    refine (hready.trans (steady_woken hwoken)).trans (steady_schedule _ ?_)
    rw [ne_eq, hwoken.exited_iff]
    show (put k.threads k.currentThread _ idleThread).state ≠ _
    rw [put_other (Ne.symm hidle)]
    exact hw.idle.2.1

theorem steady_exitCurrent (hw : k.WellFormed)
    (hidle : k.currentThread ≠ idleThread) (status : Nat) :
    Steady k (k.exitCurrent status) := by
  unfold exitCurrent
  dsimp only
  rw [if_neg (not_or.mpr ⟨hw.ne_noThread, hidle⟩)]
  generalize hended : (k.updateThread k.currentThread fun t =>
      { t with
        state := .exited
        entry := none
        exitStatus := status
        reapable := !t.isUser }).record (.exited k.currentThread status) = k₁
  have hsteady : Steady k k₁ := by
    rw [← hended]
    exact (k.steady_updateCurrent rfl).trans (steady_record _ trivial)
  have hlive : (k₁.threads idleThread).state ≠ .exited := by
    rw [← hended]
    show (put k.threads k.currentThread _ idleThread).state ≠ _
    rw [put_other (Ne.symm hidle)]
    exact hw.idle.2.1
  have hwoken := k₁.woken_wakeJoinWaiters k.currentThread
  have hwaked : ((k₁.wakeJoinWaiters k.currentThread).threads
      idleThread).state ≠ .exited := by
    rw [ne_eq, hwoken.exited_iff]
    exact hlive
  have hreparent := steady_reparent (k₁.wakeJoinWaiters k.currentThread)
    k.currentThread
  refine ((hsteady.trans (steady_woken hwoken)).trans hreparent).trans
    (steady_schedule _ ?_)
  unfold reparentChildrenOfExitedProcess
  split
  · exact hwaked
  · rename_i slot _
    obtain ⟨log, heq, -⟩ := (k₁.wakeJoinWaiters
      k.currentThread).reparentChildren_spec _ k.currentThread
    rw [heq]
    exact hwaked

theorem steady_registers {a : Action} {c : Context}
    (h : k.Registers a c k') :
    Steady k k' ∧ k'.currentThread = k.currentThread ∧
      (k'.threads idleThread).state = (k.threads idleThread).state := by
  cases h with
  | raw | sleep | futex =>
    exact ⟨⟨fun _ => rfl, fun _ ht => ht, fun _ => rfl, .refl⟩, rfl, rfl⟩
  | join t | wait _ t =>
    refine ⟨steady_of_sameEnds (k.sameEnds_updateThread t Iff.rfl rfl) rfl
      .refl, rfl, ?_⟩
    show (put k.threads t _ idleThread).state = _
    by_cases ht : idleThread = t
    · rw [ht, put_same]
    · rw [put_other ht]

theorem steady_blocked (hw : k.WellFormed) {a : Action} {c : Context}
    (hreg : k.Registers a c k') (hidle : k.currentThread ≠ idleThread) :
    Steady k (k'.blockCurrent c) := by
  obtain ⟨hsteady, hcurrent, hstate⟩ := steady_registers hreg
  unfold blockCurrent
  dsimp only
  rw [hcurrent, if_neg (not_or.mpr ⟨hw.ne_noThread, hidle⟩), ← hcurrent]
  have hblocked : Steady k' (k'.setState k'.currentThread .blocked) :=
    k'.steady_updateCurrent rfl
  have hrecorded : Steady k ((k'.setState k'.currentThread .blocked).record
      (.blocked k'.currentThread c)) :=
    (hsteady.trans hblocked).trans (steady_record _ trivial)
  refine hrecorded.trans (steady_schedule _ ?_)
  show (put k'.threads k'.currentThread _ idleThread).state ≠ _
  rw [hcurrent, put_other (Ne.symm hidle), hstate]
  exact hw.idle.2.1

/-- A collection clears one record, if it finds it. -/
theorem collect_clears (k : Kernel) (p : ProcessId) (t : ThreadId)
    (status : Nat) :
    Steady k (k.collect p t status) ∨
      ∃ k₁ slot, Steady k k₁ ∧ slot < maxProcesses ∧
        Steady (k₁.setRecord slot .empty) (k.collect p t status) := by
  unfold collect
  dsimp only
  have hcollected : Steady k (k.record
      (.collected k.currentThread p t status)) := steady_record _ trivial
  split
  · exact .inl hcollected
  · rename_i slot hfind
    refine .inr ⟨_, slot, hcollected, (findRecord_some hfind).1, ?_⟩
    exact ⟨fun _ => rfl, fun _ ht => ht, fun _ => rfl,
      Extends.refl.cons trivial⟩

theorem grows_handed {slot : ThreadId} {entry : Option Nat}
    {process : Option ProcessId} {isUser : Bool}
    (h : k.Handed slot entry process isUser k')
    (hprocess : ∀ p, process = some p → k.HasRecord p) : Grows k k' := by
  obtain ⟨k₁, userContext, ownsUserStack, hquiet, -, rfl⟩ := h
  have hsteady := steady_quiet hquiet
  refine (Grows.steady hsteady).trans ((Grows.hand k₁ slot _ ?_).trans
    (.steady (steady_woken (woken_enqueue _ slot))))
  exact fun p hp => hsteady.hasRecord.mpr (hprocess p hp)

theorem grows_recorded {p : ProcessId} (h : k.Recorded p k') :
    Grows k k' ∧ k'.HasRecord p := by
  obtain ⟨k₁, k₂, space, hquiet, hcreate, hquiet'⟩ := h
  obtain ⟨slot, -, hslot, rfl, hfree, rfl⟩ := createProcess_some hcreate
  have hgrows : Grows k₁ (k₁.create slot space) :=
    .create k₁ slot space hslot hfree
  have hrecord : (k₁.create slot space).HasRecord (slot + 1) :=
    ⟨slot, hslot, rfl, congrArg Process.id (put_same _ _ _)⟩
  have hsteady := steady_quiet hquiet'
  exact ⟨(Grows.steady (steady_quiet hquiet)).trans
    (hgrows.trans (.steady hsteady)), hsteady.hasRecord.mpr hrecord⟩

theorem steady_setProcessMainThread (k : Kernel) (p : ProcessId)
    (t : ThreadId) : Steady k (k.setProcessMainThread p t) := by
  unfold setProcessMainThread
  split
  · exact ⟨fun _ => rfl, fun _ ht => ht, fun _ => rfl, .refl⟩
  · rename_i slot _
    refine ⟨fun _ => rfl, fun _ ht => ht, fun i => ?_,
      Extends.refl.cons trivial⟩
    show (put k.processes slot _ i).id = _
    by_cases hi : i = slot
    · rw [hi, put_same]
    · rw [put_other hi]

/-- A step gives pids and slots, or it clears one record. -/
theorem step_instances (hw : k.WellFormed) {a : Action}
    (hstep : k.step a = some k') :
    Grows k k' ∨ ∃ k₁ slot, Steady k k₁ ∧ slot < maxProcesses ∧
      Steady (k₁.setRecord slot .empty) k' := by
  have hfirst : k.HasRecord userProcessId :=
    ⟨0, by decide, rfl, hw.first.1⟩
  -- A collection after some steady change, and before a quiet one.
  have hcollects : ∀ {k₁ : Kernel} {p : ProcessId} {t : ThreadId}
      {status : Nat}, Steady k k₁ → Quiet (k₁.collect p t status) k' →
      Grows k k' ∨ ∃ k₁ slot, Steady k k₁ ∧ slot < maxProcesses ∧
        Steady (k₁.setRecord slot .empty) k' := by
    intro k₁ p t status hsteady hquiet
    rcases k₁.collect_clears p t status with hkept | ⟨k₂, slot, h, hslot, h'⟩
    · exact .inl (.steady ((hsteady.trans hkept).trans (steady_quiet hquiet)))
    · exact .inr ⟨k₂, slot, hsteady.trans h, hslot,
        h'.trans (steady_quiet hquiet)⟩
  cases step_effect hw.idle.1 hstep with
  | quiet hq => exact .inl (.steady (steady_quiet hq))
  | woken hr hwakes hq =>
    exact .inl (.steady ((steady_woken hwakes.woken).trans (steady_quiet hq)))
  | resumed hr hlive hq =>
    exact .inl (.steady (k.steady_clear.trans (steady_quiet hq)))
  | joined hr hexited hq =>
    exact .inl (.steady ((k.steady_leaveJoin _).trans (steady_quiet hq)))
  | waited hr hexited hq => exact hcollects (k.steady_leaveJoin _) hq
  | yielded hr => exact .inl (.steady (steady_yieldNow hw))
  | exited status hr hidle =>
    exact .inl (.steady (steady_exitCurrent hw hidle status))
  | blocked hr hidle hreg =>
    exact .inl (.steady (steady_blocked hw hreg hidle))
  | reaped hr hlt hne hexited hq =>
    exact .inl (.steady ((k.steady_markReapable _).trans (steady_quiet hq)))
  | collected hr hchild hlt hne hexited hq =>
    exact hcollects (k.steady_markReapable _) hq
  | @terminated p t _ _ hr hchild hlookup hlive hq =>
    have hwoken := (k.endThread p t).woken_wakeJoinWaiters t
    exact .inl (.steady (((k.steady_endThread p t).trans
      (steady_woken hwoken)).trans (steady_quiet hq)))
  | @handed _ slot entry process isUser _ _ hr hspawns hkind hprocess hhanded hq =>
    refine .inl ((grows_handed hhanded fun p hp => ?_).trans
      (.steady (steady_quiet hq)))
    rw [hprocess] at hp
    split at hp
    · exact Option.some.inj hp ▸ hfirst
    · cases hp
  | recorded hr huser hrec => exact .inl (grows_recorded hrec).1
  | spawned hr huser hrec hhanded hq =>
    obtain ⟨hgrows, hrecord⟩ := grows_recorded hrec
    have hhand := grows_handed hhanded fun p hp => Option.some.inj hp ▸ hrecord
    exact .inl ((hgrows.trans hhand).trans (.steady
      ((steady_setProcessMainThread _ _ _).trans (steady_quiet hq))))

/-- A process that has a record after the step, and has not got its pid by it, had
one before. -/
theorem hasRecord_before (hw : k.WellFormed) {a : Action} (hstep : k.step a = some k')
    {p : ProcessId} (hp : k'.HasRecord p)
    (hsame : k'.presentInstance p = k.presentInstance p) : k.HasRecord p := by
  rcases step_instances hw hstep with hgrows | ⟨k₁, slot, hsteady, hslot, hsteady'⟩
  · exact hgrows.hasRecord_before hp (congrArg ProcessInstance.incarnation hsame)
  · obtain ⟨i, hi, rfl, hid⟩ := hsteady'.hasRecord.mp hp
    have his : i ≠ slot := by
      intro heq
      have hempty : (k₁.setRecord slot .empty).processes i = .empty := by
        rw [heq]
        exact put_same _ _ _
      rw [hempty] at hid
      exact pid_ne_noThread hi hid.symm
    apply hsteady.hasRecord.mp
    refine ⟨i, hi, rfl, ?_⟩
    have hother : (k₁.setRecord slot .empty).processes i = k₁.processes i := put_other his
    rw [← hother]
    exact hid

end Step

/-! ## Collections -/

/-- The step clears the record in this slot: it collects the process. -/
def Clears (k : Kernel) (a : Action) (slot : Nat) : Prop :=
  (k.processes slot).id ≠ noThread ∧
    ∃ k', k.step a = some k' ∧ (k'.processes slot).id = noThread

instance (k : Kernel) (a : Action) : DecidablePred (k.Clears a) := fun slot =>
  decidable_of_iff
    ((k.processes slot).id ≠ noThread ∧
      (k.step a).any fun k' => (k'.processes slot).id == noThread)
    (by simp [Clears, Option.any_eq_true])

/-- No thread of the process can run. -/
def Quiescent (k : Kernel) (p : ProcessId) : Prop :=
  ∀ t < maxThreads, (k.threads t).process = some p → ¬ k.Active t

section Runs

variable {k k' : Kernel}

/-- What a step keeps that collects only processes that do not run. -/
theorem Settled.step (h : k.Settled) (hw : k.WellFormed) {a : Action}
    (hguard : ∀ slot < maxProcesses, k.Clears a slot →
      k.Quiescent (slot + 1)) (hstep : k.step a = some k') : k'.Settled := by
  rcases step_instances hw hstep with hgrows | ⟨k₁, slot, hk₁, hslot, hk'⟩
  · exact h.grows hgrows
  · apply Settled.steady _ hk'
    apply (h.steady hk₁).clear
    intro t hprocess hactive
    rw [hk₁.process] at hprocess
    have hactive' := hk₁.active t hactive
    have hlt : t < maxThreads := by
      by_contra hge
      rcases hactive' with heq | hlive
      · exact hge (heq ▸ hw.current_lt)
      · exact hlive (hw.beyond t (Nat.le_of_not_lt hge)).1
    by_cases hfree : (k.processes slot).id = noThread
    · exact not_hasRecord_of_free hslot hfree (h t _ hprocess hactive').1
    · refine hguard slot hslot ⟨hfree, k', hstep, ?_⟩ t hlt hprocess hactive'
      rw [hk'.ids]
      exact congrArg Process.id (put_same _ _ _)

/-- A process that the step does not collect keeps its record and its pid. -/
theorem HasRecord.step {p : ProcessId} (h : k.HasRecord p) (hw : k.WellFormed)
    {a : Action} (hstep : k.step a = some k')
    (hkept : ∀ slot < maxProcesses, p = slot + 1 → ¬ k.Clears a slot) :
    k'.HasRecord p ∧ k'.presentInstance p = k.presentInstance p := by
  rcases step_instances hw hstep with hgrows | ⟨k₁, slot, hk₁, hslot, hk'⟩
  · exact hgrows.hasRecord h
  · have hpresent : k'.presentInstance p = k.presentInstance p :=
      (hk'.presentInstance p).trans (hk₁.presentInstance p)
    refine ⟨?_, hpresent⟩
    obtain ⟨i, hi, rfl, hid⟩ := h
    have his : i ≠ slot := by
      rintro rfl
      refine hkept i hi rfl ⟨?_, k', hstep, ?_⟩
      · rw [hid]
        exact pid_ne_noThread hi
      · rw [hk'.ids]
        exact congrArg Process.id (put_same _ _ _)
    refine ⟨i, hi, rfl, ?_⟩
    rw [hk'.ids]
    show (put k₁.processes slot _ i).id = i + 1
    rw [put_other his, hk₁.ids, hid]

theorem Booted.settled (h : k.Booted) : k.Settled := by
  intro t p hp _
  have ht : t = 1 := by
    by_contra hne
    rcases Nat.lt_or_gt_of_ne hne with hlt | hgt
    · have hidle : t = idleThread := Nat.lt_one_iff.mp hlt
      have hnone := congrArg Thread.process h.idle
      rw [hidle] at hp
      exact nomatch hp.symm.trans hnone
    · have hnone := congrArg Thread.process (h.others t hgt)
      exact nomatch hp.symm.trans hnone
  subst ht
  obtain ⟨userContext, hfirst⟩ := h.first
  have hpid : (k.threads 1).process = some userProcessId :=
    congrArg Thread.process hfirst
  rw [hpid] at hp
  obtain rfl := Option.some.inj hp
  obtain ⟨space, before, between, hprocesses, -, -, hlog⟩ := h.records
  refine ⟨⟨0, by decide, rfl, ?_⟩, ?_⟩
  · rw [hprocesses, put_same]
  · have hplain : Extends Event.IsPlain (.handed 1 :: between) k.log := by
      rw [hlog]
      exact ((Extends.refl.cons trivial).cons trivial).cons trivial
    rw [instanceOf, presentInstance, hpid, logAtBirth_plain hplain,
      logAtBirth_handed, givenTimes_plain hplain]
    rfl

end Runs

end Kernel

end OpenKernel
