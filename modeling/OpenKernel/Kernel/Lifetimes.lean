import OpenKernel.Kernel.SpaceEffects

/-!
# Lifetimes of processes

`Lifetimes` says what the log and the tables have in common: which space a
record was created with, which thread was made its main thread, and that no
other thread of the process can run.  A thread inside `wait_process` still
waits for the main thread of its child if the pid has not been given since.

Most effects are `Tidy`: they leave all of this alone.  The others get one
lemma each, and `Lifetimes.step` puts them together.
-/

namespace OpenKernel

open Lib

namespace Event

/-- The event destroys the address space. -/
def destroys (space : Nat) : Event → Bool
  | destroyed _ _ _ s => s == space
  | _ => false

/-- The thread has left the call that it was in. -/
def leaves (t : ThreadId) : Event → Bool
  | returned u _ | handed u => u == t
  | _ => false

/-- Events that neither make nor end a process, nor block a thread. -/
def IsCalm : Event → Prop
  | created _ _ | mainThreadSet _ _ | destroyed _ _ _ _ | blocked _ _ => False
  | _ => True

theorem isCalm_of_quiet (e : Event) (h : e.IsQuiet) : e.IsCalm := by
  cases e <;> first | exact h.elim | trivial

theorem isCalm_of_queue (e : Event) (h : e.IsQueue) : e.IsCalm := by
  cases e <;> first | exact h.elim | trivial

theorem IsCalm.creates {e : Event} (h : e.IsCalm) (p : ProcessId) : e.creates p = false := by
  cases e <;> first | exact h.elim | rfl

theorem IsCalm.destroys {e : Event} (h : e.IsCalm) (space : Nat) : e.destroys space = false := by
  cases e <;> first | exact h.elim | rfl

theorem IsCalm.ne_blocked {e : Event} (h : e.IsCalm) (w : ThreadId) (c : Context) :
    e ≠ .blocked w c := by
  intro heq
  rw [heq] at h
  exact h

end Event

/-- The pid was last given to a process with this space, and the space has not
been destroyed since. -/
def Holds (p : ProcessId) (space : Nat) (log : List Event) : Prop :=
  Since (· = .created p space) (fun e => e.creates p ∨ e.destroys space) log

/-- The thread was made the main thread of the process that has the pid. -/
def Leads (p : ProcessId) (t : ThreadId) (log : List Event) : Prop :=
  Since (· = .mainThreadSet p t) (fun e => e.creates p) log

/-- The thread waits for the process that has the pid. -/
def Awaits (w : ThreadId) (p : ProcessId) (t : ThreadId) (log : List Event) : Prop :=
  Since (· = .blocked w (.waiting p t)) (fun e => e.creates p) log

/-- The thread has blocked in a wait and not left it since. -/
def InWait (w : ThreadId) (p : ProcessId) (t : ThreadId) (log : List Event) : Prop :=
  Since (· = .blocked w (.waiting p t)) (fun e => e.leaves w) log

/-- What must have happened before an address space is destroyed: the caller has
just collected the thread, it is the main thread of the process and the space is
that of this process, and a caller that has waited for the pid has waited for
this process. -/
def Event.Rightful : Event → List Event → Prop
  | destroyed w p t space, h =>
    (∃ status, h.head? = some (.collected w p t status)) ∧ Holds p space h ∧ Leads p t h ∧
      (InWait w p t h → Awaits w p t h)
  | _, _ => True

section Log

variable {log log' : List Event} {p : ProcessId} {space : Nat} {t w : ThreadId}

theorem Holds.calm (h : Holds p space log) (hlog : Extends Event.IsCalm log log') :
    Holds p space log' := by
  refine hlog.since (fun e he hbad => ?_) h
  rw [he.creates, he.destroys] at hbad
  simp at hbad

theorem Leads.calm (h : Leads p t log) (hlog : Extends Event.IsCalm log log') :
    Leads p t log' := by
  refine hlog.since (fun e he hbad => ?_) h
  rw [he.creates] at hbad
  cases hbad

theorem Awaits.calm (h : Awaits w p t log') (hlog : Extends Event.IsCalm log log') :
    Awaits w p t log :=
  hlog.of_since (fun _ he => he.ne_blocked _ _) h

theorem InWait.calm (h : InWait w p t log') (hlog : Extends Event.IsCalm log log') :
    InWait w p t log :=
  hlog.of_since (fun _ he => he.ne_blocked _ _) h

theorem rightful_calm (h : Sound Event.Rightful log) (hlog : Extends Event.IsCalm log log') :
    Sound Event.Rightful log' := by
  refine h.grow hlog fun e he _ _ => ?_
  cases e <;> first | exact he.elim | trivial

end Log

namespace Kernel

/-! ## Changes that leave lifetimes alone -/

/-- Main threads and waits are the same, and nothing about them is logged. -/
structure Tidy (k k' : Kernel) : Prop where
  mainThread : ∀ slot, (k'.processes slot).mainThread = (k.processes slot).mainThread
  waits : ∀ w p t, k'.contextOf w = some (.waiting p t) ↔ k.contextOf w = some (.waiting p t)
  log : Extends Event.IsCalm k.log k'.log

section Tidy

variable {k k' k'' : Kernel}

theorem Tidy.refl (k : Kernel) : Tidy k k := ⟨fun _ => rfl, fun _ _ _ => .rfl, .refl⟩

theorem Tidy.trans (h : Tidy k k') (h' : Tidy k' k'') : Tidy k k'' where
  mainThread slot := (h'.mainThread slot).trans (h.mainThread slot)
  waits w p t := (h'.waits w p t).trans (h.waits w p t)
  log := h.log.trans h'.log

theorem tidy_quiet (hq : Quiet k k') : Tidy k k' where
  mainThread slot := by rw [hq.processes]
  waits w p t := by rw [hq.contextOf]
  log := hq.log.mono Event.isCalm_of_quiet

theorem tidy_woken (hw : Woken k k') : Tidy k k' where
  mainThread slot := by rw [hw.processes]
  waits w p t := by rw [hw.contextOf]
  log := hw.log.mono Event.isCalm_of_queue

theorem tidy_record (k : Kernel) {e : Event} (he : e.IsCalm) : Tidy k (k.record e) :=
  ⟨fun _ => rfl, fun _ _ _ => .rfl, Extends.refl.cons he⟩

theorem tidy_updateThread (k : Kernel) (u : ThreadId) {f : Thread → Thread}
    (hcontext : (f (k.threads u)).context = (k.threads u).context) :
    Tidy k (k.updateThread u f) where
  mainThread _ := rfl
  waits w p t := by rw [k.contextOf_updateThread u hcontext]
  log := .refl

theorem tidy_markReapable (k : Kernel) (t : ThreadId) : Tidy k (k.markReapable t) := by
  unfold markReapable
  split
  · exact k.tidy_updateThread t rfl
  · exact .refl k

/-- A thread that has left its blocking call leaves the join too. -/
theorem tidy_leaveJoin (k : Kernel) (t : ThreadId) :
    Tidy { k with resuming := none } (k.leaveJoin t) := by
  unfold leaveJoin dropJoinWaiter
  refine Tidy.trans ?_ (tidy_markReapable _ t)
  split
  · exact tidy_updateThread _ t rfl
  · exact .refl _

/-- A switch away from a thread that waits for no process. -/
theorem tidy_dispatched {saved : Context} (hr : k.resuming = none)
    (hsaved : ∀ p t, saved ≠ .waiting p t) (hd : Dispatched k saved k') : Tidy k k' where
  mainThread slot := by rw [hd.processes]
  waits w p t := by
    rw [hd.contextOf]
    by_cases hw : w = k.currentThread
    · have hnone : k.contextOf w = none := by
        rw [contextOf, if_pos hw, hr]
      rw [if_pos hw, hnone]
      constructor
      · intro heq
        exact absurd (Option.some.inj heq) (hsaved p t)
      · intro heq
        cases heq
    · rw [if_neg hw]
  log := hd.log.mono Event.isCalm_of_queue

theorem tidy_reparent (k : Kernel) (t : ThreadId) :
    Tidy k (k.reparentChildrenOfExitedProcess t) := by
  unfold reparentChildrenOfExitedProcess
  split
  · exact .refl k
  · rename_i slot _
    obtain ⟨log, heq, hlog⟩ := k.reparentChildren_spec (k.processes slot).id t
    rw [heq]
    refine ⟨fun i => ?_, fun _ _ _ => .rfl, hlog.mono ?_⟩
    · dsimp only
      split
      · rw [adopt_mainThread]
      · rfl
    · intro e he
      obtain ⟨child, rfl⟩ := he
      trivial

theorem tidy_endThread (k : Kernel) (p : ProcessId) (t : ThreadId) :
    Tidy k (k.endThread p t) := by
  unfold endThread
  exact (k.tidy_updateThread t rfl).trans (tidy_record _ trivial)

theorem resuming_reparent (k : Kernel) (t : ThreadId) :
    (k.reparentChildrenOfExitedProcess t).resuming = k.resuming := by
  unfold reparentChildrenOfExitedProcess
  split
  · rfl
  · rename_i slot _
    obtain ⟨log, heq, -⟩ := k.reparentChildren_spec (k.processes slot).id t
    rw [heq]

theorem tidy_yieldNow (hr : k.resuming = none) : Tidy k k.yieldNow := by
  have hyielded : ∀ p t, Context.yielded ≠ .waiting p t := by
    intro p t heq
    cases heq
  unfold yieldNow
  dsimp only
  split
  · exact .refl k
  · split
    · exact tidy_dispatched hr hyielded (k.schedule_spec .yielded).1
    · have hready : Tidy k (k.setState k.currentThread .ready) :=
        k.tidy_updateThread k.currentThread rfl
      have hwoken := woken_enqueue (k.setState k.currentThread .ready) k.currentThread
      refine (hready.trans (tidy_woken hwoken)).trans ?_
      refine tidy_dispatched ?_ hyielded (schedule_spec _ .yielded).1
      rw [hwoken.resuming]
      exact hr

theorem tidy_exitCurrent (hr : k.resuming = none) (status : Nat) :
    Tidy k (k.exitCurrent status) := by
  have hfinished : ∀ p t, Context.finished ≠ .waiting p t := by
    intro p t heq
    cases heq
  unfold exitCurrent
  dsimp only
  split
  · exact .refl k
  · have hended : Tidy k ((k.updateThread k.currentThread fun t =>
        { t with
          state := .exited
          entry := none
          exitStatus := status
          reapable := !t.isUser }).record (.exited k.currentThread status)) :=
      (k.tidy_updateThread k.currentThread rfl).trans (tidy_record _ trivial)
    have hwoken := woken_wakeJoinWaiters ((k.updateThread k.currentThread fun t =>
        { t with
          state := .exited
          entry := none
          exitStatus := status
          reapable := !t.isUser }).record (.exited k.currentThread status)) k.currentThread
    refine ((hended.trans (tidy_woken hwoken)).trans (tidy_reparent _ k.currentThread)).trans ?_
    refine tidy_dispatched ?_ hfinished (schedule_spec _ .finished).1
    rw [resuming_reparent, hwoken.resuming]
    exact hr

end Tidy

/-! ## The invariant -/

/-- What the log and the tables have in common. -/
structure Lifetimes (k : Kernel) : Prop where
  user : ∀ t p, (k.threads t).process = some p → (k.threads t).isUser = true
  caller : ∀ w p t, k.contextOf w = some (.waiting p t) → (k.threads w).process.isSome
  main : ∀ t slot, (k.threads t).process = some (slot + 1) → k.Active t →
    ∀ u, (k.processes slot).mainThread = some u → u = t
  awaited : ∀ w slot t, k.contextOf w = some (.waiting (slot + 1) t) →
    Awaits w (slot + 1) t k.log → (k.processes slot).id ≠ noThread →
      (k.processes slot).mainThread = some t
  holds : ∀ slot < maxProcesses, (k.processes slot).id ≠ noThread →
    Holds (slot + 1) (k.processes slot).addressSpace k.log
  leads : ∀ slot < maxProcesses, ∀ t, (k.processes slot).mainThread = some t →
    Leads (slot + 1) t k.log
  sound : Sound Event.Rightful k.log

/-- A thread that has not left a wait goes on in it. -/
def Waiting (k : Kernel) : Prop :=
  ∀ w p t, InWait w p t k.log → k.contextOf w = some (.waiting p t)

section Rules

variable {k k' : Kernel}

theorem Lifetimes.keep (h : k.Lifetimes) (hh : SameHomes k k') (hs : Steady k k')
    (ht : Tidy k k') : k'.Lifetimes where
  user t p hp := by
    rw [hh.process] at hp
    rw [hh.isUser]
    exact h.user t p hp
  caller w p t hc := by
    rw [hh.process]
    exact h.caller w p t ((ht.waits w p t).mp hc)
  main t slot hp hactive u hu := by
    rw [hh.process] at hp
    rw [ht.mainThread] at hu
    exact h.main t slot hp (hs.active t hactive) u hu
  awaited w slot t hc hawaits hused := by
    rw [hh.id] at hused
    rw [ht.mainThread]
    exact h.awaited w slot t ((ht.waits w _ t).mp hc) (hawaits.calm ht.log) hused
  holds slot hslot hused := by
    rw [hh.id] at hused
    rw [hh.space]
    exact (h.holds slot hslot hused).calm ht.log
  leads slot hslot t hmain := by
    rw [ht.mainThread] at hmain
    exact (h.leads slot hslot t hmain).calm ht.log
  sound := rightful_calm h.sound ht.log

theorem Waiting.tidy (h : k.Waiting) (ht : Tidy k k') : k'.Waiting := by
  intro w p t hwait
  exact (ht.waits w p t).mpr (h w p t (hwait.calm ht.log))

theorem Lifetimes.quiet (h : k.Lifetimes) (hq : Quiet k k') : k'.Lifetimes :=
  h.keep (sameHomes_quiet hq) (steady_quiet hq) (tidy_quiet hq)

theorem Lifetimes.woken (h : k.Lifetimes) (hw : Woken k k') : k'.Lifetimes :=
  h.keep (sameHomes_woken hw) (steady_woken hw) (tidy_woken hw)

/-- The current thread has left its blocking call. -/
theorem Lifetimes.clear (h : k.Lifetimes) : { k with resuming := none }.Lifetimes := by
  have hback : ∀ w p t, { k with resuming := none }.contextOf w = some (.waiting p t) →
      k.contextOf w = some (.waiting p t) := by
    intro w p t hc
    rw [contextOf_clear] at hc
    split at hc
    · cases hc
    · exact hc
  exact { h with
    caller := fun w p t hc => h.caller w p t (hback w p t hc)
    awaited := fun w slot t hc => h.awaited w slot t (hback w _ t hc) }

theorem Lifetimes.leaveJoin (h : k.Lifetimes) (t : ThreadId) : (k.leaveJoin t).Lifetimes := by
  have hh := k.sameHomes_leaveJoin t
  have hs := k.steady_leaveJoin t
  exact h.clear.keep ⟨hh.process, hh.isUser, hh.id, hh.space⟩
    ⟨hs.process, hs.active, hs.ids, hs.log⟩ (k.tidy_leaveJoin t)

theorem Lifetimes.markReapable (h : k.Lifetimes) (t : ThreadId) : (k.markReapable t).Lifetimes :=
  h.keep (k.sameHomes_markReapable t) (k.steady_markReapable t) (k.tidy_markReapable t)

/-! ## Collections -/

/-- The process that is collected is led by the thread, and a caller that has
waited for its pid has waited for it. -/
theorem Lifetimes.collect (h : k.Lifetimes) (hr : k.Records) {live : List Nat}
    (hnames : NamesSpaces live k.processes) {slot : Nat} {t : ThreadId}
    (hslot : slot < maxProcesses)
    (hmain : (k.processes slot).id ≠ noThread → (k.processes slot).mainThread = some t)
    (hawaits : (k.processes slot).id ≠ noThread →
      InWait k.currentThread (slot + 1) t k.log → Awaits k.currentThread (slot + 1) t k.log)
    (status : Nat) : (k.collect (slot + 1) t status).Lifetimes := by
  unfold Kernel.collect
  dsimp only
  split
  · exact h.keep (k.sameHomes_record _) (k.steady_record trivial) (k.tidy_record trivial)
  · rename_i i hfind
    obtain ⟨hi, hid⟩ := findRecord_some hfind
    have hid' : (k.processes i).id = slot + 1 := beq_iff_eq.mp hid
    have hused : (k.processes i).id ≠ noThread := by
      rw [hid']
      exact pid_ne_noThread hslot
    obtain rfl : i = slot := by
      have hpid := (hr.shape i hi).resolve_left fun hempty => hused (congrArg Process.id hempty)
      exact Nat.succ.inj (hpid.symm.trans hid')
    have hcollected : Extends Event.IsCalm k.log
        (.collected k.currentThread (i + 1) t status :: k.log) := Extends.refl.cons trivial
    have hself : ∀ r : Process, put k.processes i r i = r := fun r => put_same _ _ _
    have hother : ∀ (r : Process) j, j ≠ i → put k.processes i r j = k.processes j :=
      fun r j hj => put_other hj
    refine
      { user := h.user
        caller := h.caller
        main := fun u j hp hactive v hv => ?_
        awaited := fun w j v hc hwait hlive => ?_
        holds := fun j hj hlive => ?_
        leads := fun j hj v hv => ?_
        sound := Sound.cons ⟨⟨status, rfl⟩, ?_, ?_, ?_⟩ (rightful_calm h.sound hcollected) }
    · change (put k.processes i .empty j).mainThread = some v at hv
      by_cases hji : j = i
      · rw [hji, hself] at hv
        cases hv
      · rw [hother _ j hji] at hv
        exact h.main u j hp hactive v hv
    · change (put k.processes i .empty j).id ≠ noThread at hlive
      show (put k.processes i .empty j).mainThread = some v
      by_cases hji : j = i
      · rw [hji, hself] at hlive
        exact absurd rfl hlive
      · rw [hother _ j hji] at hlive ⊢
        rcases hwait with heq | ⟨-, hbefore⟩
        · cases heq
        · exact h.awaited w j v hc (Awaits.calm hbefore hcollected) hlive
    · change (put k.processes i .empty j).id ≠ noThread at hlive
      show Holds (j + 1) (put k.processes i .empty j).addressSpace _
      by_cases hji : j = i
      · rw [hji, hself] at hlive
        exact absurd rfl hlive
      · rw [hother _ j hji] at hlive ⊢
        refine Since.later ?_ ((h.holds j hj hlive).calm hcollected)
        simp only [Event.creates, Event.destroys, Bool.false_eq_true, false_or, beq_iff_eq]
        intro hsame
        exact hji (hnames.distinct j hj i hi hlive hused hsame.symm)
    · change (put k.processes i .empty j).mainThread = some v at hv
      by_cases hji : j = i
      · rw [hji, hself] at hv
        cases hv
      · rw [hother _ j hji] at hv
        refine Since.later ?_ ((h.leads j hj v hv).calm hcollected)
        simp [Event.creates]
    · exact (h.holds i hi hused).calm hcollected
    · exact (h.leads i hi t (hmain hused)).calm hcollected
    · intro hwait
      exact Since.later (by simp [Event.creates]) (hawaits hused (hwait.calm hcollected))

/-! ## Creations -/

/-- A pid goes to a new process, which has no main thread yet. -/
theorem Lifetimes.create (h : k.Lifetimes) (slot space : Nat) :
    (k.create slot space).Lifetimes := by
  have hself : ∀ r : Process, put k.processes slot r slot = r := fun r => put_same _ _ _
  have hother : ∀ (r : Process) i, i ≠ slot → put k.processes slot r i = k.processes i :=
    fun r i hi => put_other hi
  refine
    { user := h.user
      caller := h.caller
      main := fun t i hp hactive u hu => ?_
      awaited := fun w i t hc hawaits hused => ?_
      holds := fun i hi hused => ?_
      leads := fun i hi t hmain => ?_
      sound := Sound.cons trivial h.sound }
  · change (put k.processes slot _ i).mainThread = some u at hu
    by_cases his : i = slot
    · rw [his, hself] at hu
      cases hu
    · rw [hother _ i his] at hu
      exact h.main t i hp hactive u hu
  · change (put k.processes slot _ i).id ≠ noThread at hused
    show (put k.processes slot _ i).mainThread = some t
    rcases hawaits with heq | ⟨hbad, hbefore⟩
    · cases heq
    · have his : i ≠ slot := by
        intro heq
        simp [Event.creates, heq] at hbad
      rw [hother _ i his] at hused ⊢
      exact h.awaited w i t hc hbefore hused
  · change (put k.processes slot _ i).id ≠ noThread at hused
    show Holds (i + 1) (put k.processes slot _ i).addressSpace _
    by_cases his : i = slot
    · rw [his, hself]
      exact Since.now rfl
    · rw [hother _ i his] at hused ⊢
      refine Since.later ?_ (h.holds i hi hused)
      simp [Event.creates, Event.destroys, Ne.symm his]
  · change (put k.processes slot _ i).mainThread = some t at hmain
    by_cases his : i = slot
    · rw [his, hself] at hmain
      cases hmain
    · rw [hother _ i his] at hmain
      refine Since.later ?_ (h.leads i hi t hmain)
      simp [Event.creates, Ne.symm his]

/-- The context of a new thread is not that of a wait. -/
theorem contextOf_hand (hr : k.resuming = none) {slot : ThreadId} {thread : Thread}
    (hcontext : thread.context = .trampoline) {w : ThreadId} {p : ProcessId} {t : ThreadId} :
    (k.hand slot thread).contextOf w = some (.waiting p t) ↔
      w ≠ slot ∧ k.contextOf w = some (.waiting p t) := by
  by_cases hw : w = slot
  · constructor
    · intro hc
      change (if w = k.currentThread then k.resuming else
        some (put k.threads slot thread w).context) = _ at hc
      rw [hw, put_same, hcontext, hr] at hc
      split at hc <;> cases hc
    · intro hc
      exact absurd hw hc.1
  · have hsame : (k.hand slot thread).contextOf w = k.contextOf w := by
      unfold contextOf
      show (if w = k.currentThread then k.resuming else
        some (put k.threads slot thread w).context) = _
      rw [put_other hw]
    rw [hsame]
    exact ⟨fun hc => ⟨hw, hc⟩, fun hc => hc.2⟩

/-- A slot goes to a new thread, which leads its process if any thread does. -/
theorem Lifetimes.hand (h : k.Lifetimes) (hr : k.resuming = none) {slot : ThreadId}
    {thread : Thread} (hcontext : thread.context = .trampoline)
    (huser : ∀ p, thread.process = some p → thread.isUser = true)
    (hmain : ∀ i u, thread.process = some (i + 1) → (k.processes i).mainThread = some u →
      u = slot) : (k.hand slot thread).Lifetimes := by
  have hself : (k.hand slot thread).threads slot = thread := put_same _ _ _
  have hother : ∀ t, t ≠ slot → (k.hand slot thread).threads t = k.threads t :=
    fun t ht => put_other ht
  have hcalm : Extends Event.IsCalm k.log (.handed slot :: k.log) := Extends.refl.cons trivial
  refine
    { user := fun t p hp => ?_
      caller := fun w p t hc => ?_
      main := fun t i hp hactive u hu => ?_
      awaited := fun w i t hc hawaits hused => ?_
      holds := fun i hi hused => (h.holds i hi hused).calm hcalm
      leads := fun i hi t ht => (h.leads i hi t ht).calm hcalm
      sound := rightful_calm h.sound hcalm }
  · by_cases ht : t = slot
    · rw [ht, hself] at hp ⊢
      exact huser p hp
    · rw [hother t ht] at hp ⊢
      exact h.user t p hp
  · obtain ⟨hw, hold⟩ := (contextOf_hand hr hcontext).mp hc
    rw [hother w hw]
    exact h.caller w p t hold
  · by_cases ht : t = slot
    · rw [ht, hself] at hp
      rw [ht]
      exact hmain i u hp hu
    · rw [hother t ht] at hp
      refine h.main t i hp ?_ u hu
      rcases hactive with heq | hlive
      · exact .inl heq
      · rw [hother t ht] at hlive
        exact .inr hlive
  · obtain ⟨-, hold⟩ := (contextOf_hand hr hcontext).mp hc
    exact h.awaited w i t hold (hawaits.calm hcalm) hused

/-- The only thread of a new process becomes its main thread. -/
theorem Lifetimes.setMain (h : k.Lifetimes) {slot : Nat} {t : ThreadId}
    (hid : ∀ i < maxProcesses, (k.processes i).id = slot + 1 → i = slot)
    (hnone : (k.processes slot).mainThread = none)
    (honly : ∀ u, (k.threads u).process = some (slot + 1) → k.Active u → u = t) :
    (k.setProcessMainThread (slot + 1) t).Lifetimes := by
  unfold Kernel.setProcessMainThread
  split
  · exact h
  · rename_i i hfind
    obtain ⟨hi, hpid⟩ := findRecord_some hfind
    have hused : (k.processes i).id = slot + 1 := beq_iff_eq.mp hpid
    obtain rfl := hid i hi hused
    have hself : ∀ r : Process, put k.processes i r i = r := fun r => put_same _ _ _
    have hother : ∀ (r : Process) j, j ≠ i → put k.processes i r j = k.processes j :=
      fun r j hj => put_other hj
    refine
      { user := h.user
        caller := h.caller
        main := fun u j hp hactive v hv => ?_
        awaited := fun w j v hc hawaits hlive => ?_
        holds := fun j hj hlive => ?_
        leads := fun j hj v hv => ?_
        sound := Sound.cons trivial h.sound }
    · change (put k.processes i _ j).mainThread = some v at hv
      by_cases hji : j = i
      · rw [hji, hself] at hv
        rw [hji] at hp
        obtain rfl := Option.some.inj hv
        exact (honly u hp hactive).symm
      · rw [hother _ j hji] at hv
        exact h.main u j hp hactive v hv
    · change (put k.processes i _ j).id ≠ noThread at hlive
      show (put k.processes i _ j).mainThread = some v
      rcases hawaits with heq | ⟨-, hbefore⟩
      · cases heq
      · by_cases hji : j = i
        · rw [hji, hself] at hlive
          rw [hji] at hc hbefore
          have hold := h.awaited w i v hc hbefore hlive
          rw [hnone] at hold
          cases hold
        · rw [hother _ j hji] at hlive ⊢
          exact h.awaited w j v hc hbefore hlive
    · change (put k.processes i _ j).id ≠ noThread at hlive
      show Holds (j + 1) (put k.processes i _ j).addressSpace _
      have hlater : ∀ space, Holds (j + 1) space k.log →
          Holds (j + 1) space (.mainThreadSet (i + 1) t :: k.log) :=
        fun space hs => hs.later (by simp [Event.creates, Event.destroys])
      by_cases hji : j = i
      · rw [hji, hself] at hlive ⊢
        rw [hji] at hlater
        exact hlater _ (h.holds i hi hlive)
      · rw [hother _ j hji] at hlive ⊢
        exact hlater _ (h.holds j hj hlive)
    · change (put k.processes i _ j).mainThread = some v at hv
      by_cases hji : j = i
      · rw [hji, hself] at hv
        obtain rfl := Option.some.inj hv
        rw [hji]
        exact Since.now rfl
      · rw [hother _ j hji] at hv
        exact Since.later (by simp [Event.creates]) (h.leads j hj v hv)

/-! ## Blocking -/

/-- A blocking call saves its context and logs it. -/
theorem blocked_spec {a : Action} {c : Context} {k₁ : Kernel} (hreg : k.Registers a c k₁)
    (hne : k.currentThread ≠ noThread ∧ k.currentThread ≠ idleThread) :
    (∀ slot, ((k₁.blockCurrent c).processes slot).mainThread =
        (k.processes slot).mainThread) ∧
      (∀ w, (k₁.blockCurrent c).contextOf w =
        if w = k.currentThread then some c else k.contextOf w) ∧
      Extends Event.IsQueue (.blocked k.currentThread c :: k.log) (k₁.blockCurrent c).log := by
  have hcurrent : k₁.currentThread = k.currentThread := by
    cases hreg <;> rfl
  have hprocesses : k₁.processes = k.processes := by
    cases hreg <;> rfl
  have hcontext : ∀ w, k₁.contextOf w = k.contextOf w := by
    cases hreg with
    | raw | sleep | futex => exact fun _ => rfl
    | join t | wait _ t => exact k.contextOf_updateThread t rfl
  unfold blockCurrent
  dsimp only
  rw [hcurrent, if_neg (not_or.mpr hne)]
  obtain ⟨hd, -⟩ := schedule_spec ((k₁.setState k.currentThread .blocked).record
    (.blocked k.currentThread c)) c
  refine ⟨fun slot => ?_, fun w => ?_, ?_⟩
  · rw [hd.processes]
    show (k₁.processes slot).mainThread = _
    rw [hprocesses]
  · rw [hd.contextOf]
    show (if w = k₁.currentThread then some c else
      (k₁.setState k.currentThread .blocked).contextOf w) = _
    unfold setState
    rw [hcurrent, k₁.contextOf_updateThread k.currentThread rfl, hcontext]
  · have hlog := hd.log
    change Extends Event.IsQueue (.blocked k.currentThread c :: k₁.log) _ at hlog
    rw [hreg.log_eq] at hlog
    exact hlog

/-- A thread that starts to wait for a process waits for its main thread. -/
theorem Registers.waiting {a : Action} {c : Context} {k₁ : Kernel} (hreg : k.Registers a c k₁)
    {p : ProcessId} {t : ThreadId} (hc : c = .waiting p t) : ∃ slot, k.Child p t slot := by
  cases hreg with
  | wait _ _ slot hchild =>
    obtain ⟨rfl, rfl⟩ := Context.waiting.inj hc
    exact ⟨slot, hchild⟩
  | raw | sleep | futex | join => cases hc

/-- The caller of a wait belongs to a process. -/
theorem Child.caller {p : ProcessId} {t : ThreadId} {slot : Nat} (h : k.Child p t slot) :
    ((k.threads k.currentThread).process).isSome := by
  have hparent := h.parent_some
  rw [h.parent_eq] at hparent
  unfold currentProcess at hparent
  split at hparent
  · cases hparent
  · exact hparent

theorem Lifetimes.blocked (h : k.Lifetimes) (hw : k.WellFormed) {a : Action} {c : Context}
    {k₁ : Kernel} (hreg : k.Registers a c k₁) (hidle : k.currentThread ≠ idleThread) :
    (k₁.blockCurrent c).Lifetimes := by
  have hh := (sameHomes_registers hreg).trans (sameHomes_blockCurrent k₁ c)
  have hs := steady_blocked hw hreg hidle
  obtain ⟨hmain, hcontext, hlog⟩ := blocked_spec hreg ⟨hw.ne_noThread, hidle⟩
  have hqueue := hlog.mono Event.isCalm_of_queue
  have hsound : Sound Event.Rightful (.blocked k.currentThread c :: k.log) :=
    Sound.cons trivial h.sound
  have hlasts : ∀ {good bad : Event → Prop}, (∀ e : Event, e.IsCalm → ¬ bad e) →
      ¬ bad (.blocked k.currentThread c) → Since good bad k.log →
        Since good bad (k₁.blockCurrent c).log :=
    fun hcalm hblocked hsince => hqueue.since hcalm (hsince.later hblocked)
  refine
    { user := fun t p hp => ?_
      caller := fun w p t hc => ?_
      main := fun t slot hp hactive u hu => ?_
      awaited := fun w slot t hc hawaits hused => ?_
      holds := fun slot hslot hused => ?_
      leads := fun slot hslot t ht => ?_
      sound := rightful_calm hsound hqueue }
  · rw [hh.process] at hp
    rw [hh.isUser]
    exact h.user t p hp
  · rw [hcontext] at hc
    rw [hh.process]
    split at hc
    · rename_i hcurrent
      obtain ⟨slot, hchild⟩ := hreg.waiting (Option.some.inj hc)
      rw [hcurrent]
      exact hchild.caller
    · exact h.caller w p t hc
  · rw [hh.process] at hp
    rw [hmain] at hu
    exact h.main t slot hp (hs.active t hactive) u hu
  · rw [hcontext] at hc
    rw [hh.id] at hused
    rw [hmain]
    split at hc
    · obtain ⟨i, hchild⟩ := hreg.waiting (Option.some.inj hc)
      obtain ⟨-, hpid⟩ := hw.child_ne hchild
      obtain rfl := Nat.succ.inj hpid
      exact hchild.main_eq
    · rename_i hother
      rcases hawaits.calm hqueue with heq | ⟨-, hbefore⟩
      · exact absurd (Event.blocked.inj heq).1.symm hother
      · exact h.awaited w slot t hc hbefore hused
  · rw [hh.id] at hused
    rw [hh.space]
    refine hlasts (fun e he => ?_) ?_ (h.holds slot hslot hused)
    · simp [he.creates, he.destroys]
    · simp [Event.creates, Event.destroys]
  · rw [hmain] at ht
    refine hlasts (fun e he => ?_) ?_ (h.leads slot hslot t ht)
    · simp [he.creates]
    · simp [Event.creates]

theorem Waiting.blocked (h : k.Waiting) (hw : k.WellFormed) (hr : k.resuming = none)
    {a : Action} {c : Context} {k₁ : Kernel} (hreg : k.Registers a c k₁)
    (hidle : k.currentThread ≠ idleThread) : (k₁.blockCurrent c).Waiting := by
  obtain ⟨-, hcontext, hlog⟩ := blocked_spec hreg ⟨hw.ne_noThread, hidle⟩
  intro w p t hwait
  rw [hcontext]
  rcases InWait.calm hwait (hlog.mono Event.isCalm_of_queue) with heq | ⟨-, hbefore⟩
  · obtain ⟨rfl, rfl⟩ := Event.blocked.inj heq
    rw [if_pos rfl]
  · have hold := h w p t hbefore
    have hne : w ≠ k.currentThread := by
      intro heq
      rw [contextOf, if_pos heq, hr] at hold
      cases hold
    rw [if_neg hne]
    exact hold

/-! ## Leaving a wait -/

/-- A thread that goes on leaves the wait that it was in. -/
theorem Waiting.resume (h : k.Waiting) {c : Context} (hr : k.resuming = some c)
    (hcontext : ∀ w p t, w ≠ k.currentThread → k.contextOf w = some (.waiting p t) →
      k'.contextOf w = some (.waiting p t))
    (hlog : ∀ w p t, InWait w p t k'.log → InWait w p t k.log)
    (hleft : ∀ p t, c = .waiting p t →
      ∃ value log, k'.log = .returned k.currentThread value :: log) : k'.Waiting := by
  intro w p t hwait
  have hold := h w p t (hlog w p t hwait)
  by_cases hw : w = k.currentThread
  · rw [contextOf, if_pos hw, hr] at hold
    obtain ⟨value, log, heq⟩ := hleft p t (Option.some.inj hold)
    rw [heq, hw] at hwait
    rcases hwait with hgood | ⟨hbad, -⟩
    · cases hgood
    · simp [Event.leaves] at hbad
  · exact hcontext w p t hw hold

/-- The end of a wait returns to user mode. -/
theorem resume_waiting {p : ProcessId} {t : ThreadId} (hr : k.resuming = some (.waiting p t))
    (hstep : k.step .resume = some k') :
    ∃ value log, k'.log = .returned k.currentThread value :: log := by
  unfold Kernel.step at hstep
  split at hstep
  · obtain ⟨c, hc, hgo⟩ := Option.bind_eq_some_iff.mp hstep
    rw [hr] at hc
    obtain rfl := Option.some.inj hc
    obtain rfl := Option.some.inj hgo
    unfold finishJoin
    dsimp only
    split
    · exact ⟨_, _, rfl⟩
    · have hstays : Stays { k with resuming := none } _ :=
        (stays_dropJoinWaiter _ t).trans ((stays_markReapable _ t).trans
          (stays_collect _ p t (k.threads t).exitStatus))
      exact ⟨_, _, congrArg (fun u => Event.returned u _ :: _) hstays.currentThread⟩
  · cases hstep

/-- A thread that is handed out is in no wait. -/
theorem Waiting.hand (h : k.Waiting) (hr : k.resuming = none) {slot : ThreadId}
    {thread : Thread} (hcontext : thread.context = .trampoline) :
    (k.hand slot thread).Waiting := by
  intro w p t hwait
  rw [contextOf_hand hr hcontext]
  rcases hwait with hgood | ⟨hbad, hbefore⟩
  · cases hgood
  · refine ⟨?_, h w p t hbefore⟩
    intro heq
    simp [Event.leaves, heq] at hbad

end Rules

end Kernel

end OpenKernel
