import Mathlib.Data.Finset.Card
import OpenKernel.Kernel.Cases
import OpenKernel.Lib.Runs

/-!
# The invariant of every run

`WellFormed` is what the thread and process tables satisfy in every
reachable state, whatever the order of the actions.  The later modules build
on it.
-/

namespace OpenKernel

open Lib

namespace Kernel

/-- The part of the invariant about the process table. -/
structure Records (k : Kernel) : Prop where
  shape : ∀ slot < maxProcesses,
    k.processes slot = .empty ∨ (k.processes slot).id = slot + 1
  first : (k.processes 0).id = userProcessId ∧ (k.processes 0).parent = none ∧
    (k.processes 0).mainThread = none
  main_lt : ∀ slot < maxProcesses, ∀ t,
    (k.processes slot).mainThread = some t → 1 ≤ t ∧ t < maxThreads
  waits : ∀ w p t, k.contextOf w = some (.waiting p t) →
    ∃ slot, 1 ≤ slot ∧ slot < maxProcesses ∧ p = slot + 1
  userProcess : ∀ t, (k.threads t).isUser = true →
    ∃ slot < maxProcesses, (k.threads t).process = some (slot + 1)

/-- The part of the invariant about the thread table. -/
structure Slots (k : Kernel) : Prop extends Records k where
  current_lt : k.currentThread < maxThreads
  beyond : ∀ t, maxThreads ≤ t →
    (k.threads t).state = .exited ∧ (k.threads t).isUser = false
  idle : (k.threads idleThread).isUser = false ∧
    (k.threads idleThread).state ≠ .exited ∧
    (k.threads idleThread).state ≠ .blocked
  reapable : ∀ t, t ≠ idleThread → (k.threads t).reapable = true →
    (k.threads t).state = .exited
  joins : ∀ w c t, k.contextOf w = some c → c.joins = some t →
    t ≠ w ∧ t < maxThreads

/-- The invariant of the thread and process tables.  The slot of the current
thread cannot be reused. -/
structure WellFormed (k : Kernel) : Prop extends Slots k where
  current_kept : k.currentThread ≠ idleThread →
    (k.threads k.currentThread).reapable = false

/-- The invariant of a state in the middle of a switch: the current thread
is about to be saved at `saved`. -/
structure Switching (k : Kernel) (saved : Context) : Prop
    extends Slots k where
  resuming : k.resuming = none
  saved_joins : ∀ t, saved.joins = some t →
    t ≠ k.currentThread ∧ t < maxThreads
  saved_waits : ∀ p t, saved = .waiting p t →
    ∃ slot, 1 ≤ slot ∧ slot < maxProcesses ∧ p = slot + 1

/-! ## Changes that keep what the invariant reads -/

theorem Records.congr {k k' : Kernel} (h : k.Records)
    (hprocesses : k'.processes = k.processes)
    (hcontext : ∀ t, k'.contextOf t = k.contextOf t)
    (huser : ∀ t, (k'.threads t).isUser = (k.threads t).isUser)
    (hprocess : ∀ t, (k'.threads t).process = (k.threads t).process) :
    k'.Records where
  shape := by rw [hprocesses]; exact h.shape
  first := by rw [hprocesses]; exact h.first
  main_lt := by rw [hprocesses]; exact h.main_lt
  waits w p t hw := h.waits w p t (by rw [← hcontext, hw])
  userProcess t ht := by
    rw [hprocess]
    exact h.userProcess t (by rw [← huser, ht])

theorem Slots.quiet {k k' : Kernel} (h : k.Slots) (hq : Quiet k k') :
    k'.Slots where
  toRecords := h.toRecords.congr hq.processes hq.contextOf hq.isUser hq.process
  current_lt := by rw [hq.currentThread]; exact h.current_lt
  beyond t ht := by rw [hq.state, hq.isUser]; exact h.beyond t ht
  idle := by rw [hq.state, hq.isUser]; exact h.idle
  reapable t hidle hr := by
    rw [hq.state]
    exact h.reapable t hidle (by rw [← hq.reapable, hr])
  joins w c t hw := by
    rw [hq.contextOf] at hw
    exact h.joins w c t hw

theorem Slots.woken {k k' : Kernel} (h : k.Slots) (hw : Woken k k') :
    k'.Slots where
  toRecords := h.toRecords.congr hw.processes hw.contextOf hw.isUser hw.process
  current_lt := by rw [hw.currentThread]; exact h.current_lt
  beyond t ht := by rw [hw.exited_iff, hw.isUser]; exact h.beyond t ht
  idle := by
    rw [hw.isUser, Ne, hw.exited_iff]
    refine ⟨h.idle.1, h.idle.2.1, ?_⟩
    rcases hw.state idleThread with heq | ⟨hb, -⟩
    · rw [heq]
      exact h.idle.2.2
    · exact absurd hb h.idle.2.2
  reapable t hidle hr := by
    rw [hw.exited_iff]
    exact h.reapable t hidle (by rw [← hw.reapable, hr])
  joins w c t hc := by
    rw [hw.contextOf] at hc
    exact h.joins w c t hc

theorem WellFormed.quiet {k k' : Kernel} (h : k.WellFormed)
    (hq : Quiet k k') : k'.WellFormed where
  toSlots := h.toSlots.quiet hq
  current_kept := by
    rw [hq.currentThread, hq.reapable]
    exact h.current_kept

theorem WellFormed.woken {k k' : Kernel} (h : k.WellFormed)
    (hw : Woken k k') : k'.WellFormed where
  toSlots := h.toSlots.woken hw
  current_kept := by
    rw [hw.currentThread, hw.reapable]
    exact h.current_kept

/-! ## Switching -/

theorem Slots.dispatch_lt {k k' : Kernel} {saved : Context} (h : k.Slots)
    (hd : Dispatched k saved k') : k'.currentThread < maxThreads := by
  rcases hd.runnable with hidle | hlive
  · rw [hidle]
    decide
  · by_contra hge
    exact hlive (h.beyond _ (Nat.le_of_not_lt hge)).1

/-- A switch re-establishes the invariant. -/
theorem Switching.dispatch {k k' : Kernel} {saved : Context}
    (h : k.Switching saved) (hd : Dispatched k saved k') : k'.WellFormed where
  shape := by rw [hd.processes]; exact h.shape
  first := by rw [hd.processes]; exact h.first
  main_lt := by rw [hd.processes]; exact h.main_lt
  waits w p t hw := by
    rw [hd.contextOf] at hw
    split at hw
    · exact h.saved_waits p t (Option.some.inj hw)
    · exact h.waits w p t hw
  userProcess t ht := by
    rw [hd.process]
    exact h.userProcess t (by rw [← hd.isUser, ht])
  current_lt := h.dispatch_lt hd
  beyond t ht := by
    have hne := Nat.ne_of_gt (Nat.lt_of_lt_of_le (h.dispatch_lt hd) ht)
    rw [hd.state_of_ne t hne, hd.isUser]
    exact h.beyond t ht
  idle := by
    rw [hd.isUser, hd.state]
    refine ⟨h.idle.1, ?_⟩
    split
    · exact ⟨by decide, by decide⟩
    · exact h.idle.2
  reapable t hidle hr := by
    have hexited := h.reapable t hidle (by rw [← hd.reapable, hr])
    have hne : t ≠ k'.currentThread := by
      rintro rfl
      rcases hd.runnable with hidle' | hlive
      · exact hidle hidle'
      · exact hlive hexited
    rw [hd.state_of_ne t hne, hexited]
  joins w c t hc hjoins := by
    rw [hd.contextOf] at hc
    split at hc
    · rename_i heq
      obtain rfl := Option.some.inj hc
      rw [heq]
      exact h.saved_joins t hjoins
    · exact h.joins w c t hc hjoins
  current_kept hidle := by
    by_contra hr
    rw [Bool.not_eq_false, hd.reapable] at hr
    rcases hd.runnable with hidle' | hlive
    · exact hidle hidle'
    · exact hlive (h.reapable _ hidle hr)

/-! ## Steps -/

/-- A change of one thread that leaves its context, its process and its kind
alone. -/
theorem contextOf_updateThread (k : Kernel) (u : ThreadId) {f : Thread → Thread}
    (hcontext : (f (k.threads u)).context = (k.threads u).context)
    (t : ThreadId) : (k.updateThread u f).contextOf t = k.contextOf t := by
  unfold contextOf
  by_cases ht : t = u
  · subst ht
    show (if t = k.currentThread then k.resuming
      else some (put k.threads t (f (k.threads t)) t).context) = _
    rw [put_same, hcontext]
  · show (if t = k.currentThread then k.resuming
      else some (put k.threads u (f (k.threads u)) t).context) = _
    rw [put_other ht]

theorem Slots.updateThread {k : Kernel} (h : k.Slots) (u : ThreadId)
    {f : Thread → Thread} (hlt : u < maxThreads)
    (hidle : u = idleThread → (f (k.threads u)).state = (k.threads u).state)
    (hcontext : (f (k.threads u)).context = (k.threads u).context)
    (huser : (f (k.threads u)).isUser = (k.threads u).isUser)
    (hprocess : (f (k.threads u)).process = (k.threads u).process)
    (hreapable : u ≠ idleThread → (f (k.threads u)).reapable = true →
      (f (k.threads u)).state = .exited) :
    (k.updateThread u f).Slots := by
  have hother : ∀ t, t ≠ u → (k.updateThread u f).threads t = k.threads t :=
    fun t ht => put_other ht
  have hself : (k.updateThread u f).threads u = f (k.threads u) := put_same _ _ _
  have hctx := k.contextOf_updateThread u hcontext
  refine ⟨h.toRecords.congr rfl hctx ?_ ?_, h.current_lt, ?_, ?_, ?_, ?_⟩
  · intro t
    by_cases ht : t = u
    · rw [ht, hself, huser]
    · rw [hother t ht]
  · intro t
    by_cases ht : t = u
    · rw [ht, hself, hprocess]
    · rw [hother t ht]
  · intro t ht
    rw [hother t (Nat.ne_of_gt (Nat.lt_of_lt_of_le hlt ht))]
    exact h.beyond t ht
  · by_cases hu : idleThread = u
    · rw [hu, hself, huser, hidle hu.symm, ← hu]
      exact h.idle
    · rw [hother _ hu]
      exact h.idle
  · intro t hidle hr
    by_cases htu : t = u
    · rw [htu, hself] at hr ⊢
      exact hreapable (htu ▸ hidle) hr
    · rw [hother t htu] at hr ⊢
      exact h.reapable t hidle hr
  · intro w c t hc
    rw [hctx] at hc
    exact h.joins w c t hc

section Step

variable {k k' : Kernel}

theorem woken_enqueue (k : Kernel) (t : ThreadId) : Woken k (k.enqueue t) := by
  obtain ⟨h1, h2, h3, h4, h5, h6⟩ := k.enqueue_fields t
  exact ⟨fun u => .inl (by rw [h1]), h2, h3, h4, h5, h6⟩

theorem contextOf_clear (k : Kernel) (w : ThreadId) :
    { k with resuming := none }.contextOf w =
      if w = k.currentThread then none else k.contextOf w := by
  unfold contextOf
  by_cases hw : w = k.currentThread
  · rw [if_pos hw, if_pos hw]
  · rw [if_neg hw, if_neg hw, if_neg hw]

/-- The current thread is no longer inside a blocking call. -/
theorem WellFormed.clear (h : k.WellFormed) :
    { k with resuming := none }.WellFormed := by
  have hctx : ∀ w c, { k with resuming := none }.contextOf w = some c →
      k.contextOf w = some c := by
    intro w c hc
    rw [contextOf_clear] at hc
    split at hc
    · cases hc
    · exact hc
  exact { h with
    waits := fun w p t hw => h.waits w p t (hctx w _ hw)
    joins := fun w c t hw => h.joins w c t (hctx w c hw) }

theorem WellFormed.ne_idle_of_exited (h : k.WellFormed) {t : ThreadId}
    (ht : (k.threads t).state = .exited) : t ≠ idleThread := by
  rintro rfl
  exact h.idle.2.1 ht

/-- A change of another thread than the current one. -/
theorem WellFormed.updateThread (h : k.WellFormed) (u : ThreadId)
    {f : Thread → Thread} (hne : u ≠ k.currentThread)
    (hs : (k.updateThread u f).Slots) : (k.updateThread u f).WellFormed where
  toSlots := hs
  current_kept hidle := by
    show ((put k.threads u _) k.currentThread).reapable = false
    rw [put_other hne.symm]
    exact h.current_kept hidle

theorem WellFormed.markReapable (h : k.WellFormed) {t : ThreadId}
    (hlt : t < maxThreads) (hne : t ≠ k.currentThread)
    (hexited : (k.threads t).state = .exited) :
    (k.markReapable t).WellFormed := by
  unfold Kernel.markReapable
  split
  · exact h.updateThread t hne
      (h.toSlots.updateThread t hlt (fun _ => rfl) rfl rfl rfl
        fun _ _ => hexited)
  · exact h

/-- A thread that has joined an exited thread leaves it. -/
theorem WellFormed.leaveJoin (h : k.WellFormed) {c : Context} {t : ThreadId}
    (hr : k.resuming = some c) (hjoins : c.joins = some t)
    (hexited : (k.threads t).state = .exited) :
    (k.leaveJoin t).WellFormed := by
  have hcur : k.contextOf k.currentThread = some c := by
    rw [contextOf, if_pos rfl, hr]
  obtain ⟨hne, hlt⟩ := h.joins _ c t hcur hjoins
  unfold Kernel.leaveJoin dropJoinWaiter
  split
  · have hdrop := h.clear.updateThread t hne
      (h.clear.toSlots.updateThread t
        (f := fun t => { t with joinWaiterCount := t.joinWaiterCount - 1 })
        hlt (fun _ => rfl) rfl rfl rfl fun _ _ => hexited)
    refine hdrop.markReapable hlt hne ?_
    show (put k.threads t _ t).state = _
    rw [put_same]
    exact hexited
  · exact h.clear.markReapable hlt hne hexited

/-- The invariant does not read the log. -/
theorem Slots.record (h : k.Slots) (e : Event) : (k.record e).Slots :=
  { h with }

theorem WellFormed.record (h : k.WellFormed) (e : Event) :
    (k.record e).WellFormed :=
  { h with }

theorem WellFormed.setRecord (h : k.WellFormed) {slot : Nat} (hpos : 1 ≤ slot)
    {r : Process} (hshape : r = .empty ∨ r.id = slot + 1)
    (hmain : ∀ t, r.mainThread = some t → 1 ≤ t ∧ t < maxThreads) :
    (k.setRecord slot r).WellFormed := by
  refine { h with
    shape := fun s hs => ?_
    first := ?_
    main_lt := fun s hs t ht => ?_ }
  · show put k.processes slot r s = .empty ∨ (put k.processes slot r s).id = s + 1
    by_cases heq : s = slot
    · rw [heq, put_same]
      exact hshape
    · rw [put_other heq]
      exact h.shape s hs
  · have hne : 0 ≠ slot := by omega
    show (put k.processes slot r 0).id = _ ∧ (put k.processes slot r 0).parent = _ ∧
      (put k.processes slot r 0).mainThread = _
    rw [put_other hne]
    exact h.first
  · have ht' : (put k.processes slot r s).mainThread = some t := ht
    by_cases heq : s = slot
    · rw [heq, put_same] at ht'
      exact hmain t ht'
    · rw [put_other heq] at ht'
      exact h.main_lt s hs t ht'

theorem WellFormed.collect (h : k.WellFormed) {p : ProcessId}
    (hp : p ≠ userProcessId) (t : ThreadId) (status : Nat) :
    (k.collect p t status).WellFormed := by
  unfold Kernel.collect
  dsimp only
  split
  · exact h.record _
  · rename_i slot hfind
    obtain ⟨hlt, hid⟩ := findRecord_some hfind
    have hpos : 1 ≤ slot := by
      rw [Nat.one_le_iff_ne_zero]
      rintro rfl
      apply hp
      rw [← h.first.1]
      exact (beq_iff_eq.mp hid).symm
    have hmem : { k.record (.collected k.currentThread p t status) with
        memory := destroyUserAddressSpace
          ((k.record (.collected k.currentThread p t status)).processes
            slot).addressSpace
          (k.record (.collected k.currentThread p t status)).memory }.WellFormed :=
      { h with }
    exact (hmem.setRecord hpos (.inl rfl) fun t ht => by cases ht).record _

/-- A child is not PID 1. -/
theorem WellFormed.child_ne (h : k.WellFormed) {p : ProcessId} {t : ThreadId}
    {slot : Nat} (hchild : k.Child p t slot) :
    1 ≤ slot ∧ p = slot + 1 := by
  have hpos : 1 ≤ slot := by
    rw [Nat.one_le_iff_ne_zero]
    rintro rfl
    have := hchild.parent_some
    rw [h.first.2.1] at this
    cases this
  refine ⟨hpos, ?_⟩
  rcases h.shape slot hchild.slot_lt with hempty | hid
  · have := hchild.main_eq
    rw [hempty] at this
    cases this
  · rw [← hchild.id_eq, hid]

/-! ### Switching away -/

theorem Slots.toSwitching (h : k.Slots) (hr : k.resuming = none)
    {saved : Context} (hjoins : saved.joins = none) : k.Switching saved := by
  refine { h with resuming := hr, saved_joins := ?_, saved_waits := ?_ }
  · intro t ht
    rw [hjoins] at ht
    cases ht
  · rintro p t rfl
    cases hjoins

/-- The state of a thread that cannot be reused changes. -/
theorem Slots.setState (h : k.Slots) {t : ThreadId} (hlt : t < maxThreads)
    (hidle : t ≠ idleThread) (hkept : (k.threads t).reapable = false)
    (state : ThreadState) : (k.setState t state).Slots := by
  refine h.updateThread t hlt (fun heq => absurd heq hidle) rfl rfl rfl
    fun _ hr => ?_
  have hr' : (k.threads t).reapable = true := hr
  rw [hkept] at hr'
  cases hr'

theorem Switching.schedule {saved : Context} (h : k.Switching saved) :
    (k.scheduleFromCurrent saved).WellFormed :=
  h.dispatch (k.schedule_spec saved).1

theorem WellFormed.ne_noThread (h : k.WellFormed) :
    k.currentThread ≠ noThread := by
  have := h.current_lt
  unfold maxThreads at this
  unfold noThread
  omega

theorem WellFormed.yieldNow (h : k.WellFormed) (hr : k.resuming = none) :
    k.yieldNow.WellFormed := by
  unfold Kernel.yieldNow
  dsimp only
  rw [if_neg h.ne_noThread]
  split
  · exact (h.toSlots.toSwitching hr rfl).schedule
  · rename_i hidle
    have hready := h.toSlots.setState h.current_lt hidle (h.current_kept hidle)
      .ready
    have hw := woken_enqueue (k.setState k.currentThread .ready) k.currentThread
    refine ((hready.woken hw).toSwitching ?_ rfl).schedule
    rw [hw.resuming]
    exact hr

/-- The end of a blocking call. -/
theorem Switching.blockCurrent {saved : Context} (h : k.Switching saved)
    (hidle : k.currentThread ≠ idleThread)
    (hkept : (k.threads k.currentThread).reapable = false) :
    (k.blockCurrent saved).WellFormed := by
  have hne : k.currentThread ≠ noThread := by
    have := h.current_lt
    unfold maxThreads at this
    unfold noThread
    omega
  unfold Kernel.blockCurrent
  dsimp only
  rw [if_neg (not_or.mpr ⟨hne, hidle⟩)]
  have hblocked := h.toSlots.setState h.current_lt hidle hkept .blocked
  have hswitch : ((k.setState k.currentThread .blocked).record
      (.blocked k.currentThread saved)).Switching saved :=
    { hblocked with
      resuming := h.resuming
      saved_joins := h.saved_joins
      saved_waits := h.saved_waits }
  exact hswitch.schedule

/-- The current thread enters a `join` of `t`. -/
theorem Slots.addJoinWaiter (h : k.Slots) {t : ThreadId}
    (hlt : t < maxThreads) (hlive : (k.threads t).state ≠ .exited) :
    (k.addJoinWaiter t).Slots :=
  h.updateThread t hlt (fun _ => rfl) rfl rfl rfl
    fun hidle hr => absurd (h.reapable t hidle hr) hlive

theorem WellFormed.registers (h : k.WellFormed) (hr : k.resuming = none)
    {a : Action} {c : Context}
    (hreg : k.Registers a c k') : k'.Switching c := by
  cases hreg with
  | raw => exact h.toSlots.toSwitching hr rfl
  | sleep index due =>
    refine Slots.toSwitching ?_ ?_ ?_
    · exact { h.toSlots with }
    · exact hr
    · rfl
  | futex index address due =>
    refine Slots.toSwitching ?_ ?_ ?_
    · exact { h.toSlots with }
    · exact hr
    · rfl
  | join t hlt hne hlive =>
    exact { toSlots := h.toSlots.addJoinWaiter hlt hlive
            resuming := hr
            saved_joins := fun u hu => by
              obtain rfl := Option.some.inj hu
              exact ⟨hne, hlt⟩
            saved_waits := fun p u hu => by cases hu }
  | wait p t slot hchild hlt hne hlive =>
    exact { toSlots := h.toSlots.addJoinWaiter hlt hlive
            resuming := hr
            saved_joins := fun u hu => by
              obtain rfl := Option.some.inj hu
              exact ⟨hne, hlt⟩
            saved_waits := fun q u hu => by
              obtain ⟨rfl, -⟩ := Context.waiting.inj hu
              obtain ⟨hpos, hp⟩ := h.child_ne hchild
              exact ⟨slot, hpos, hchild.slot_lt, hp⟩ }

theorem WellFormed.blocked (h : k.WellFormed) (hr : k.resuming = none)
    (hidle : k.currentThread ≠ idleThread) {c : Context}
    {a : Action} (hreg : k.Registers a c k') : (k'.blockCurrent c).WellFormed := by
  have hswitch := h.registers hr hreg
  have hkept := h.current_kept hidle
  cases hreg with
  | raw => exact hswitch.blockCurrent hidle hkept
  | sleep => exact hswitch.blockCurrent hidle hkept
  | futex => exact hswitch.blockCurrent hidle hkept
  | join t _ hne =>
    refine hswitch.blockCurrent hidle ?_
    show (put k.threads t _ k.currentThread).reapable = false
    rw [put_other hne.symm]
    exact hkept
  | wait _ t _ _ _ hne =>
    refine hswitch.blockCurrent hidle ?_
    show (put k.threads t _ k.currentThread).reapable = false
    rw [put_other hne.symm]
    exact hkept

/-! ### Exit and termination -/

theorem Slots.reparent (h : k.Slots) (t : ThreadId) :
    (k.reparentChildrenOfExitedProcess t).Slots ∧
      (k.reparentChildrenOfExitedProcess t).resuming = k.resuming := by
  unfold reparentChildrenOfExitedProcess
  split
  · exact ⟨h, rfl⟩
  · rename_i slot _
    obtain ⟨log, heq, -⟩ :=
      k.reparentChildren_spec (k.processes slot).id t
    rw [heq]
    refine ⟨{ h with shape := ?_, first := ?_, main_lt := ?_ }, rfl⟩
    · intro s hs
      dsimp only
      rw [if_pos hs]
      rcases h.shape s hs with hempty | hid
      · rw [hempty]
        exact .inl rfl
      · exact .inr (by rw [adopt_id, hid])
    · dsimp only
      rw [if_pos (by decide), adopt_orphan _ h.first.2.1]
      exact h.first
    · intro s hs u hu
      dsimp only at hu
      rw [if_pos hs, adopt_mainThread] at hu
      exact h.main_lt s hs u hu

theorem WellFormed.exitCurrent (h : k.WellFormed) (hr : k.resuming = none)
    (hidle : k.currentThread ≠ idleThread) (status : Nat) :
    (k.exitCurrent status).WellFormed := by
  unfold Kernel.exitCurrent
  dsimp only
  rw [if_neg (not_or.mpr ⟨h.ne_noThread, hidle⟩)]
  have hended : ((k.updateThread k.currentThread fun t =>
      { t with
        state := .exited
        entry := none
        exitStatus := status
        reapable := !t.isUser }).record
      (.exited k.currentThread status)).Slots := by
    refine Slots.record ?_ _
    exact h.toSlots.updateThread k.currentThread h.current_lt
      (fun heq => absurd heq hidle) rfl rfl rfl fun _ _ => rfl
  have hwoken := hended.woken (woken_wakeJoinWaiters _ k.currentThread)
  obtain ⟨hslots, hresuming⟩ := hwoken.reparent k.currentThread
  refine (hslots.toSwitching ?_ rfl).schedule
  rw [hresuming, (woken_wakeJoinWaiters _ _).resuming]
  exact hr

/-- `terminate_process` ends a thread, which may be the current one. -/
theorem WellFormed.endThread (h : k.WellFormed) {t : ThreadId} (p : ProcessId)
    (hlt : t < maxThreads) (hidle : t ≠ idleThread) :
    (k.endThread p t).WellFormed := by
  have hslots : (k.endThread p t).Slots := by
    refine Slots.record ?_ _
    exact h.toSlots.updateThread t hlt (fun heq => absurd heq hidle) rfl rfl rfl
      fun _ _ => rfl
  refine { hslots with current_kept := fun hne => ?_ }
  show ((put k.threads t _) k.currentThread).reapable = false
  by_cases hcur : k.currentThread = t
  · rw [hcur, put_same]
    have := h.current_kept hne
    rwa [hcur] at this
  · rw [put_other hcur]
    exact h.current_kept hne

/-! ### New threads and processes -/

/-- A new thread in a slot that could be reused. -/
theorem WellFormed.install (h : k.WellFormed) {slot : ThreadId}
    (hslot : k.reusableSlot = some slot) {t : Thread}
    (hcontext : t.context = .trampoline) (hreapable : t.reapable = false)
    (huser : t.isUser = true →
      ∃ i < maxProcesses, t.process = some (i + 1)) :
    (k.install slot t).WellFormed := by
  obtain ⟨hpos, hlt, hexited, hreap⟩ := reusableSlot_some hslot
  have hidle : slot ≠ idleThread := Nat.one_le_iff_ne_zero.mp hpos
  have hcur : slot ≠ k.currentThread := by
    rintro rfl
    rw [h.current_kept hidle] at hreap
    cases hreap
  unfold Kernel.install
  refine WellFormed.woken (WellFormed.record ?_ _) (woken_enqueue _ slot)
  have hself : (k.updateThread slot fun _ => t).threads slot = t := put_same _ _ _
  have hother : ∀ u, u ≠ slot →
      (k.updateThread slot fun _ => t).threads u = k.threads u :=
    fun u hu => put_other hu
  have hctx : ∀ w c, (k.updateThread slot fun _ => t).contextOf w = some c →
      c = .trampoline ∨ k.contextOf w = some c := by
    intro w c hc
    unfold contextOf at hc ⊢
    by_cases hw : w = slot
    · rw [hw, hself] at hc
      have hc' : (if slot = k.currentThread then k.resuming
        else some t.context) = some c := hc
      rw [if_neg hcur, hcontext] at hc'
      exact .inl (Option.some.inj hc').symm
    · rw [hother w hw] at hc
      exact .inr hc
  refine { h with
    waits := fun w p u hw => ?_
    userProcess := fun u hu => ?_
    beyond := fun u hu => ?_
    idle := ?_
    reapable := fun u hu hr => ?_
    joins := fun w c u hw hjoins => ?_
    current_kept := fun hne => ?_ }
  · rcases hctx w _ hw with hc | hc
    · cases hc
    · exact h.waits w p u hc
  · by_cases heq : u = slot
    · rw [heq, hself] at hu ⊢
      exact huser hu
    · rw [hother u heq] at hu ⊢
      exact h.userProcess u hu
  · rw [hother u (Nat.ne_of_gt (Nat.lt_of_lt_of_le hlt hu))]
    exact h.beyond u hu
  · rw [hother _ hidle.symm]
    exact h.idle
  · by_cases heq : u = slot
    · rw [heq, hself, hreapable] at hr
      cases hr
    · rw [hother u heq] at hr ⊢
      exact h.reapable u hu hr
  · rcases hctx w c hw with hc | hc
    · rw [hc] at hjoins
      cases hjoins
    · exact h.joins w c u hc hjoins
  · show ((k.updateThread slot fun _ => t).threads k.currentThread).reapable = _
    rw [hother _ hcur.symm]
    exact h.current_kept hne

theorem WellFormed.handed (h : k.WellFormed) {slot : ThreadId}
    {entry : Option Nat} {process : Option ProcessId} {isUser : Bool}
    (hprocess : isUser = true → ∃ i < maxProcesses, process = some (i + 1))
    (hk' : k.Handed slot entry process isUser k') : k'.WellFormed := by
  obtain ⟨k₁, userContext, ownsUserStack, hq, hslot, rfl⟩ := hk'
  refine (h.quiet hq).install ?_ rfl rfl hprocess
  rw [hq.reusableSlot, hslot]

theorem WellFormed.createProcess (h : k.WellFormed) {space : Nat}
    {p : ProcessId} (hk' : k.createProcess space = (some p, k')) :
    k'.WellFormed := by
  obtain ⟨slot, hpos, -, rfl, -, rfl⟩ := createProcess_some hk'
  exact (h.setRecord hpos (.inr rfl) fun t ht => by cases ht).record _

theorem WellFormed.recorded (h : k.WellFormed) {p : ProcessId}
    (hk' : k.Recorded p k') : k'.WellFormed := by
  obtain ⟨k₁, k₂, space, h₁, h₂, h₃⟩ := hk'
  exact ((h.quiet h₁).createProcess h₂).quiet h₃

theorem Recorded.slot {p : ProcessId} (hk' : k.Recorded p k') :
    ∃ slot, 1 ≤ slot ∧ slot < maxProcesses ∧ p = slot + 1 ∧
      (k.processes slot).id = noThread ∧ ∃ space,
        k'.processes = put k.processes slot
          { id := p, addressSpace := space, parent := k.currentProcess,
            mainThread := none } := by
  obtain ⟨k₁, k₂, space, h₁, h₂, h₃⟩ := hk'
  obtain ⟨slot, hpos, hlt, hp, hid, rfl⟩ := createProcess_some h₂
  refine ⟨slot, hpos, hlt, hp, by rw [← hid, h₁.processes], space, ?_⟩
  rw [h₃.processes]
  show put k₁.processes slot _ = _
  have hcur : k₁.currentProcess = k.currentProcess := by
    unfold Kernel.currentProcess
    rw [h₁.currentThread, h₁.process]
  rw [h₁.processes, hcur]

theorem Handed.reusableSlot {slot : ThreadId} {entry : Option Nat}
    {process : Option ProcessId} {isUser : Bool}
    (hk' : k.Handed slot entry process isUser k') :
    k.reusableSlot = some slot := by
  obtain ⟨-, -, -, -, hslot, -⟩ := hk'
  exact hslot

theorem Recorded.reusableSlot {p : ProcessId} (hk' : k.Recorded p k') :
    k'.reusableSlot = k.reusableSlot := by
  obtain ⟨k₁, k₂, space, h₁, h₂, h₃⟩ := hk'
  obtain ⟨slot, -, -, -, -, rfl⟩ := createProcess_some h₂
  rw [h₃.reusableSlot]
  exact h₁.reusableSlot

theorem WellFormed.setProcessMainThread (h : k.WellFormed) {p : ProcessId}
    (hp : p ≠ userProcessId) (hpid : p ≠ noThread) {t : ThreadId} (hpos : 1 ≤ t)
    (hlt : t < maxThreads) : (k.setProcessMainThread p t).WellFormed := by
  unfold Kernel.setProcessMainThread
  split
  · exact h
  · rename_i slot hfind
    obtain ⟨hslot, hid⟩ := findRecord_some hfind
    have hid' : (k.processes slot).id = p := beq_iff_eq.mp hid
    refine (h.setRecord ?_ (.inr ?_) fun u hu => ?_).record _
    · rw [Nat.one_le_iff_ne_zero]
      rintro rfl
      rw [h.first.1] at hid'
      exact hp hid'.symm
    · rcases h.shape slot hslot with hempty | hshape
      · rw [hempty] at hid'
        exact absurd hid'.symm hpid
      · exact hshape
    · obtain rfl := Option.some.inj hu
      exact ⟨hpos, hlt⟩

/-! ### Runs -/

/-- Every step keeps the invariant. -/
theorem WellFormed.step (h : k.WellFormed) {a : Action}
    (hstep : k.step a = some k') : k'.WellFormed := by
  cases step_effect h.idle.1 hstep with
  | quiet hq => exact h.quiet hq
  | woken hr hw hq => exact (h.woken hw.woken).quiet hq
  | resumed hr hlive hq => exact h.clear.quiet hq
  | joined hr hexited hq => exact (h.leaveJoin hr rfl hexited).quiet hq
  | @waited p t _ hr hexited hq =>
    have hcur : k.contextOf k.currentThread = some (.waiting p t) := by
      rw [contextOf, if_pos rfl, hr]
    obtain ⟨slot, hpos, -, rfl⟩ := h.waits _ _ _ hcur
    have hp : slot + 1 ≠ userProcessId := by unfold userProcessId; omega
    exact ((h.leaveJoin hr rfl hexited).collect hp _ _).quiet hq
  | yielded hr => exact h.yieldNow hr
  | exited status hr hidle => exact h.exitCurrent hr hidle status
  | blocked hr hidle hreg => exact h.blocked hr hidle hreg
  | reaped hr hlt hne hexited hq =>
    exact (h.markReapable hlt hne hexited).quiet hq
  | @collected _ p t slot _ hr hchild hlt hne hexited hq =>
    obtain ⟨hpos, rfl⟩ := h.child_ne hchild
    have hp : slot + 1 ≠ userProcessId := by unfold userProcessId; omega
    exact ((h.markReapable hlt hne hexited).collect hp _ _).quiet hq
  | @terminated p t slot _ hr hchild hlookup hlive hq =>
    obtain ⟨hpos, hlt⟩ := h.main_lt slot hchild.slot_lt t hchild.main_eq
    exact ((h.endThread p hlt (Nat.one_le_iff_ne_zero.mp hpos)).woken
      (woken_wakeJoinWaiters _ _)).quiet hq
  | handed hr hspawns hkind hprocess hhanded hq =>
    refine (h.handed (fun huser => ⟨0, by decide, ?_⟩) hhanded).quiet hq
    rw [hprocess, if_pos huser]
    rfl
  | recorded hr huser hrec => exact h.recorded hrec
  | @spawned _ _ _ p slot k₁ k₂ _ hr huser hrec hhanded hq =>
    obtain ⟨i, hpos, hlt, rfl, -⟩ := hrec.slot
    have hslot : 1 ≤ slot ∧ slot < maxThreads := by
      obtain ⟨-, -, -, -, hslot, -⟩ := hhanded
      obtain ⟨h1, h2, -⟩ := reusableSlot_some hslot
      exact ⟨h1, h2⟩
    have hp : i + 1 ≠ userProcessId ∧ i + 1 ≠ noThread := by
      unfold maxProcesses maxThreads at hlt
      unfold userProcessId noThread
      omega
    have hk₂ := (h.recorded hrec).handed (fun _ => ⟨i, hlt, rfl⟩) hhanded
    exact (hk₂.setProcessMainThread hp.1 hp.2 hslot.1 hslot.2).quiet hq

end Step

end Kernel

end OpenKernel
