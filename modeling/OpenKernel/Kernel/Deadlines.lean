import OpenKernel.Kernel.Registrations

/-!
# Deadlines

A timed entry holds the count of ticks at which it is due, modulo `2 ^ 64`.
Between two timer interrupts no call changes an entry, except that
`syscall_futex_wake` takes out what it wakes.  An interrupt takes out the
entries that are due, and no others, since a deadline is never `2 ^ 63` ticks
away.  So an entry goes with the `n`-th interrupt after its call, for the `n`
of its timeout (`timers_fire`).
-/

namespace OpenKernel.Kernel

open Lib

/-! ## Between two interrupts -/

/-- The clock and the two tables are the same. -/
structure SameTimers (k k' : Kernel) : Prop where
  timerTicks : k'.timerTicks = k.timerTicks
  sleepers : k'.sleepers = k.sleepers
  futexWaiters : k'.futexWaiters = k.futexWaiters

section SameTimers

variable {k k' k'' : Kernel}

theorem SameTimers.refl (k : Kernel) : SameTimers k k := ⟨rfl, rfl, rfl⟩

theorem SameTimers.trans (h : SameTimers k k') (h' : SameTimers k' k'') :
    SameTimers k k'' :=
  ⟨h'.timerTicks.trans h.timerTicks, h'.sleepers.trans h.sleepers,
    h'.futexWaiters.trans h.futexWaiters⟩

theorem sameTimers_quiet (h : Quiet k k') : SameTimers k k' :=
  ⟨h.timerTicks, h.sleepers, h.futexWaiters⟩

theorem sameTimers_wake (k : Kernel) (t : ThreadId) : SameTimers k (k.wake t).2 := by
  obtain ⟨hsleepers, hfutexes, hticks⟩ := k.wake_tables t
  exact ⟨hticks, hsleepers, hfutexes⟩

theorem sameTimers_makeReady (k : Kernel) (t : ThreadId) : SameTimers k (k.makeReady t) := by
  obtain ⟨hsleepers, hfutexes, hticks⟩ := k.makeReady_tables t
  exact ⟨hticks, hsleepers, hfutexes⟩

theorem sameTimers_schedule (k : Kernel) (saved : Context) :
    SameTimers k (k.scheduleFromCurrent saved) := by
  obtain ⟨hd, -⟩ := k.schedule_spec saved
  exact ⟨hd.timerTicks, hd.sleepers, hd.futexWaiters⟩

theorem sameTimers_enqueue (k : Kernel) (t : ThreadId) : SameTimers k (k.enqueue t) := by
  unfold enqueue
  split <;> exact ⟨rfl, rfl, rfl⟩

theorem sameTimers_markReapable (k : Kernel) (t : ThreadId) :
    SameTimers k (k.markReapable t) := by
  unfold markReapable
  split <;> exact ⟨rfl, rfl, rfl⟩

theorem sameTimers_leaveJoin (k : Kernel) (t : ThreadId) : SameTimers k (k.leaveJoin t) := by
  refine SameTimers.trans ?_ (sameTimers_markReapable _ t)
  unfold dropJoinWaiter
  split <;> exact ⟨rfl, rfl, rfl⟩

theorem sameTimers_collect (k : Kernel) (p : ProcessId) (t : ThreadId) (status : Nat) :
    SameTimers k (k.collect p t status) := by
  unfold collect
  dsimp only
  split <;> exact ⟨rfl, rfl, rfl⟩

theorem sameTimers_wakeJoinWaiters (k : Kernel) (t : ThreadId) :
    SameTimers k (k.wakeJoinWaiters t) := by
  have hfold : ∀ (indices : List Nat) (task : Thread) (k : Kernel), SameTimers k
      (indices.foldl (fun k index => k.makeReady (task.joinWaiters index)) k) := by
    intro indices task
    induction indices with
    | nil => exact .refl
    | cons index indices ih =>
      intro k
      exact (k.sameTimers_makeReady _).trans (ih _)
  exact hfold _ _ k

theorem sameTimers_reparent (k : Kernel) (t : ThreadId) :
    SameTimers k (k.reparentChildrenOfExitedProcess t) := by
  unfold reparentChildrenOfExitedProcess
  split
  · exact .refl k
  · rename_i slot _
    obtain ⟨log, heq, -⟩ := k.reparentChildren_spec (k.processes slot).id t
    rw [heq]
    exact ⟨rfl, rfl, rfl⟩

theorem sameTimers_yieldNow (k : Kernel) : SameTimers k k.yieldNow := by
  unfold yieldNow
  dsimp only
  split
  · exact .refl k
  · split
    · exact k.sameTimers_schedule _
    · refine SameTimers.trans ?_ (sameTimers_schedule _ _)
      refine SameTimers.trans ?_ (sameTimers_enqueue _ _)
      exact ⟨rfl, rfl, rfl⟩

theorem sameTimers_blockCurrent (k : Kernel) (saved : Context) :
    SameTimers k (k.blockCurrent saved) := by
  unfold blockCurrent
  dsimp only
  split
  · exact ⟨rfl, rfl, rfl⟩
  · refine SameTimers.trans ?_ (sameTimers_schedule _ _)
    exact ⟨rfl, rfl, rfl⟩

theorem sameTimers_exitCurrent (k : Kernel) (status : Nat) :
    SameTimers k (k.exitCurrent status) := by
  unfold exitCurrent
  dsimp only
  split
  · exact .refl k
  · refine SameTimers.trans ?_ (sameTimers_schedule _ _)
    refine SameTimers.trans ?_ (sameTimers_reparent _ _)
    refine SameTimers.trans ?_ (sameTimers_wakeJoinWaiters _ _)
    exact ⟨rfl, rfl, rfl⟩

theorem sameTimers_handed {slot : ThreadId} {entry : Option Nat}
    {process : Option ProcessId} {isUser : Bool}
    (h : k.Handed slot entry process isUser k') : SameTimers k k' := by
  obtain ⟨k₁, userContext, ownsUserStack, hq, -, rfl⟩ := h
  refine (sameTimers_quiet hq).trans ?_
  unfold install
  refine SameTimers.trans ?_ (sameTimers_enqueue _ slot)
  exact ⟨rfl, rfl, rfl⟩

theorem sameTimers_recorded {p : ProcessId} (h : k.Recorded p k') : SameTimers k k' := by
  obtain ⟨k₁, k₂, space, hq, hcreate, hq'⟩ := h
  obtain ⟨slot, -, -, -, -, rfl⟩ := createProcess_some hcreate
  refine ((sameTimers_quiet hq).trans ?_).trans (sameTimers_quiet hq')
  exact ⟨rfl, rfl, rfl⟩

theorem sameTimers_setMain (k : Kernel) (p : ProcessId) (t : ThreadId) :
    SameTimers k (k.setProcessMainThread p t) := by
  unfold setProcessMainThread
  split <;> exact ⟨rfl, rfl, rfl⟩

end SameTimers

/-- Entries stay, and the clock does. -/
structure KeepsEntries (k k' : Kernel) : Prop where
  timerTicks : k'.timerTicks = k.timerTicks
  sleepers : ∀ index e, k.sleepers index = some e → k'.sleepers index = some e
  futexWaiters : ∀ index e, k.futexWaiters index = some e → k'.futexWaiters index = some e

section Steps

variable {k k' k'' : Kernel}

theorem SameTimers.keeps (h : SameTimers k k') : KeepsEntries k k' where
  timerTicks := h.timerTicks
  sleepers index e he := by rwa [h.sleepers]
  futexWaiters index e he := by rwa [h.futexWaiters]

/-- A table with an entry in a place that was free. -/
theorem put_some_of_none {α : Type} {table : Nat → Option α} {index i : Nat} {e x : α}
    (hfree : table index = none) (he : table i = some e) :
    put table index (some x) i = some e := by
  have hne : i ≠ index := by
    rintro rfl
    rw [hfree] at he
    cases he
  rw [put_other hne, he]

theorem keepsEntries_registers {a : Action} {c : Context} (h : k.Registers a c k') :
    KeepsEntries k k' := by
  cases h with
  | raw => exact (SameTimers.refl k).keeps
  | sleep milliseconds index due hlt hfree =>
    exact ⟨rfl, fun i e he => put_some_of_none hfree he, fun i e he => he⟩
  | futex actual expected timeout index address due hlt hfree =>
    exact ⟨rfl, fun i e he => he, fun i e he => put_some_of_none hfree he⟩
  | join t | wait _ t => exact SameTimers.keeps ⟨rfl, rfl, rfl⟩

/-- Only the clock, and calls of `syscall_futex_wake`, take an entry out. -/
theorem step_keepsEntries (hw : k.WellFormed) {a : Action} (hstep : k.step a = some k')
    (htick : a ≠ .tick) (hwake : ∀ address count, a ≠ .futexWake address count) :
    KeepsEntries k k' := by
  cases step_effect hw.idle.1 hstep with
  | quiet hq => exact (sameTimers_quiet hq).keeps
  | woken _ hwakes hq =>
    cases hwakes with
    | tick => exact absurd rfl htick
    | futex address count => exact absurd rfl (hwake address count)
    | wake t => exact ((k.sameTimers_wake t).trans (sameTimers_quiet hq)).keeps
  | resumed _ _ hq =>
    have hclear : SameTimers k { k with resuming := none } := ⟨rfl, rfl, rfl⟩
    exact (hclear.trans (sameTimers_quiet hq)).keeps
  | joined _ _ hq => exact ((k.sameTimers_leaveJoin _).trans (sameTimers_quiet hq)).keeps
  | waited _ _ hq =>
    exact (((k.sameTimers_leaveJoin _).trans (sameTimers_collect _ _ _ _)).trans
      (sameTimers_quiet hq)).keeps
  | yielded => exact k.sameTimers_yieldNow.keeps
  | exited status => exact (k.sameTimers_exitCurrent status).keeps
  | blocked _ _ hreg =>
    have hblock := sameTimers_blockCurrent
    have hkeeps := keepsEntries_registers hreg
    refine ⟨(hblock _ _).timerTicks.trans hkeeps.timerTicks, fun i e he => ?_,
      fun i e he => ?_⟩
    · rw [(hblock _ _).sleepers]
      exact hkeeps.sleepers i e he
    · rw [(hblock _ _).futexWaiters]
      exact hkeeps.futexWaiters i e he
  | reaped _ _ _ _ hq => exact ((k.sameTimers_markReapable _).trans (sameTimers_quiet hq)).keeps
  | collected _ _ _ _ _ hq =>
    exact (((k.sameTimers_markReapable _).trans (sameTimers_collect _ _ _ _)).trans
      (sameTimers_quiet hq)).keeps
  | @terminated p t _ _ _ _ _ _ hq =>
    have hended : SameTimers k (k.endThread p t) := ⟨rfl, rfl, rfl⟩
    exact ((hended.trans (sameTimers_wakeJoinWaiters _ t)).trans (sameTimers_quiet hq)).keeps
  | handed _ _ _ _ hhanded hq =>
    exact ((sameTimers_handed hhanded).trans (sameTimers_quiet hq)).keeps
  | recorded _ _ hrec => exact (sameTimers_recorded hrec).keeps
  | spawned _ _ hrec hhanded hq =>
    exact ((((sameTimers_recorded hrec).trans (sameTimers_handed hhanded)).trans
      (sameTimers_setMain _ _ _)).trans (sameTimers_quiet hq)).keeps

end Steps

/-! ## An interrupt -/

/-- A turn of a loop takes the entry at its index out, if it is due, and then
wakes its thread. -/
structure Expires {α : Type} (slot : Kernel → Nat → Option α) (due : Nat → α → Bool)
    (thread : α → ThreadId) (turn : Kernel → Nat → Kernel) : Prop where
  woken : ∀ k index, Woken k (turn k index)
  timerTicks : ∀ k index, (turn k index).timerTicks = k.timerTicks
  other : ∀ k index i, i ≠ index → slot (turn k index) i = slot k i
  self : ∀ k index, slot (turn k index) index =
    (slot k index).filter fun e => !due k.ticks e
  wakes : ∀ k index e, slot k index = some e → due k.ticks e = true →
    thread e < maxThreads → ((turn k index).threads (thread e)).state ≠ .blocked

section Loops

variable {α : Type} {slot : Kernel → Nat → Option α} {due : Nat → α → Bool}
  {thread : α → ThreadId} {turn : Kernel → Nat → Kernel}

/-- A thread that does not wait does not begin to. -/
theorem not_blocked_of_woken {k k' : Kernel} (h : Woken k k') {t : ThreadId}
    (ht : (k.threads t).state ≠ .blocked) : (k'.threads t).state ≠ .blocked := by
  rcases h.state t with heq | ⟨hblocked, -⟩
  · rwa [heq]
  · exact absurd hblocked ht

/-- The loop takes out what is due, and wakes it. -/
theorem Expires.loop (h : Expires slot due thread turn) (k : Kernel) (n : Nat) :
    ((List.range n).foldl turn k).timerTicks = k.timerTicks ∧
      (∀ index, slot ((List.range n).foldl turn k) index =
        if index < n then (slot k index).filter fun e => !due k.ticks e
        else slot k index) ∧
      ∀ index < n, ∀ e, slot k index = some e → due k.ticks e = true →
        thread e < maxThreads →
          (((List.range n).foldl turn k).threads (thread e)).state ≠ .blocked := by
  induction n with
  | zero => exact ⟨rfl, fun _ => rfl, fun index hlt => absurd hlt (Nat.not_lt_zero index)⟩
  | succ n ih =>
    obtain ⟨hticks, hslot, hwakes⟩ := ih
    rw [List.range_succ, List.foldl_append, List.foldl_cons, List.foldl_nil]
    generalize (List.range n).foldl turn k = k₁ at *
    have hnow : k₁.ticks = k.ticks := by
      unfold ticks
      rw [hticks]
    have hsame : slot k₁ n = slot k n := by
      rw [hslot, if_neg (Nat.lt_irrefl n)]
    refine ⟨(h.timerTicks k₁ n).trans hticks, fun index => ?_, fun index hlt e he hdue ht => ?_⟩
    · by_cases hindex : index = n
      · rw [hindex, h.self, hsame, hnow, if_pos (Nat.lt_succ_self n)]
      · rw [h.other k₁ n index hindex, hslot]
        have hiff : index < n ↔ index < n + 1 := by omega
        simp only [hiff]
    · rcases Nat.lt_succ_iff_lt_or_eq.mp hlt with hbefore | rfl
      · exact not_blocked_of_woken (h.woken k₁ n) (hwakes index hbefore e he hdue ht)
      · exact h.wakes k₁ index e (hsame.trans he) (by rwa [hnow]) ht

end Loops

/-- A wake leaves its thread awake. -/
theorem not_blocked_wake (k : Kernel) {t : ThreadId} (ht : t < maxThreads) :
    ((k.wake t).2.threads t).state ≠ .blocked := by
  unfold wake
  by_cases hblocked : (k.threads t).state = .blocked
  · have hwakes : ¬ (maxThreads ≤ t ∨ (k.threads t).state ≠ .blocked) :=
      not_or.mpr ⟨Nat.not_le_of_lt ht, not_not_intro hblocked⟩
    rw [if_neg hwakes]
    show ((k.makeReady t).threads t).state ≠ _
    unfold makeReady
    rw [if_pos hblocked, ((k.setState t .ready).enqueue_fields t).1]
    show (put k.threads t _ t).state ≠ _
    rw [put_same]
    exact fun heq => nomatch heq
  · rw [if_pos (.inr hblocked)]
    exact hblocked

section Turns

variable {k : Kernel} {index : Nat}

theorem expireSleeper_of_due {e : Sleeper} (he : k.sleepers index = some e)
    (hdue : reached k.ticks e.deadline = true) :
    k.expireSleeper index =
      ({ k with sleepers := put k.sleepers index none }.wake e.thread).2 := by
  unfold expireSleeper
  rw [he]
  exact if_pos hdue

theorem expireSleeper_of_not_due
    (h : ∀ e, k.sleepers index = some e → reached k.ticks e.deadline = false) :
    k.expireSleeper index = k := by
  unfold expireSleeper
  cases he : k.sleepers index with
  | none => rfl
  | some e => exact if_neg (Bool.eq_false_iff.mp (h e he))

theorem expireFutex_of_due {e : FutexWaiter} (he : k.futexWaiters index = some e)
    (hdue : e.deadline.any (reached k.ticks) = true) :
    k.expireFutex index =
      ({ k with futexWaiters := put k.futexWaiters index none }.wake e.thread).2 := by
  unfold expireFutex
  rw [he]
  exact if_pos hdue

theorem expireFutex_of_not_due
    (h : ∀ e, k.futexWaiters index = some e → e.deadline.any (reached k.ticks) = false) :
    k.expireFutex index = k := by
  unfold expireFutex
  cases he : k.futexWaiters index with
  | none => rfl
  | some e => exact if_neg (Bool.eq_false_iff.mp (h e he))

/-- An entry is due, or the turn does nothing. -/
theorem expireSleeper_cases (k : Kernel) (index : Nat) :
    (∃ e, k.sleepers index = some e ∧ reached k.ticks e.deadline = true) ∨
      k.expireSleeper index = k ∧
        ∀ e, k.sleepers index = some e → reached k.ticks e.deadline = false := by
  by_cases h : ∃ e, k.sleepers index = some e ∧ reached k.ticks e.deadline = true
  · exact .inl h
  · have hnot : ∀ e, k.sleepers index = some e → reached k.ticks e.deadline = false :=
      fun e he => Bool.eq_false_iff.mpr fun hdue => h ⟨e, he, hdue⟩
    exact .inr ⟨expireSleeper_of_not_due hnot, hnot⟩

theorem expireFutex_cases (k : Kernel) (index : Nat) :
    (∃ e, k.futexWaiters index = some e ∧ e.deadline.any (reached k.ticks) = true) ∨
      k.expireFutex index = k ∧
        ∀ e, k.futexWaiters index = some e → e.deadline.any (reached k.ticks) = false := by
  by_cases h : ∃ e, k.futexWaiters index = some e ∧ e.deadline.any (reached k.ticks) = true
  · exact .inl h
  · have hnot : ∀ e, k.futexWaiters index = some e →
        e.deadline.any (reached k.ticks) = false :=
      fun e he => Bool.eq_false_iff.mpr fun hdue => h ⟨e, he, hdue⟩
    exact .inr ⟨expireFutex_of_not_due hnot, hnot⟩

/-- An entry that passes the test stays. -/
theorem filter_eq_self {α : Type} {o : Option α} {test : α → Bool}
    (h : ∀ e, o = some e → test e = true) : o.filter test = o := by
  cases o with
  | none => rfl
  | some e => rw [Option.filter_some, if_pos (h e rfl)]

end Turns

theorem expires_sleepers : Expires (fun k => k.sleepers)
    (fun now e => reached now e.deadline) Sleeper.thread expireSleeper where
  woken := woken_expireSleeper
  timerTicks k index := (k.expireSleeper_table index).1
  other k index := (k.expireSleeper_table index).2.1
  self k index := by
    rcases k.expireSleeper_cases index with ⟨e, he, hdue⟩ | ⟨heq, hnot⟩
    · rw [expireSleeper_of_due he hdue, (sameTimers_wake _ e.thread).sleepers, he,
        Option.filter_some, hdue]
      exact put_same _ _ _
    · rw [heq]
      refine (filter_eq_self fun e he => ?_).symm
      rw [hnot e he]
      rfl
  wakes k index e he hdue ht := by
    rw [expireSleeper_of_due he hdue]
    exact not_blocked_wake _ ht

theorem expires_futexes : Expires (fun k => k.futexWaiters)
    (fun now e => e.deadline.any (reached now)) FutexWaiter.thread expireFutex where
  woken := woken_expireFutex
  timerTicks k index := by
    rcases k.expireFutex_cases index with ⟨e, he, hdue⟩ | ⟨heq, -⟩
    · rw [expireFutex_of_due he hdue]
      exact (sameTimers_wake _ _).timerTicks
    · rw [heq]
  other k index i hi := by
    rcases k.expireFutex_cases index with ⟨e, he, hdue⟩ | ⟨heq, -⟩
    · rw [expireFutex_of_due he hdue, (sameTimers_wake _ _).futexWaiters]
      exact put_other hi
    · rw [heq]
  self k index := by
    rcases k.expireFutex_cases index with ⟨e, he, hdue⟩ | ⟨heq, hnot⟩
    · rw [expireFutex_of_due he hdue, (sameTimers_wake _ e.thread).futexWaiters, he,
        Option.filter_some, hdue]
      exact put_same _ _ _
    · rw [heq]
      refine (filter_eq_self fun e he => ?_).symm
      rw [hnot e he]
      rfl
  wakes k index e he hdue ht := by
    rw [expireFutex_of_due he hdue]
    exact not_blocked_wake _ ht

section Tick

variable {k : Kernel} {index : Nat}

/-- The state in which the loops of an interrupt start. -/
def clocked (k : Kernel) : Kernel := { k with timerTicks := k.timerTicks + 1 }

theorem tick_eq (k : Kernel) : k.tick = k.clocked.wakeExpiredSleepers.wakeExpiredFutexes := rfl

theorem sameFutexes_expireSleeper (k : Kernel) (index : Nat) :
    (k.expireSleeper index).futexWaiters = k.futexWaiters := by
  rcases k.expireSleeper_cases index with ⟨e, he, hdue⟩ | ⟨heq, -⟩
  · rw [expireSleeper_of_due he hdue]
    exact (sameTimers_wake _ _).futexWaiters
  · rw [heq]

theorem sameSleepers_expireFutex (k : Kernel) (index : Nat) :
    (k.expireFutex index).sleepers = k.sleepers := by
  rcases k.expireFutex_cases index with ⟨e, he, hdue⟩ | ⟨heq, -⟩
  · rw [expireFutex_of_due he hdue]
    exact (sameTimers_wake _ _).sleepers
  · rw [heq]

/-- A loop that leaves a table in each turn leaves it. -/
theorem foldl_same {σ β γ : Type} (table : σ → β) {turn : σ → γ → σ}
    (h : ∀ s x, table (turn s x) = table s) (xs : List γ) (s : σ) :
    table (xs.foldl turn s) = table s := by
  induction xs generalizing s with
  | nil => rfl
  | cons x xs ih => exact (ih (turn s x)).trans (h s x)

theorem wakeExpiredSleepers_ticks (k : Kernel) :
    k.wakeExpiredSleepers.timerTicks = k.timerTicks :=
  (expires_sleepers.loop k maxSleepers).1

theorem tick_timerTicks (k : Kernel) : k.tick.timerTicks = k.timerTicks + 1 := by
  rw [tick_eq]
  have hfutexes := (expires_futexes.loop k.clocked.wakeExpiredSleepers maxFutexWaiters).1
  exact hfutexes.trans (wakeExpiredSleepers_ticks k.clocked)

/-- What an interrupt does to an entry of `SLEEPERS`. -/
theorem tick_sleeper (k : Kernel) (hindex : index < maxSleepers) :
    k.tick.sleepers index =
      (k.sleepers index).filter fun e => !reached k.clocked.ticks e.deadline := by
  have hloop := (expires_sleepers.loop k.clocked maxSleepers).2.1 index
  rw [if_pos hindex] at hloop
  have hsame := foldl_same (fun k : Kernel => k.sleepers) sameSleepers_expireFutex
    (List.range maxFutexWaiters) k.clocked.wakeExpiredSleepers
  rw [tick_eq]
  exact (congrFun hsame index).trans hloop

/-- The thread of a sleeper that is due does not wait after the interrupt. -/
theorem tick_wakes_sleeper {e : Sleeper} (hindex : index < maxSleepers)
    (he : k.sleepers index = some e) (hdue : reached k.clocked.ticks e.deadline = true)
    (ht : e.thread < maxThreads) : (k.tick.threads e.thread).state ≠ .blocked := by
  have hloop := (expires_sleepers.loop k.clocked maxSleepers).2.2 index hindex e he hdue ht
  rw [tick_eq]
  exact not_blocked_of_woken (Woken.foldl woken_expireFutex _ _) hloop

theorem wakeExpiredSleepers_futexes (k : Kernel) :
    k.wakeExpiredSleepers.futexWaiters = k.futexWaiters :=
  foldl_same (fun k : Kernel => k.futexWaiters) sameFutexes_expireSleeper _ _

theorem ticks_congr {k k' : Kernel} (h : k'.timerTicks = k.timerTicks) :
    k'.ticks = k.ticks := by
  unfold ticks
  rw [h]

/-- What an interrupt does to an entry of `FUTEX_WAITERS`. -/
theorem tick_futex (k : Kernel) (hindex : index < maxFutexWaiters) :
    k.tick.futexWaiters index = (k.futexWaiters index).filter fun e =>
      !e.deadline.any (reached k.clocked.ticks) := by
  have hloop := (expires_futexes.loop k.clocked.wakeExpiredSleepers
    maxFutexWaiters).2.1 index
  rw [if_pos hindex, wakeExpiredSleepers_futexes,
    ticks_congr (wakeExpiredSleepers_ticks k.clocked)] at hloop
  rw [tick_eq]
  exact hloop

theorem tick_wakes_futex {e : FutexWaiter} (hindex : index < maxFutexWaiters)
    (he : k.futexWaiters index = some e)
    (hdue : e.deadline.any (reached k.clocked.ticks) = true)
    (ht : e.thread < maxThreads) : (k.tick.threads e.thread).state ≠ .blocked := by
  have hloop := (expires_futexes.loop k.clocked.wakeExpiredSleepers
    maxFutexWaiters).2.2 index hindex e
  rw [wakeExpiredSleepers_futexes, ticks_congr (wakeExpiredSleepers_ticks k.clocked)] at hloop
  rw [tick_eq]
  exact hloop he hdue ht

end Tick

/-! ## Runs -/

section Runs

variable {α : Type} {slot : Kernel → Option α} {entry : α} {thread : ThreadId}
  {kept : Kernel → Prop} {k k' : Kernel}

/-- `k'` comes after `n` interrupts, and `kept` holds after each call of
`syscall_futex_wake` on the way. -/
inductive Interrupted (kept : Kernel → Prop) (k : Kernel) : Nat → Kernel → Prop
  | start : Interrupted kept k 0 k
  | tick {n : Nat} {k₁ k₂ : Kernel} (before : Interrupted kept k n k₁)
      (hstep : k₁.step .tick = some k₂) : Interrupted kept k (n + 1) k₂
  | other {n : Nat} {k₁ k₂ : Kernel} {a : Action} (before : Interrupted kept k n k₁)
      (htick : a ≠ .tick) (hkept : ∀ address count, a = .futexWake address count → kept k₂)
      (hstep : k₁.step a = some k₂) : Interrupted kept k n k₂

/-- The entry goes with the `n`-th interrupt after `k` and no earlier one, and
that interrupt wakes the thread, if it waits. -/
def FiresAt (slot : Kernel → Option α) (entry : α) (thread : ThreadId) (n : Nat)
    (kept : Kernel → Prop) (k : Kernel) : Prop :=
  ∀ i k₁, Interrupted kept k i k₁ → (i < n → slot k₁ = some entry) ∧
    (i + 1 = n → ∀ k₂, k₁.step .tick = some k₂ → slot k₂ = none ∧
      ((k₁.threads thread).state = .blocked → (k₂.threads thread).state = .ready))

/-- A step performs its action. -/
theorem step_performs {a : Action} (hstep : k.step a = some k') : k.perform a = some k' := by
  unfold step at hstep
  split at hstep
  · exact hstep
  · cases hstep

theorem step_tick (hstep : k.step .tick = some k') : k' = k.tick :=
  (Option.some.inj (step_performs hstep)).symm

theorem step_futexWake {address count : Nat}
    (hstep : k.step (.futexWake address count) = some k') :
    k'.timerTicks = k.timerTicks ∧ k'.sleepers = k.sleepers := by
  have hturn : ∀ (state : Nat × Kernel) (index : Nat),
      (futexWakeOne address count state index).2.timerTicks = state.2.timerTicks ∧
        (futexWakeOne address count state index).2.sleepers = state.2.sleepers := by
    intro state index
    unfold futexWakeOne
    dsimp only
    split
    · exact ⟨rfl, rfl⟩
    · split
      · exact ⟨(sameTimers_wake _ _).timerTicks, (sameTimers_wake _ _).sleepers⟩
      · exact ⟨rfl, rfl⟩
  have hcall : k' = k.futexWake address count :=
    (Option.some.inj (step_performs hstep)).symm
  rw [hcall]
  unfold futexWake
  split
  · exact ⟨rfl, rfl⟩
  · have hticks := foldl_same (fun s : Nat × Kernel => s.2.timerTicks)
      (fun s index => (hturn s index).1) (List.range maxFutexWaiters) (0, k)
    have hsleepers := foldl_same (fun s : Nat × Kernel => s.2.sleepers)
      (fun s index => (hturn s index).2) (List.range maxFutexWaiters) (0, k)
    exact ⟨hticks, hsleepers⟩

/-- Only an interrupt moves the clock. -/
theorem step_timerTicks (hw : k.WellFormed) {a : Action} (hstep : k.step a = some k')
    (htick : a ≠ .tick) : k'.timerTicks = k.timerTicks := by
  by_cases hwake : ∃ address count, a = .futexWake address count
  · obtain ⟨address, count, rfl⟩ := hwake
    exact (step_futexWake hstep).1
  · push Not at hwake
    exact (step_keepsEntries hw hstep htick hwake).timerTicks

/-- An interrupt takes the entry out when it is due, and wakes its thread. -/
structure Timed (slot : Kernel → Option α) (entry : α) (thread : ThreadId)
    (due : Nat) : Prop where
  stays : ∀ k : Kernel, k.timerTicks + 1 < due → due < k.timerTicks + 2 ^ 63 →
    slot k = some entry → slot k.tick = some entry
  goes : ∀ k : Kernel, k.timerTicks + 1 = due → slot k = some entry →
    slot k.tick = none ∧ (k.tick.threads thread).state ≠ .blocked

/-- What the interrupts so far have done to an entry that is due `n` interrupts
after `k`. -/
theorem Timed.run {n : Nat} (h : Timed slot entry thread (k.timerTicks + n))
    (hsmall : n < 2 ^ 63) (hw : k.WellFormed) (hentry : slot k = some entry)
    (hother : ∀ (k₁ k₂ : Kernel) (a : Action), k₁.WellFormed → a ≠ .tick →
      (∀ address count, a = .futexWake address count → kept k₂) →
      k₁.step a = some k₂ → slot k₁ = some entry → slot k₂ = some entry)
    {i : Nat} {k₁ : Kernel} (hrun : Interrupted kept k i k₁) :
    k₁.WellFormed ∧ k₁.timerTicks = k.timerTicks + i ∧ (i < n → slot k₁ = some entry) := by
  induction hrun with
  | start => exact ⟨hw, rfl, fun _ => hentry⟩
  | @tick i k₁ k₂ before hstep ih =>
    obtain ⟨hw₁, hticks, hslot⟩ := ih
    have htick := step_tick hstep
    refine ⟨hw₁.step hstep, ?_, fun hlt => ?_⟩
    · rw [htick, tick_timerTicks]
      omega
    · rw [htick]
      exact h.stays k₁ (by omega) (by omega) (hslot (Nat.lt_of_succ_lt hlt))
  | @other i k₁ k₂ a before htick hkept hstep ih =>
    obtain ⟨hw₁, hticks, hslot⟩ := ih
    exact ⟨hw₁.step hstep, (step_timerTicks hw₁ hstep htick).trans hticks,
      fun hlt => hother k₁ k₂ a hw₁ htick hkept hstep (hslot hlt)⟩

theorem Timed.fires {n : Nat} (h : Timed slot entry thread (k.timerTicks + n))
    (hsmall : n < 2 ^ 63) (hw : k.WellFormed) (hentry : slot k = some entry)
    (hother : ∀ (k₁ k₂ : Kernel) (a : Action), k₁.WellFormed → a ≠ .tick →
      (∀ address count, a = .futexWake address count → kept k₂) →
      k₁.step a = some k₂ → slot k₁ = some entry → slot k₂ = some entry) :
    FiresAt slot entry thread n kept k := by
  intro i k₁ hrun
  obtain ⟨-, hticks, hslot⟩ := h.run hsmall hw hentry hother hrun
  refine ⟨hslot, fun hlast k₂ hstep => ?_⟩
  rw [step_tick hstep]
  obtain ⟨hgone, hawake⟩ := h.goes k₁ (by omega) (hslot (by omega))
  refine ⟨hgone, fun hblocked => ?_⟩
  rcases (woken_tick k₁).threads thread with heq | ⟨-, heq⟩
  · rw [heq] at hawake
    exact absurd hblocked hawake
  · rw [heq]

end Runs

/-! ## The two calls -/

section Calls

variable {k k' : Kernel} {thread : ThreadId} {index : Nat}

/-- Whether an interrupt finds a deadline reached. -/
theorem clocked_reached {due : Nat} (hle : k.timerTicks + 1 ≤ due)
    (hsoon : due < k.timerTicks + 2 ^ 63) :
    reached k.clocked.ticks (due % 2 ^ 64) = true ↔ due = k.timerTicks + 1 := by
  have hnow : k.clocked.ticks = (k.timerTicks + 1) % 2 ^ 64 := rfl
  rw [hnow]
  exact reached_iff hle (by omega)

theorem timed_sleeper {due : Nat} (hindex : index < maxSleepers)
    (hthread : thread < maxThreads) :
    Timed (fun k => k.sleepers index) { thread, deadline := due % 2 ^ 64 } thread due where
  stays k hlater hsoon hentry := by
    have hnot : reached k.clocked.ticks (due % 2 ^ 64) = false := by
      rw [← Bool.not_eq_true, clocked_reached (Nat.le_of_lt hlater) hsoon]
      omega
    show k.tick.sleepers index = _
    rw [k.tick_sleeper hindex, hentry]
    apply filter_eq_self
    intro e he
    rw [← Option.some.inj he, hnot]
    rfl
  goes k hdue hentry := by
    have hreached : reached k.clocked.ticks (due % 2 ^ 64) = true := by
      rw [clocked_reached (by omega) (by omega)]
      exact hdue.symm
    constructor
    · show k.tick.sleepers index = _
      rw [k.tick_sleeper hindex, hentry, Option.filter_some, hreached]
      rfl
    · exact tick_wakes_sleeper hindex hentry hreached hthread

theorem timed_futex {address due : Nat} (hindex : index < maxFutexWaiters)
    (hthread : thread < maxThreads) :
    Timed (fun k => k.futexWaiters index)
      { address, thread, deadline := some (due % 2 ^ 64) } thread due where
  stays k hlater hsoon hentry := by
    have hnot : reached k.clocked.ticks (due % 2 ^ 64) = false := by
      rw [← Bool.not_eq_true, clocked_reached (Nat.le_of_lt hlater) hsoon]
      omega
    have hany : (some (due % 2 ^ 64)).any (reached k.clocked.ticks) = false := by
      rw [Option.any_some, hnot]
    show k.tick.futexWaiters index = _
    rw [k.tick_futex hindex, hentry]
    apply filter_eq_self
    intro e he
    rw [← Option.some.inj he, hany]
    rfl
  goes k hdue hentry := by
    have hreached : reached k.clocked.ticks (due % 2 ^ 64) = true := by
      rw [clocked_reached (by omega) (by omega)]
      exact hdue.symm
    have hany : (some (due % 2 ^ 64)).any (reached k.clocked.ticks) = true := by
      rw [Option.any_some, hreached]
    constructor
    · show k.tick.futexWaiters index = _
      rw [k.tick_futex hindex, hentry, Option.filter_some, hany]
      rfl
    · exact tick_wakes_futex hindex hentry hany hthread

/-- A sleeper stays until an interrupt takes it out. -/
theorem sleeper_stays {e : Sleeper} {a : Action} (hw : k.WellFormed) (htick : a ≠ .tick)
    (hstep : k.step a = some k') (he : k.sleepers index = some e) :
    k'.sleepers index = some e := by
  by_cases hwake : ∃ address count, a = .futexWake address count
  · obtain ⟨address, count, rfl⟩ := hwake
    rwa [(step_futexWake hstep).2]
  · push Not at hwake
    exact (step_keepsEntries hw hstep htick hwake).sleepers index e he

/-- So does a waiter that no `syscall_futex_wake` takes out. -/
theorem futex_stays {e : FutexWaiter} {a : Action} (hw : k.WellFormed) (htick : a ≠ .tick)
    (hkept : ∀ address count, a = .futexWake address count → k'.futexWaiters index = some e)
    (hstep : k.step a = some k') (he : k.futexWaiters index = some e) :
    k'.futexWaiters index = some e := by
  by_cases hwake : ∃ address count, a = .futexWake address count
  · obtain ⟨address, count, ha⟩ := hwake
    exact hkept address count ha
  · push Not at hwake
    exact (step_keepsEntries hw hstep htick hwake).futexWaiters index e he

/-- The state after a sleep that finds a free entry. -/
theorem sleep_entry {milliseconds : Nat} (hpos : 0 < milliseconds)
    (hcurrent : k.currentThread ≠ noThread)
    (hfree : freeEntry k.sleepers maxSleepers = some index) :
    (k.sleep milliseconds).timerTicks = k.timerTicks ∧
      (k.sleep milliseconds).sleepers index =
        some { thread := k.currentThread
               deadline := (k.timerTicks + timeoutTicks milliseconds) % 2 ^ 64 } := by
  unfold sleep
  rw [if_neg (Nat.ne_of_gt hpos), if_neg hcurrent, hfree]
  have hsame := fun k₁ : Kernel => k₁.sameTimers_blockCurrent
    (.sleeping (k.timerTicks + timeoutTicks milliseconds))
  refine ⟨(hsame _).timerTicks, ?_⟩
  rw [(hsame _).sleepers]
  exact put_same _ _ _

/-- The state after a wait with a timeout that finds a free entry. -/
theorem futexWait_entry {address expected timeout : Nat}
    (hvalid : validUserWord address = true) (hfinite : timeout ≠ 2 ^ 64 - 1)
    (hcurrent : k.currentThread ≠ noThread)
    (hfree : freeEntry k.futexWaiters maxFutexWaiters = some index) :
    (k.futexWait address expected expected timeout).timerTicks = k.timerTicks ∧
      (k.futexWait address expected expected timeout).futexWaiters index =
        some { address
               thread := k.currentThread
               deadline := some ((k.timerTicks + timeoutTicks timeout) % 2 ^ 64) } := by
  unfold futexWait
  rw [if_neg (not_not_intro hvalid), if_neg (not_not_intro rfl), if_neg hcurrent,
    if_neg hfinite, hfree]
  have hsame := fun k₁ : Kernel => k₁.sameTimers_blockCurrent
    (.futexWaiting address (some (k.timerTicks + timeoutTicks timeout)))
  refine ⟨(hsame _).timerTicks, ?_⟩
  rw [(hsame _).futexWaiters]
  exact put_same _ _ _

end Calls

/-- The entries of the two tables go with the interrupts that they are due
at, and an entry without a deadline with none. -/
structure TimersFire (k : Kernel) : Prop where
  sleep : ∀ milliseconds index k', 0 < milliseconds →
    freeEntry k.sleepers maxSleepers = some index →
    k.step (.sleep milliseconds) = some k' →
    FiresAt (fun k => k.sleepers index)
      { thread := k.currentThread
        deadline := (k.timerTicks + max 1 (min (milliseconds + 9) (2 ^ 64 - 1) / 10)) % 2 ^ 64 }
      k.currentThread (max 1 (min (milliseconds + 9) (2 ^ 64 - 1) / 10)) (fun _ => True) k'
  futex : ∀ address expected timeout index k' entry, validUserWord address = true →
    timeout ≠ 2 ^ 64 - 1 → freeEntry k.futexWaiters maxFutexWaiters = some index →
    k.step (.futexWait address expected expected timeout) = some k' →
    entry = { address
              thread := k.currentThread
              deadline := some ((k.timerTicks + max 1 (min (timeout + 9) (2 ^ 64 - 1) / 10)) %
                2 ^ 64) } →
    FiresAt (fun k => k.futexWaiters index) entry k.currentThread
      (max 1 (min (timeout + 9) (2 ^ 64 - 1) / 10))
      (fun k₁ => k₁.futexWaiters index = some entry) k'
  endless : ∀ index < maxFutexWaiters, ∀ entry k', k.futexWaiters index = some entry →
    entry.deadline = none → k.step .tick = some k' → k'.futexWaiters index = some entry

theorem timeoutTicks_eq (milliseconds : Nat) :
    timeoutTicks milliseconds = max 1 (min (milliseconds + 9) (2 ^ 64 - 1) / 10) := by
  unfold timeoutTicks
  omega

theorem current_ne_noThread {k : Kernel} (hw : k.WellFormed) : k.currentThread ≠ noThread := by
  intro heq
  have hlt := hw.current_lt
  rw [heq] at hlt
  exact absurd hlt (by decide)

/-- A sleeper goes with the interrupt that it is due at. -/
theorem sleep_fires {k k' : Kernel} {milliseconds index : Nat} (hw : k.WellFormed)
    (hpos : 0 < milliseconds) (hfree : freeEntry k.sleepers maxSleepers = some index)
    (hstep : k.step (.sleep milliseconds) = some k') :
    FiresAt (fun k => k.sleepers index)
      { thread := k.currentThread
        deadline := (k.timerTicks + timeoutTicks milliseconds) % 2 ^ 64 }
      k.currentThread (timeoutTicks milliseconds) (fun _ => True) k' := by
  have hcall : k' = k.sleep milliseconds :=
    (Option.some.inj (step_performs hstep)).symm
  have hw' := hw.step hstep
  have hsmall := (timeoutTicks_bounds milliseconds).2
  obtain ⟨hticks, hentry⟩ := sleep_entry hpos (current_ne_noThread hw) hfree
  rw [← hcall] at hticks hentry
  generalize timeoutTicks milliseconds = n at *
  have htimed : Timed (fun k => k.sleepers index)
      { thread := k.currentThread, deadline := (k.timerTicks + n) % 2 ^ 64 }
      k.currentThread (k.timerTicks + n) :=
    timed_sleeper (freeEntry_some hfree).1 hw.current_lt
  rw [← hticks] at hentry htimed ⊢
  exact htimed.fires hsmall hw' hentry fun _ _ _ hw₁ htick _ => sleeper_stays hw₁ htick

/-- So does a waiter with a timeout, unless `syscall_futex_wake` takes it out. -/
theorem futexWait_fires {k k' : Kernel} {address expected timeout index : Nat}
    (hw : k.WellFormed) (hvalid : validUserWord address = true)
    (hfinite : timeout ≠ 2 ^ 64 - 1)
    (hfree : freeEntry k.futexWaiters maxFutexWaiters = some index)
    (hstep : k.step (.futexWait address expected expected timeout) = some k') :
    FiresAt (fun k => k.futexWaiters index)
      { address
        thread := k.currentThread
        deadline := some ((k.timerTicks + timeoutTicks timeout) % 2 ^ 64) }
      k.currentThread (timeoutTicks timeout)
      (fun k₁ => k₁.futexWaiters index = some
        { address
          thread := k.currentThread
          deadline := some ((k.timerTicks + timeoutTicks timeout) % 2 ^ 64) }) k' := by
  have hcall : k' = k.futexWait address expected expected timeout :=
    (Option.some.inj (step_performs hstep)).symm
  have hw' := hw.step hstep
  have hsmall := (timeoutTicks_bounds timeout).2
  obtain ⟨hticks, hentry⟩ := futexWait_entry hvalid hfinite (current_ne_noThread hw) hfree
  rw [← hcall] at hticks hentry
  generalize timeoutTicks timeout = n at *
  have htimed : Timed (fun k => k.futexWaiters index)
      { address
        thread := k.currentThread
        deadline := some ((k.timerTicks + n) % 2 ^ 64) }
      k.currentThread (k.timerTicks + n) :=
    timed_futex (freeEntry_some hfree).1 hw.current_lt
  rw [← hticks] at hentry htimed ⊢
  exact htimed.fires hsmall hw' hentry fun _ _ _ hw₁ htick hkept =>
    futex_stays hw₁ htick hkept

/-- Timers fire at the right interrupt, whatever the clock and the other
entries are. -/
theorem timers_fire {k : Kernel} (hw : k.WellFormed) : k.TimersFire where
  sleep milliseconds index k' hpos hfree hstep := by
    rw [← timeoutTicks_eq milliseconds]
    exact sleep_fires hw hpos hfree hstep
  futex address expected timeout index k' entry hvalid hfinite hfree hstep he := by
    rw [← timeoutTicks_eq timeout] at he ⊢
    rw [he]
    exact futexWait_fires hw hvalid hfinite hfree hstep
  endless index hindex entry k' hentry hnone hstep := by
    rw [step_tick hstep, k.tick_futex hindex, hentry]
    apply filter_eq_self
    intro e he
    rw [← Option.some.inj he, hnone]
    rfl

set_option maxRecDepth 100000 in
/-- A sleep of one second that begins when the clock is about to wrap. -/
theorem timers_fire_wrapping : ∃ k : Kernel, k.TimersFire ∧ k.timerTicks = 2 ^ 64 - 1 ∧
    freeEntry k.sleepers maxSleepers = some 0 ∧ (k.step (.sleep 1000)).isSome = true := by
  have hrun : ((boot plainMemory smallImage).bind (exec step Always [.resume])).any
      fun k => k.enabled (.sleep 1000) && freeEntry k.sleepers maxSleepers == some 0 := by
    decide +kernel
  obtain ⟨k, hk, hfound⟩ := ReachedFrom.of_exec hrun
  rw [Bool.and_eq_true, beq_iff_eq] at hfound
  have hclock : Woken k { k with timerTicks := 2 ^ 64 - 1 } := { Woken.refl k with }
  have henabled : { k with timerTicks := 2 ^ 64 - 1 }.enabled (.sleep 1000) = true := hfound.1
  refine ⟨_, timers_fire (hk.wellFormed.woken hclock), rfl, hfound.2, ?_⟩
  unfold step
  rw [if_pos henabled]
  rfl

end OpenKernel.Kernel
