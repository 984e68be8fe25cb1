import OpenKernel.Kernel.Queue
import OpenKernel.Kernel.Waits

/-!
# The wait registrations in a run

Every action keeps `Waits`, as long as `terminate_process` ends no blocked
thread and a thread that the run queue still names does not block.
-/

namespace OpenKernel

open Lib

namespace Kernel

section Step

variable {k k' : Kernel} {context context' : ThreadId → Option Context}

/-! ## Changes that leave the registrations alone -/

/-- A deadline less than `2 ^ 63` ticks away is reached when it is now. -/
theorem reached_iff {now due : Nat} (hle : now ≤ due)
    (hsoon : due < now + 2 ^ 63) :
    reached (now % 2 ^ 64) (due % 2 ^ 64) = true ↔ due = now := by
  unfold reached
  rw [decide_eq_true_iff]
  omega

theorem Future.congr (h : k.Future) (hsleepers : k'.sleepers = k.sleepers)
    (hticks : k'.timerTicks = k.timerTicks) : k'.Future := by
  intro index hlt s hs
  rw [hsleepers] at hs
  unfold ticks
  rw [hticks]
  exact h index hlt s hs

theorem Waits.quiet (h : k.Waits) (hq : Quiet k k') : k'.Waits where
  toMatched := by
    refine h.toMatched.congr ?_ ?_ ?_ ?_ ?_ hq.timerTicks ?_
    · exact named_congr hq.sleepers hq.futexWaiters
        (fun t => by rw [hq.state]) hq.joinWaiters fun t _ => hq.joinWaiterCount t
    · exact madeBy_congr hq.sleepers hq.futexWaiters
    · exact fun t => by rw [hq.state]
    · exact fun _ _ _ u _ _ hu => by rw [hq.state, hu]
    · exact fun t => .inl (hq.contextOf t)
    · rw [hq.runQueue]
      exact h.queue
  future := h.future.congr hq.sleepers hq.timerTicks
  current := by
    rw [hq.currentThread, hq.state]
    exact h.current

/-- Fields of exited threads and process records do not matter. -/
theorem Waits.still (h : k.Waits) (hs : Still k k')
    (hsleepers : k'.sleepers = k.sleepers)
    (hfutexes : k'.futexWaiters = k.futexWaiters)
    (hticks : k'.timerTicks = k.timerTicks)
    (hwaiters : ∀ t, (k'.threads t).joinWaiters = (k.threads t).joinWaiters)
    (hcount : ∀ t, (k.threads t).state ≠ .exited →
      (k'.threads t).joinWaiterCount = (k.threads t).joinWaiterCount)
    (hcontext : ∀ t, k'.contextOf t = k.contextOf t ∨
      t = k.currentThread ∧ k'.contextOf t = none) : k'.Waits where
  toMatched := by
    refine h.toMatched.congr ?_ ?_ ?_ ?_ (fun t => ?_) hticks ?_
    · exact named_congr hsleepers hfutexes (fun t => by rw [hs.state]) hwaiters
        hcount
    · exact madeBy_congr hsleepers hfutexes
    · exact fun t => by rw [hs.state]
    · exact fun _ _ _ u _ _ hu => by rw [hs.state, hu]
    · refine (hcontext t).imp_right fun hx => ⟨?_, fun c hc => ?_⟩
      · rw [hx.1, h.current]
        decide
      · rw [hx.2] at hc
        cases hc
    · rw [hs.runQueue]
      exact h.queue
  future := h.future.congr hsleepers hticks
  current := by
    rw [hs.currentThread, hs.state]
    exact h.current

theorem Waits.clear (h : k.Waits) : { k with resuming := none }.Waits := by
  refine h.still ⟨fun _ => rfl, rfl, rfl, .refl⟩ rfl rfl rfl (fun _ => rfl)
    (fun _ _ => rfl) fun t => ?_
  rw [contextOf_clear]
  by_cases ht : t = k.currentThread
  · exact .inr ⟨ht, if_pos ht⟩
  · exact .inl (if_neg ht)

/-- The waiters of an exited thread do not count. -/
theorem Waits.updateExited (h : k.Waits) {t : ThreadId} {f : Thread → Thread}
    (hexited : (k.threads t).state = .exited)
    (hstate : (f (k.threads t)).state = (k.threads t).state)
    (hwaiters : (f (k.threads t)).joinWaiters = (k.threads t).joinWaiters)
    (hcontext : (f (k.threads t)).context = (k.threads t).context) :
    (k.updateThread t f).Waits := by
  refine h.still (k.still_updateThread t hstate) rfl rfl rfl (fun u => ?_)
    (fun u hu => ?_) fun u => .inl (k.contextOf_updateThread t hcontext u)
  · show (put k.threads t _ u).joinWaiters = _
    by_cases hut : u = t
    · rw [hut, put_same, hwaiters]
    · rw [put_other hut]
  · have hut : u ≠ t := by
      rintro rfl
      exact hu hexited
    show (put k.threads t _ u).joinWaiterCount = _
    rw [put_other hut]

theorem Waits.markReapable (h : k.Waits) {t : ThreadId}
    (hexited : (k.threads t).state = .exited) : (k.markReapable t).Waits := by
  unfold Kernel.markReapable
  split
  · exact h.updateExited hexited rfl rfl rfl
  · exact h

theorem Waits.leaveJoin (h : k.Waits) {t : ThreadId}
    (hexited : (k.threads t).state = .exited) : (k.leaveJoin t).Waits := by
  have hclear := h.clear
  unfold Kernel.leaveJoin dropJoinWaiter
  split
  · have hdrop := hclear.updateExited (t := t)
      (f := fun t => { t with joinWaiterCount := t.joinWaiterCount - 1 })
      hexited rfl rfl rfl
    refine hdrop.markReapable ?_
    show (put k.threads t _ t).state = _
    rw [put_same]
    exact hexited
  · exact hclear.markReapable hexited

theorem Waits.collect (h : k.Waits) (p : ProcessId) (t : ThreadId)
    (status : Nat) : (k.collect p t status).Waits := by
  refine h.still (k.still_collect p t status) ?_ ?_ ?_ (fun u => ?_)
    (fun u _ => ?_) (fun u => .inl ?_) <;>
  · unfold Kernel.collect
    dsimp only
    split <;> rfl

theorem Waits.setProcessMainThread (h : k.Waits) (p : ProcessId) (t : ThreadId) :
    (k.setProcessMainThread p t).Waits := by
  refine h.still (k.still_setProcessMainThread p t) ?_ ?_ ?_ (fun u => ?_)
    (fun u _ => ?_) (fun u => .inl ?_) <;>
  · unfold Kernel.setProcessMainThread
    split <;> rfl

theorem Waits.recorded (h : k.Waits) {p : ProcessId} (hrec : k.Recorded p k') :
    k'.Waits := by
  obtain ⟨k₁, k₂, space, h₁, h₂, h₃⟩ := hrec
  have hstill := still_recorded ⟨k₁, k₂, space, .refl k₁, h₂, .refl k₂⟩
  obtain ⟨slot, -, -, -, -, rfl⟩ := createProcess_some h₂
  exact Waits.quiet ((h.quiet h₁).still hstill rfl rfl rfl (fun _ => rfl)
    (fun _ _ => rfl) fun _ => .inl rfl) h₃

/-! ## New threads -/

/-- Entries do not name a slot that is handed out, and nobody joins it. -/
theorem Waits.handed (h : k.Waits) (hcounted : k.Counted) {slot : ThreadId}
    {entry : Option Nat} {process : Option ProcessId}
    (hk' : k.Handed slot entry process true k') : k'.Waits := by
  obtain ⟨k₁, userContext, ownsUserStack, hq, hslot, rfl⟩ := hk'
  obtain ⟨hpos, hlt, hexited, hreap⟩ := reusableSlot_some hslot
  have hcur : slot ≠ k₁.currentThread := by
    rw [hq.currentThread]
    rintro rfl
    rw [h.current] at hexited
    cases hexited
  have h₁ := h.quiet hq
  have hexited₁ : (k₁.threads slot).state = .exited := by rw [hq.state, hexited]
  -- Nobody is inside a join of the slot, since it could be reused.
  have hnone : k₁.joiners slot = ∅ := by
    have hidle : slot ≠ idleThread := Nat.one_le_iff_ne_zero.mp hpos
    have hzero := hcounted.unreaped slot hidle hreap
    have hle := (hcounted.quiet hq).joiners_le slot
    rw [hq.joinWaiterCount, hzero] at hle
    exact Finset.card_eq_zero.mp (Nat.le_zero.mp hle)
  generalize hthread : newThread (k₁.threads slot) entry process userContext true
    ownsUserStack = thread
  have hcontext : thread.context = .trampoline := by rw [← hthread]; rfl
  have hstate : thread.state = .ready := by rw [← hthread]; rfl
  have hctx := k₁.contextOf_install thread hcur
  have hthreads : ∀ u, (k₁.install slot thread).threads u =
      if u = slot then thread else k₁.threads u := by
    intro u
    unfold install
    rw [((((k₁.updateThread slot fun _ => thread).record
      (.handed slot))).enqueue_fields slot).1]
    exact put_apply _ _ _ _
  have hother : ∀ u, u ≠ slot →
      (k₁.install slot thread).threads u = k₁.threads u :=
    fun u hu => by rw [hthreads, if_neg hu]
  have htables : (k₁.install slot thread).sleepers = k₁.sleepers ∧
      (k₁.install slot thread).futexWaiters = k₁.futexWaiters ∧
      (k₁.install slot thread).timerTicks = k₁.timerTicks ∧
      (k₁.install slot thread).currentThread = k₁.currentThread := by
    unfold install enqueue
    split <;> exact ⟨rfl, rfl, rfl, rfl⟩
  obtain ⟨hsleepers, hfutexes, hticks, hcurrent⟩ := htables
  refine { toMatched := h₁.toMatched.congr ?_ ?_ ?_ ?_ ?_ hticks ?_
           future := h₁.future.congr hsleepers hticks, current := ?_ }
  · intro e
    cases e with
    | sleeper index => rw [named_sleeper, named_sleeper, hsleepers]
    | futex index => rw [named_futex, named_futex, hfutexes]
    | joiner target index =>
      rw [named_joiner, named_joiner]
      by_cases htarget : target = slot
      · have hcount : thread.joinWaiterCount = 0 := by rw [← hthread]; rfl
        rw [htarget, hthreads, if_pos rfl, hcount, hexited₁,
          if_neg fun hx => absurd hx.2 (Nat.not_lt_zero _), if_neg fun hx => hx.1 rfl]
      · rw [hother target htarget]
  · exact madeBy_congr hsleepers hfutexes
  · intro u
    by_cases hus : u = slot
    · rw [hus, hthreads, if_pos rfl, hstate, hexited₁]
      simp
    · rw [hother u hus]
  · intro w hw c u hc hjoins hu
    by_cases hus : u = slot
    · rw [hctx] at hc
      split at hc
      · rw [← Option.some.inj hc, hcontext] at hjoins
        cases hjoins
      · have hmem := mem_joiners_of_context hw hc hjoins
        rw [hus, hnone] at hmem
        exact absurd hmem (Finset.notMem_empty _)
    · rw [hother u hus, hu]
  · intro w
    rw [hctx]
    by_cases hws : w = slot
    · rw [if_pos hws, hws]
      refine .inr ⟨by rw [hexited₁]; decide, fun c hc => ?_⟩
      rw [← Option.some.inj hc, hcontext]
      exact ⟨rfl, fun due hdue => by cases hdue⟩
    · exact .inl (if_neg hws)
  · intro u hu
    unfold install at hu
    rcases mem_enqueue _ hu with hmem | heq
    · exact h₁.queue u hmem
    · rw [heq, hexited₁]
      decide
  · rw [hcurrent, hother _ hcur.symm]
    exact h₁.current

/-! ## Switching away -/

/-- The current thread is about to be saved, and it does not wait. -/
theorem Waits.leave (h : k.Waits) (saved : Context) (hjoins : saved.joins = none)
    (hsleeping : ∀ due, saved ≠ .sleeping due) :
    k.Matched (k.contextAt saved) := by
  refine h.toMatched.congr (fun _ => rfl) (fun _ _ => .rfl) (fun _ => .rfl)
    (fun _ _ _ _ _ _ hu => hu) (fun t => ?_) rfl h.queue
  unfold contextAt
  split
  · rename_i ht
    rw [ht, h.current]
    refine .inr ⟨by decide, fun c hc => ?_⟩
    rw [← Option.some.inj hc]
    exact ⟨hjoins, hsleeping⟩
  · exact .inl rfl

/-- A running thread becomes ready. -/
theorem Matched.setReady (h : k.Matched context) {t : ThreadId}
    (hrunning : (k.threads t).state = .running) :
    (k.setState t .ready).Matched context := by
  have hother : ∀ u, u ≠ t → (k.setState t .ready).threads u = k.threads u :=
    fun u hu => put_other hu
  have hself : (k.setState t .ready).threads t =
      { k.threads t with state := .ready } := put_same _ _ _
  have hiff : ∀ s, s ≠ .running → s ≠ .ready → ∀ u,
      ((k.setState t .ready).threads u).state = s ↔ (k.threads u).state = s := by
    intro s hs hne u
    by_cases hut : u = t
    · rw [hut, hself, hrunning]
      exact ⟨fun heq => absurd heq.symm hne, fun heq => absurd heq.symm hs⟩
    · rw [hother u hut]
  have hexited := hiff .exited (by decide) (by decide)
  refine h.congr ?_ (madeBy_congr rfl rfl) (hiff .blocked (by decide) (by decide))
    (fun _ _ _ u _ _ hu => (hexited u).mpr hu) (fun _ => .inl rfl) rfl h.queue
  refine named_congr rfl rfl hexited (fun u => ?_) fun u _ => ?_ <;>
  · by_cases hut : u = t
    · rw [hut, hself]
    · rw [hother u hut]

/-- Threads wake up, and no entry is about them. -/
theorem Matched.enqueue (h : k.Matched context) {t : ThreadId}
    (ht : (k.threads t).state ≠ .blocked) : (k.enqueue t).Matched context := by
  have hwoken := k.woken_enqueue t
  have hthreads := (k.enqueue_fields t).1
  have htables : (k.enqueue t).sleepers = k.sleepers ∧
      (k.enqueue t).futexWaiters = k.futexWaiters ∧
      (k.enqueue t).timerTicks = k.timerTicks := by
    unfold Kernel.enqueue
    split <;> exact ⟨rfl, rfl, rfl⟩
  refine h.congr (named_congr htables.1 htables.2.1 ?_ ?_ ?_)
    (madeBy_congr htables.1 htables.2.1) ?_ ?_ (fun _ => .inl rfl) htables.2.2 ?_
  · exact fun u => by rw [hthreads]
  · exact fun u => by rw [hthreads]
  · exact fun u _ => by rw [hthreads]
  · exact fun u => by rw [hthreads]
  · exact fun _ _ _ u _ _ hu => by rw [hthreads, hu]
  · intro u hu
    rcases k.mem_enqueue hu with hmem | heq
    · exact h.queue u hmem
    · rw [heq]
      exact ht

theorem Waits.yieldNow (h : k.Waits) (hw : k.WellFormed) : k.yieldNow.Waits := by
  unfold Kernel.yieldNow
  dsimp only
  rw [if_neg hw.ne_noThread]
  have hleave := h.leave .yielded rfl fun due hdue => by cases hdue
  split
  · exact hleave.dispatch h.future (schedule_spec _ _).1 (schedule_spec _ _).2
      hw.idle.2
  · rename_i hidle
    have hself : ((k.setState k.currentThread .ready).threads
        k.currentThread).state = .ready := by
      show (put k.threads k.currentThread _ k.currentThread).state = _
      rw [put_same]
    have hother : (k.setState k.currentThread .ready).threads idleThread =
        k.threads idleThread := put_other fun heq => hidle heq.symm
    have hready := (hleave.setReady h.current).enqueue (t := k.currentThread)
      (by rw [hself]; decide)
    have hwoken := woken_enqueue (k.setState k.currentThread .ready)
      k.currentThread
    have hctx : (((k.setState k.currentThread .ready).enqueue
        k.currentThread).contextAt .yielded) = k.contextAt .yielded := by
      funext t
      unfold contextAt
      rw [hwoken.currentThread, hwoken.contextOf]
      show (if t = k.currentThread then _ else _) = _
      split
      · rfl
      · exact k.contextOf_updateThread k.currentThread rfl t
    rw [← hctx] at hready
    refine hready.dispatch ?_ (schedule_spec _ _).1 (schedule_spec _ _).2 ?_
    · unfold Kernel.enqueue
      split <;> exact h.future
    · rw [(enqueue_fields _ _).1, hother]
      exact hw.idle.2

/-! ## Blocking -/

/-- A blocking call makes one entry, which names the current thread. -/
theorem Registers.entry {a : Action} {c : Context} (hreg : k.Registers a c k')
    (hsyscall : a.isInternal = false) : ∃ e₀, k.named e₀ = none ∧
      k'.named e₀ = some k.currentThread ∧ k'.MadeBy e₀ c ∧
      ∀ e, e ≠ e₀ → k'.named e = k.named e ∧
        ∀ c', k'.MadeBy e c' ↔ k.MadeBy e c' := by
  have hjoin : ∀ t : ThreadId, (k.threads t).state ≠ .exited →
      ∀ c : Context, c.joins = some t → ∃ e₀, k.named e₀ = none ∧
        (k.addJoinWaiter t).named e₀ = some k.currentThread ∧
        (k.addJoinWaiter t).MadeBy e₀ c ∧
        ∀ e, e ≠ e₀ → (k.addJoinWaiter t).named e = k.named e ∧
          ∀ c', (k.addJoinWaiter t).MadeBy e c' ↔ k.MadeBy e c' := by
    intro t hlive c hjoins
    have hself : (k.addJoinWaiter t).threads t =
        { k.threads t with
          joinWaiters := put (k.threads t).joinWaiters
            (k.threads t).joinWaiterCount k.currentThread
          joinWaiterCount := (k.threads t).joinWaiterCount + 1 } :=
      put_same _ _ _
    have hother : ∀ u, u ≠ t → (k.addJoinWaiter t).threads u = k.threads u :=
      fun u hu => put_other hu
    refine ⟨.joiner t (k.threads t).joinWaiterCount, ?_, ?_, hjoins,
      fun e he => ⟨?_, madeBy_congr rfl rfl e⟩⟩
    · rw [named_joiner, if_neg fun hx => Nat.lt_irrefl _ hx.2]
    · rw [named_joiner, hself, if_pos ⟨hlive, Nat.lt_succ_self _⟩]
      exact congrArg some (put_same _ _ _)
    · cases e with
      | sleeper index => rfl
      | futex index => rfl
      | joiner target index =>
        rw [named_joiner, named_joiner]
        by_cases htarget : target = t
        · subst htarget
          have hne : index ≠ (k.threads target).joinWaiterCount :=
            fun heq => he (heq ▸ rfl)
          have hiff : index < (k.threads target).joinWaiterCount + 1 ↔
              index < (k.threads target).joinWaiterCount := by omega
          rw [hself]
          dsimp only
          rw [put_other hne]
          simp only [hiff]
        · rw [hother target htarget]
  cases hreg with
  | raw => cases hsyscall
  | sleep ms index due hlt hfree =>
    refine ⟨.sleeper index, ?_, ?_, ⟨_, put_same _ _ _, rfl⟩,
      fun e he => k.other_sleeper index _ he⟩
    · rw [named_sleeper, hfree]
      exact ite_self _
    · simp only [named_sleeper, if_pos hlt, put_same, Option.map_some]
  | futex actual expected timeout index address due hlt hfree =>
    refine ⟨.futex index, ?_, ?_, ⟨_, put_same _ _ _, rfl, rfl⟩,
      fun e he => k.other_futex index _ he⟩
    · rw [named_futex, hfree]
      exact ite_self _
    · simp only [named_futex, if_pos hlt, put_same, Option.map_some]
  | join t _ _ hlive => exact hjoin t hlive _ rfl
  | wait p t _ _ _ _ hlive => exact hjoin t hlive _ rfl

/-- What a blocking call leaves alone until it blocks. -/
theorem Registers.frame {a : Action} {c : Context} (hreg : k.Registers a c k') :
    k'.timerTicks = k.timerTicks ∧ (∀ t, k'.contextOf t = k.contextOf t) ∧
      ∀ due, c = .sleeping due →
        k.timerTicks < due ∧ due < k.timerTicks + 2 ^ 63 := by
  cases hreg with
  | raw => exact ⟨rfl, fun _ => rfl, fun due hdue => by cases hdue⟩
  | sleep ms index due _ _ hlater hsoon =>
    refine ⟨rfl, fun _ => rfl, fun due' hdue => ?_⟩
    obtain rfl := Context.sleeping.inj hdue
    exact ⟨hlater, hsoon⟩
  | futex => exact ⟨rfl, fun _ => rfl, fun due hdue => by cases hdue⟩
  | join t =>
    exact ⟨rfl, k.contextOf_updateThread t rfl, fun due hdue => by cases hdue⟩
  | wait p t =>
    exact ⟨rfl, k.contextOf_updateThread t rfl, fun due hdue => by cases hdue⟩

/-- A registration does not touch the sleepers that are there. -/
theorem Registers.future {a : Action} {c : Context} (hreg : k.Registers a c k')
    (h : k.Future) : k'.Future := by
  cases hreg with
  | raw | futex | join | wait => exact h
  | sleep ms index due hlt hfree hlater hsoon =>
    intro i hi s hs
    have hs' : put k.sleepers index
      (some { thread := k.currentThread, deadline := due % 2 ^ 64 }) i =
        some s := hs
    by_cases heq : i = index
    · rw [heq, put_same] at hs'
      rw [← Option.some.inj hs', ← Bool.not_eq_true]
      intro hreached
      have := (reached_iff (Nat.le_of_lt hlater) hsoon).mp hreached
      omega
    · rw [put_other heq] at hs'
      exact h i hi s hs'

theorem Waits.blocked (h : k.Waits) (hw : k.WellFormed)
    (hidle : k.currentThread ≠ idleThread) {a : Action} {c : Context}
    (hreg : k.Registers a c k') (hsyscall : a.isInternal = false)
    (hout : k.currentThread ∉ k.runQueue.contents) :
    (k'.blockCurrent c).Waits := by
  obtain ⟨e₀, hfree, hnamed₀, hmade₀, hsame⟩ := hreg.entry hsyscall
  obtain ⟨hticks, hctx, hdue⟩ := hreg.frame
  have hstill := still_registers hreg
  have hcur := hstill.currentThread
  have hself : ((k'.setState k.currentThread .blocked).threads
      k.currentThread).state = .blocked := by
    show (put k'.threads k.currentThread _ k.currentThread).state = _
    rw [put_same]
  have hother : ∀ t, t ≠ k.currentThread →
      (k'.setState k.currentThread .blocked).threads t = k'.threads t :=
    fun t ht => put_other ht
  have hfields : ∀ t, ((k'.setState k.currentThread .blocked).threads t).joinWaiters =
        (k'.threads t).joinWaiters ∧
      ((k'.setState k.currentThread .blocked).threads t).joinWaiterCount =
        (k'.threads t).joinWaiterCount := by
    intro t
    by_cases ht : t = k.currentThread
    · rw [ht]
      show (put k'.threads k.currentThread _ k.currentThread).joinWaiters = _ ∧
        (put k'.threads k.currentThread _ k.currentThread).joinWaiterCount = _
      rw [put_same]
      exact ⟨rfl, rfl⟩
    · rw [hother t ht]
      exact ⟨rfl, rfl⟩
  have hnamed : ∀ e, (k'.setState k.currentThread .blocked).named e = k'.named e := by
    refine named_congr rfl rfl (fun t => ?_) (fun t => (hfields t).1)
      fun t _ => (hfields t).2
    by_cases ht : t = k.currentThread
    · rw [ht, hself, hstill.state, h.current]
      simp
    · rw [hother t ht]
  have hmatched : (k'.setState k.currentThread .blocked).Matched
      ((k'.setState k.currentThread .blocked).contextAt c) := by
    have hmade : (k'.setState k.currentThread .blocked).MadeBy e₀ c :=
      (madeBy_congr rfl rfl e₀ c).mpr hmade₀
    refine h.toMatched.add hfree ?_ hmade (fun e he => ?_)
      (fun e c' he => ?_) hw.current_lt h.current hself (fun t ht => ?_) ?_ (fun t ht => ?_)
      hticks (fun due hc => ?_) ?_ hout
    · rw [hnamed, hnamed₀]
    · rw [hnamed, (hsame e he).1]
    · exact (madeBy_congr rfl rfl e c').trans ((hsame e he).2 c')
    · rw [hother t ht, hstill.state]
    · exact if_pos hcur.symm
    · refine (if_neg ?_).trans (?_ : (k'.setState k.currentThread .blocked).contextOf
        t = _)
      · show t ≠ k'.currentThread
        rw [hcur]
        exact ht
      · exact (k'.contextOf_updateThread k.currentThread rfl t).trans (hctx t)
    · have hbounds := hdue due hc
      omega
    · exact congrArg (·.contents) hstill.runQueue
  unfold Kernel.blockCurrent
  dsimp only
  rw [hcur, if_neg (not_or.mpr ⟨hw.ne_noThread, hidle⟩)]
  have hrecord : ((k'.setState k.currentThread .blocked).record
      (.blocked k.currentThread c)).Matched
      (((k'.setState k.currentThread .blocked).record
        (.blocked k.currentThread c)).contextAt c) := { hmatched with }
  refine hrecord.dispatch (hreg.future h.future) (schedule_spec _ _).1
    (schedule_spec _ _).2 ?_
  have hidle' : ((k'.setState k.currentThread .blocked).record
      (.blocked k.currentThread c)).threads idleThread = k'.threads idleThread :=
    hother _ hidle.symm
  rw [hidle', hstill.state]
  exact hw.idle.2

/-! ## Exit and termination -/

/-- A running or ready thread ends, and its join waiters wake up. -/
theorem Matched.ended (h : k.Matched context) {t : ThreadId}
    (hlive : (k.threads t).state = .running ∨ (k.threads t).state = .ready)
    {f : Thread → Thread} (hf : (f (k.threads t)).state = .exited)
    (hwaiters : (f (k.threads t)).joinWaiters = (k.threads t).joinWaiters)
    (hcount : (f (k.threads t)).joinWaiterCount =
      (k.threads t).joinWaiterCount) (e : Event) :
    (((k.updateThread t f).record e).wakeJoinWaiters t).Matched context := by
  have hself : ((k.updateThread t f).record e).threads t = f (k.threads t) :=
    put_same _ _ _
  have hother : ∀ u, u ≠ t →
      ((k.updateThread t f).record e).threads u = k.threads u :=
    fun u hu => put_other hu
  obtain ⟨hstate, hsleepers, hfutexes, hticks, hqueue⟩ :=
    ((k.updateThread t f).record e).wakeJoinWaiters_spec t
  have hwoken := woken_wakeJoinWaiters ((k.updateThread t f).record e) t
  rw [hself, hwaiters, hcount] at hstate
  have hstate_self : ((((k.updateThread t f).record e).wakeJoinWaiters
      t).threads t).state = .exited := by
    rw [hwoken.exited_iff, hself, hf]
  have hstate_other : ∀ u, u ≠ t →
      ((((k.updateThread t f).record e).wakeJoinWaiters t).threads u).state =
        if (∃ i < (k.threads t).joinWaiterCount,
            (k.threads t).joinWaiters i = u) ∧ (k.threads u).state = .blocked then
          .ready
        else (k.threads u).state := by
    intro u hu
    rw [hstate, hother u hu]
  have hnot : (k.threads t).state ≠ .exited := by
    rcases hlive with hs | hs <;> · rw [hs]; decide
  have hnotblocked : (k.threads t).state ≠ .blocked := by
    rcases hlive with hs | hs <;> · rw [hs]; decide
  -- The entries with `t` as the target, and the threads that they name.
  have hgone : ∀ u i, k.named (.joiner t i) = some u ↔
      i < (k.threads t).joinWaiterCount ∧ (k.threads t).joinWaiters i = u := by
    intro u i
    rw [named_joiner]
    by_cases hi : i < (k.threads t).joinWaiterCount
    · rw [if_pos ⟨hnot, hi⟩]
      exact ⟨fun heq => ⟨hi, Option.some.inj heq⟩, fun heq => congrArg some heq.2⟩
    · rw [if_neg fun hx => hi hx.2]
      exact ⟨fun heq => (nomatch heq), fun heq => absurd heq.1 hi⟩
  refine h.remove (fun e => ∃ i, e = .joiner t i) ?_ ?_ ?_ ?_ ?_ ?_
    (fun _ => rfl) hticks ?_ ?_ ?_
  · rintro - ⟨i, rfl⟩
    exact named_joiner_exited hstate_self i
  · intro e' he'
    cases e' with
    | sleeper i => rw [named_sleeper, named_sleeper, hsleepers]; rfl
    | futex i => rw [named_futex, named_futex, hfutexes]; rfl
    | joiner u i =>
      have hut : u ≠ t := fun heq => he' ⟨i, by rw [heq]⟩
      rw [named_joiner, named_joiner, hwoken.joinWaiterCount, hwoken.joinWaiters,
        hother u hut]
      simp only [ne_eq, hwoken.exited_iff, hother u hut]
  · exact fun e' c _ => madeBy_congr hsleepers hfutexes e' c
  · rintro - u ⟨i, rfl⟩ hu
    rw [hgone] at hu
    by_cases hut : u = t
    · rw [hut, hstate_self]
      decide
    · rw [hstate_other u hut]
      by_cases hb : (k.threads u).state = .blocked
      · rw [if_pos ⟨⟨i, hu⟩, hb⟩]
        decide
      · rw [if_neg fun hx => hb hx.2]
        exact hb
  · intro u hu
    by_cases hut : u = t
    · rw [hut, hstate_self]
      exact ⟨fun heq => (nomatch heq), fun heq => absurd heq hnotblocked⟩
    · rw [hstate_other u hut, if_neg]
      rintro ⟨⟨i, hi⟩, -⟩
      exact hu _ ⟨i, rfl⟩ ((hgone u i).mpr hi)
  · intro u hu
    rw [hwoken.exited_iff]
    by_cases hut : u = t
    · rw [hut, hself, hf]
    · rw [hother u hut, hu]
  · rintro - u c v ⟨i, rfl⟩ hu hc hjoins
    obtain ⟨-, c', hc', hmade⟩ := h.waiting _ u hu
    rw [hc] at hc'
    obtain rfl := Option.some.inj hc'
    have heq : some v = some t := hjoins.symm.trans hmade
    obtain rfl := Option.some.inj heq
    exact hstate_self
  · rintro - u due ⟨i, rfl⟩ hu hc
    obtain ⟨-, c', hc', hmade⟩ := h.waiting _ u hu
    rw [hc] at hc'
    obtain rfl := Option.some.inj hc'
    cases hmade
  · exact hqueue

/-- Process records do not matter. -/
theorem Matched.reparent (h : k.Matched context) (t : ThreadId) :
    (k.reparentChildrenOfExitedProcess t).Matched context ∧
      (k.reparentChildrenOfExitedProcess t).threads = k.threads ∧
      (k.reparentChildrenOfExitedProcess t).currentThread = k.currentThread ∧
      (k.reparentChildrenOfExitedProcess t).resuming = k.resuming ∧
      (k.reparentChildrenOfExitedProcess t).sleepers = k.sleepers ∧
      (k.reparentChildrenOfExitedProcess t).timerTicks = k.timerTicks := by
  unfold reparentChildrenOfExitedProcess
  split
  · exact ⟨h, rfl, rfl, rfl, rfl, rfl⟩
  · obtain ⟨log, heq, -⟩ := k.reparentChildren_spec _ t
    rw [heq]
    exact ⟨h.congr (fun _ => rfl) (madeBy_congr rfl rfl) (fun _ => .rfl)
      (fun _ _ _ _ _ _ hu => hu) (fun _ => .inl rfl) rfl h.queue,
      rfl, rfl, rfl, rfl, rfl⟩

theorem Waits.exitCurrent (h : k.Waits) (hw : k.WellFormed)
    (hidle : k.currentThread ≠ idleThread) (status : Nat) :
    (k.exitCurrent status).Waits := by
  unfold Kernel.exitCurrent
  dsimp only
  rw [if_neg (not_or.mpr ⟨hw.ne_noThread, hidle⟩)]
  have hended := (h.leave .finished rfl fun due hdue => by
    cases hdue).ended (.inl h.current) (f := fun t =>
      { t with
        state := .exited
        entry := none
        exitStatus := status
        reapable := !t.isUser }) rfl rfl rfl (.exited k.currentThread status)
  have hctx := k.contextOf_updateThread k.currentThread (f := fun t =>
      { t with
        state := .exited
        entry := none
        exitStatus := status
        reapable := !t.isUser }) rfl
  have hother : ((k.updateThread k.currentThread fun t =>
      { t with
        state := .exited
        entry := none
        exitStatus := status
        reapable := !t.isUser }).record
      (.exited k.currentThread status)).threads idleThread =
        k.threads idleThread := put_other fun heq => hidle heq.symm
  generalize hk₁ : (k.updateThread k.currentThread fun t =>
      { t with
        state := .exited
        entry := none
        exitStatus := status
        reapable := !t.isUser }).record (.exited k.currentThread status) =
    k₁ at hended hother
  have hcur₁ : k₁.currentThread = k.currentThread := by rw [← hk₁]; rfl
  have hctx₁ : ∀ t, k₁.contextOf t = k.contextOf t := by rw [← hk₁]; exact hctx
  have hfuture₁ : k₁.Future := by rw [← hk₁]; exact h.future
  have hwoken := woken_wakeJoinWaiters k₁ k.currentThread
  obtain ⟨-, hsleepers, -, hticks, -⟩ := k₁.wakeJoinWaiters_spec k.currentThread
  obtain ⟨hm, hthreads, hcur, hres, hsleepers', hticks'⟩ :=
    hended.reparent k.currentThread
  have hcontext : ((k₁.wakeJoinWaiters
      k.currentThread).reparentChildrenOfExitedProcess
        k.currentThread).contextAt .finished = k.contextAt .finished := by
    funext t
    unfold contextAt
    rw [hcur, hwoken.currentThread, hcur₁]
    split
    · rfl
    · unfold contextOf at hctx₁ ⊢
      rw [hcur, hres, hthreads, hwoken.currentThread, hwoken.resuming,
        hwoken.context]
      exact hctx₁ t
  rw [← hcontext] at hm
  refine hm.dispatch ?_ (schedule_spec _ _).1 (schedule_spec _ _).2 ?_
  · exact hfuture₁.congr (hsleepers'.trans hsleepers) (hticks'.trans hticks)
  · rw [hthreads, Ne, hwoken.exited_iff, hother]
    refine ⟨hw.idle.2.1, ?_⟩
    rcases hwoken.state idleThread with heq | ⟨hb, -⟩
    · rw [heq, hother]
      exact hw.idle.2.2
    · rw [hother] at hb
      exact absurd hb hw.idle.2.2

theorem Waits.terminated (h : k.Waits) {t : ThreadId} (p : ProcessId)
    (hready : (k.threads t).state = .ready) :
    ((k.endThread p t).wakeJoinWaiters t).Waits := by
  have hended := h.toMatched.ended (.inr hready) (f := fun t =>
    { t with state := .exited, entry := none, exitStatus := terminatedStatus })
    rfl rfl rfl (.terminated p t)
  have hwoken := (k.endThread p t).woken_wakeJoinWaiters t
  obtain ⟨-, hsleepers, -, hticks, -⟩ := (k.endThread p t).wakeJoinWaiters_spec t
  have hctx : ∀ u, ((k.endThread p t).wakeJoinWaiters t).contextOf u =
      k.contextOf u := fun u =>
    (hwoken.contextOf u).trans (k.contextOf_updateThread t (f := fun t =>
      { t with state := .exited, entry := none, exitStatus := terminatedStatus })
      rfl u)
  have hcontext : ((k.endThread p t).wakeJoinWaiters t).contextOf = k.contextOf :=
    funext hctx
  refine { toMatched := ?_, future := h.future.congr hsleepers hticks,
           current := ?_ }
  · rw [hcontext]
    exact hended
  · have hne : k.currentThread ≠ t := by
      rintro rfl
      rw [h.current] at hready
      cases hready
    have hother : (k.endThread p t).threads k.currentThread =
        k.threads k.currentThread := put_other hne
    rw [hwoken.currentThread]
    show ((((k.endThread p t).wakeJoinWaiters t)).threads k.currentThread).state = _
    rcases hwoken.state k.currentThread with heq | ⟨hb, -⟩
    · rw [heq, hother, h.current]
    · rw [hother, h.current] at hb
      cases hb

/-! ## Waking -/

/-- An entry of one of the tables is taken out, and its thread wakes up. -/
theorem Matched.fire (h : k.Matched context) {e₀ : Entry} {t : ThreadId}
    (hnamed₀ : k.named e₀ = some t) (hnone : k'.named e₀ = none)
    (hsame : ∀ e, e ≠ e₀ → k'.named e = k.named e ∧
      ∀ c, k'.MadeBy e c ↔ k.MadeBy e c)
    (hthreads : k'.threads = k.threads) (hqueue : k'.runQueue = k.runQueue)
    (hticks : k'.timerTicks = k.timerTicks)
    (hjoins : ∀ c, k.MadeBy e₀ c → c.joins = none)
    (hdue : ∀ due, k.MadeBy e₀ (.sleeping due) →
      context t = some (.sleeping due) → (k.threads t).state = .blocked →
        due ≤ k.timerTicks) :
    (k'.makeReady t).Matched context := by
  obtain ⟨hblocked, c₀, hc₀, hmade₀⟩ := h.waiting e₀ t hnamed₀
  have hwoken := k'.woken_makeReady t
  obtain ⟨hsleepers, hfutexes, hticks'⟩ := k'.makeReady_tables t
  have hnamed : ∀ e, (k'.makeReady t).named e = k'.named e :=
    named_congr hsleepers hfutexes hwoken.exited_iff hwoken.joinWaiters
      fun u _ => hwoken.joinWaiterCount u
  have hgone : ∀ e u, e = e₀ → k.named e = some u → u = t := by
    intro e u he hu
    rw [he, hnamed₀] at hu
    exact (Option.some.inj hu).symm
  refine h.remove (fun e => e = e₀) ?_ ?_ ?_ ?_ ?_ ?_ (fun _ => rfl)
    (hticks'.trans hticks) ?_ ?_ ?_
  · intro e he
    rw [he, hnamed, hnone]
  · exact fun e he => (hnamed e).trans (hsame e he).1
  · exact fun e c he => (madeBy_congr hsleepers hfutexes e c).trans
      ((hsame e he).2 c)
  · intro e u he hu
    rw [hgone e u he hu, makeReady_state, hthreads, if_pos ⟨rfl, hblocked⟩]
    decide
  · intro u hu
    have hut : u ≠ t := fun heq => hu e₀ rfl (heq ▸ hnamed₀)
    rw [makeReady_state, hthreads, if_neg fun hx => hut hx.1]
  · intro u hu
    rw [hwoken.exited_iff, hthreads, hu]
  · intro e u c v he hu hc hj
    rw [hgone e u he hu, hc₀] at hc
    rw [← Option.some.inj hc, hjoins c₀ hmade₀] at hj
    cases hj
  · intro e u due he hu hc
    rw [hgone e u he hu] at hc
    have hmade := hmade₀
    rw [hc] at hc₀
    rw [← Option.some.inj hc₀] at hmade
    exact hdue due hmade hc hblocked
  · intro u hu
    rcases k'.mem_makeReady hu with hmem | hb
    · rw [hqueue] at hmem
      exact .inl hmem
    · exact .inr hb

theorem Matched.fireFutex (h : k.Matched context) {index : Nat}
    {entry : FutexWaiter} (hlt : index < maxFutexWaiters)
    (hentry : k.futexWaiters index = some entry) :
    (k.fireFutex index entry).2.Matched context := by
  have hnamed : k.named (.futex index) = some entry.thread := by
    rw [named_futex, if_pos hlt, hentry]
    rfl
  have hblocked := (h.waiting _ _ hnamed).1
  have hwakes : ¬ (maxThreads ≤ entry.thread ∨
      (k.threads entry.thread).state ≠ .blocked) := by
    rw [not_or, not_not]
    exact ⟨Nat.not_le_of_lt (h.lt _ hblocked), hblocked⟩
  unfold Kernel.fireFutex wake
  rw [if_neg hwakes]
  refine h.fire hnamed ?_ (fun e he => k.other_futex index none he) rfl rfl rfl
    (fun c hc => ?_) fun due hc => hc.elim
  · simp only [named_futex, put_same, Option.map_none, ite_self]
  · cases c <;> first | rfl | exact hc.elim

theorem Matched.expireSleeper (h : k.Matched context) {index : Nat}
    (hlt : index < maxSleepers) : (k.expireSleeper index).Matched context := by
  unfold Kernel.expireSleeper
  split
  · exact h
  · rename_i entry hentry
    split
    · rename_i hreached
      have hnamed : k.named (.sleeper index) = some entry.thread := by
        rw [named_sleeper, if_pos hlt, hentry]
        rfl
      have hblocked := (h.waiting _ _ hnamed).1
      have hwakes : ¬ (maxThreads ≤ entry.thread ∨
          (k.threads entry.thread).state ≠ .blocked) := by
        rw [not_or, not_not]
        exact ⟨Nat.not_le_of_lt (h.lt _ hblocked), hblocked⟩
      unfold wake
      rw [if_neg hwakes]
      refine h.fire hnamed ?_ (fun e he => k.other_sleeper index none he) rfl rfl
        rfl (fun c hc => ?_) fun due hmade hc hb => ?_
      · simp only [named_sleeper, put_same, Option.map_none, ite_self]
      · cases c <;> first | rfl | exact hc.elim
      · obtain ⟨s, hs, hdeadline⟩ := hmade
        rw [hentry] at hs
        obtain rfl := Option.some.inj hs
        obtain ⟨hle, hsoon⟩ := h.late _ due hc hb
        rw [hdeadline] at hreached
        exact Nat.le_of_eq ((reached_iff hle hsoon).mp hreached)
    · exact h

theorem wake_tables (k : Kernel) (t : ThreadId) :
    (k.wake t).2.sleepers = k.sleepers ∧
      (k.wake t).2.futexWaiters = k.futexWaiters ∧
      (k.wake t).2.timerTicks = k.timerTicks := by
  unfold wake
  split
  · exact ⟨rfl, rfl, rfl⟩
  · exact k.makeReady_tables t

/-- One turn of the sleeper loop leaves no due sleeper at its index. -/
theorem expireSleeper_table (k : Kernel) (index : Nat) :
    (k.expireSleeper index).timerTicks = k.timerTicks ∧
      (∀ i, i ≠ index → (k.expireSleeper index).sleepers i = k.sleepers i) ∧
      ∀ s, (k.expireSleeper index).sleepers index = some s →
        reached k.ticks s.deadline = false := by
  cases hentry : k.sleepers index with
  | none =>
    have heq : k.expireSleeper index = k := by
      unfold expireSleeper
      rw [hentry]
    rw [heq]
    exact ⟨rfl, fun _ _ => rfl, fun s hs => by rw [hentry] at hs; cases hs⟩
  | some entry =>
    by_cases hreached : reached k.ticks entry.deadline = true
    · have heq : k.expireSleeper index =
          ({ k with sleepers := put k.sleepers index none }.wake
            entry.thread).2 := by
        unfold expireSleeper
        rw [hentry]
        exact if_pos hreached
      obtain ⟨h1, -, h3⟩ := wake_tables
        { k with sleepers := put k.sleepers index none } entry.thread
      rw [heq]
      refine ⟨h3, fun i hi => ?_, fun s hs => ?_⟩
      · rw [h1]
        exact put_other hi
      · simp only [h1, put_same, reduceCtorEq] at hs
    · have heq : k.expireSleeper index = k := by
        unfold expireSleeper
        rw [hentry]
        exact if_neg hreached
      rw [heq]
      refine ⟨rfl, fun _ _ => rfl, fun s hs => ?_⟩
      rw [hentry] at hs
      rw [← Option.some.inj hs]
      exact Bool.eq_false_of_not_eq_true hreached

theorem Matched.wakeExpiredSleepers (h : k.Matched context) :
    k.wakeExpiredSleepers.Matched context ∧ k.wakeExpiredSleepers.Future ∧
      k.wakeExpiredSleepers.timerTicks = k.timerTicks := by
  have hloop : ∀ n ≤ maxSleepers,
      ((List.range n).foldl Kernel.expireSleeper k).Matched context ∧
        ((List.range n).foldl Kernel.expireSleeper k).timerTicks =
          k.timerTicks ∧
        ∀ i < n, ∀ s,
          ((List.range n).foldl Kernel.expireSleeper k).sleepers i = some s →
            reached k.ticks s.deadline = false := by
    intro n
    induction n with
    | zero => exact fun _ => ⟨h, rfl, fun i hi => absurd hi (Nat.not_lt_zero i)⟩
    | succ n ih =>
      intro hn
      obtain ⟨hm, hticks, hfuture⟩ := ih (Nat.le_of_succ_le hn)
      rw [List.range_succ, List.foldl_append, List.foldl_cons, List.foldl_nil]
      generalize (List.range n).foldl Kernel.expireSleeper k = k₁ at *
      obtain ⟨h1, h2, h3⟩ := k₁.expireSleeper_table n
      refine ⟨hm.expireSleeper (Nat.lt_of_succ_le hn), h1.trans hticks,
        fun i hi s hs => ?_⟩
      unfold ticks at h3 ⊢
      rw [hticks] at h3
      rcases Nat.lt_succ_iff_lt_or_eq.mp hi with hlt | rfl
      · rw [h2 i (Nat.ne_of_lt hlt)] at hs
        exact hfuture i hlt s hs
      · exact h3 s hs
  obtain ⟨hm, hticks, hfuture⟩ := hloop maxSleepers (Nat.le_refl _)
  refine ⟨hm, fun index hlt s hs => ?_, hticks⟩
  unfold ticks
  rw [show k.wakeExpiredSleepers.timerTicks = k.timerTicks from hticks]
  exact hfuture index hlt s hs

theorem Matched.tick (h : k.Waits) : k.tick.Matched k.contextOf ∧
    k.tick.Future := by
  -- The clock moves on, and a sleep that was not due is not overdue yet.
  have hclock : { k with timerTicks := k.timerTicks + 1 }.Matched k.contextOf := by
    refine { h.toMatched with late := fun t due hc hb => ?_, early := ?_ }
    · obtain ⟨hle, hsoon⟩ := h.late t due hc hb
      have hne : due ≠ k.timerTicks := by
        rintro rfl
        obtain ⟨e, he⟩ := h.entry t hb
        obtain ⟨-, c, hc', hmade⟩ := h.waiting e t he
        rw [hc] at hc'
        obtain rfl := Option.some.inj hc'
        cases e with
        | sleeper index =>
          obtain ⟨s, hs, hdeadline⟩ := hmade
          rw [named_sleeper] at he
          split at he
          · rename_i hlt
            have hnot := h.future index hlt s hs
            unfold ticks at hnot
            rw [hdeadline, (reached_iff hle hsoon).mpr rfl] at hnot
            cases hnot
          · cases he
        | futex index => exact hmade
        | joiner target index => cases hmade
      show k.timerTicks + 1 ≤ due ∧ due < k.timerTicks + 1 + 2 ^ 63
      omega
    · intro t due hc hb
      exact Nat.le_succ_of_le (h.early t due hc hb)
  obtain ⟨hm, hfuture, hticks⟩ := hclock.wakeExpiredSleepers
  unfold Kernel.tick
  generalize ({ k with timerTicks := k.timerTicks + 1 }).wakeExpiredSleepers =
    k₁ at *
  have hloop : ∀ n ≤ maxFutexWaiters,
      ((List.range n).foldl Kernel.expireFutex k₁).Matched k.contextOf ∧
        ((List.range n).foldl Kernel.expireFutex k₁).Future := by
    intro n
    induction n with
    | zero => exact fun _ => ⟨hm, hfuture⟩
    | succ n ih =>
      intro hn
      obtain ⟨hm', hfuture'⟩ := ih (Nat.le_of_succ_le hn)
      rw [List.range_succ, List.foldl_append, List.foldl_cons, List.foldl_nil]
      generalize (List.range n).foldl Kernel.expireFutex k₁ = k₂ at *
      unfold Kernel.expireFutex
      split
      · exact ⟨hm', hfuture'⟩
      · rename_i entry hentry
        split
        · refine ⟨hm'.fireFutex (Nat.lt_of_succ_le hn) hentry, ?_⟩
          obtain ⟨h1, -, h3⟩ := wake_tables
            { k₂ with futexWaiters := put k₂.futexWaiters n none } entry.thread
          exact hfuture'.congr h1 h3
        · exact ⟨hm', hfuture'⟩
  exact hloop maxFutexWaiters (Nat.le_refl _)

theorem Matched.futexWake (h : k.Matched context) (hfuture : k.Future)
    (address count : Nat) :
    ((List.range maxFutexWaiters).foldl (futexWakeOne address count)
      (0, k)).2.Matched context ∧
    ((List.range maxFutexWaiters).foldl (futexWakeOne address count)
      (0, k)).2.Future := by
  have hloop : ∀ n ≤ maxFutexWaiters,
      ((List.range n).foldl (futexWakeOne address count)
        (0, k)).2.Matched context ∧
      ((List.range n).foldl (futexWakeOne address count) (0, k)).2.Future := by
    intro n
    induction n with
    | zero => exact fun _ => ⟨h, hfuture⟩
    | succ n ih =>
      intro hn
      obtain ⟨hm', hfuture'⟩ := ih (Nat.le_of_succ_le hn)
      rw [List.range_succ, List.foldl_append, List.foldl_cons, List.foldl_nil]
      generalize (List.range n).foldl (futexWakeOne address count) (0, k) =
        state at *
      unfold futexWakeOne
      dsimp only
      split
      · exact ⟨hm', hfuture'⟩
      · rename_i entry hentry
        split
        · refine ⟨hm'.fireFutex (Nat.lt_of_succ_le hn) hentry, ?_⟩
          obtain ⟨h1, -, h3⟩ := wake_tables
            { state.2 with futexWaiters := put state.2.futexWaiters n none }
            entry.thread
          exact hfuture'.congr h1 h3
        · exact ⟨hm', hfuture'⟩
  exact hloop maxFutexWaiters (Nat.le_refl _)

theorem Waits.wakes (h : k.Waits) {a : Action} (hwakes : k.Wakes a k')
    (hsyscall : a.isInternal = false) : k'.Waits := by
  have hwoken := hwakes.woken
  have hmatched : k'.Matched k.contextOf ∧ k'.Future := by
    cases hwakes with
    | tick => exact Matched.tick h
    | futex address count => exact h.toMatched.futexWake h.future address count
    | wake t => cases hsyscall
  have hcontext : k'.contextOf = k.contextOf := funext hwoken.contextOf
  refine { toMatched := by rw [hcontext]; exact hmatched.1,
           future := hmatched.2, current := ?_ }
  rw [hwoken.currentThread]
  rcases hwoken.state k.currentThread with heq | ⟨hb, -⟩
  · rw [heq, h.current]
  · rw [h.current] at hb
    cases hb

end Step

/-! ## Runs -/

/-- The action is a syscall or an interrupt, it does not block a thread that
the run queue still names, and it terminates no process whose main thread is
blocked or running. -/
def Orderly (k : Kernel) (a : Action) : Prop :=
  a.isInternal = false ∧
    (a.mayBlock → k.currentThread ∉ k.runQueue.contents) ∧
    ∀ p ∈ a.terminates, ∀ t ∈ k.currentProcess.bind (k.childMainThread p),
      (k.threads t).state = .ready ∨ (k.threads t).state = .exited

instance (k : Kernel) (a : Action) : Decidable (k.Orderly a) :=
  inferInstanceAs (Decidable (_ ∧ _ ∧ _))

theorem Registers.mayBlock {k k' : Kernel} {a : Action} {c : Context}
    (hreg : k.Registers a c k') : a.mayBlock := by
  cases hreg <;> rfl

theorem Waits.step {k k' : Kernel} (h : k.Waits) (hw : k.WellFormed)
    (hcounted : k.Counted) {a : Action} (hguard : k.Orderly a)
    (hstep : k.step a = some k') : k'.Waits := by
  obtain ⟨hsyscall, hout, hready⟩ := hguard
  cases step_effect hw.idle.1 hstep with
  | quiet hq => exact h.quiet hq
  | woken hr hwakes hq => exact (h.wakes hwakes hsyscall).quiet hq
  | resumed hr hlive hq => exact h.clear.quiet hq
  | joined hr hexited hq => exact (h.leaveJoin hexited).quiet hq
  | waited hr hexited hq =>
    exact ((h.leaveJoin hexited).collect _ _ _).quiet hq
  | yielded hr => exact h.yieldNow hw
  | exited status hr hidle => exact h.exitCurrent hw hidle status
  | blocked hr hidle hreg =>
    exact h.blocked hw hidle hreg hsyscall (hout hreg.mayBlock)
  | reaped hr hlt hne hexited hq => exact (h.markReapable hexited).quiet hq
  | collected hr hchild hlt hne hexited hq =>
    exact ((h.markReapable hexited).collect _ _ _).quiet hq
  | @terminated p t slot _ hr hchild hlookup hlive hq =>
    have hs := (hready p rfl t hlookup).resolve_right hlive
    exact (h.terminated p hs).quiet hq
  | handed hr hspawns hkind hprocess hhanded hq =>
    rw [hsyscall] at hkind
    subst hkind
    exact (h.handed hcounted hhanded).quiet hq
  | recorded hr huser hrec => exact h.recorded hrec
  | spawned hr huser hrec hhanded hq =>
    exact (((h.recorded hrec).handed (hcounted.recorded hrec)
      hhanded).setProcessMainThread _ _).quiet hq

theorem Booted.waits {k : Kernel} (h : k.Booted) : k.Waits := by
  obtain ⟨userContext, hfirst⟩ := h.first
  have hstate : ∀ t, (k.threads t).state ≠ .blocked := by
    intro t
    rcases slot_cases t with rfl | rfl | hge
    · rw [h.idle_field Thread.state fun _ => rfl]
      decide
    · rw [show (k.threads 1).state = .running from congrArg Thread.state hfirst]
      decide
    · rw [h.other hge Thread.state fun _ => rfl]
      decide
  have hcount : ∀ t, (k.threads t).joinWaiterCount = 0 := by
    intro t
    rcases slot_cases t with rfl | rfl | hge
    · exact h.idle_field Thread.joinWaiterCount fun _ => rfl
    · exact congrArg Thread.joinWaiterCount hfirst
    · exact h.other hge Thread.joinWaiterCount fun _ => rfl
  have hnamed : ∀ e, k.named e = none := by
    intro e
    cases e with
    | sleeper index =>
      rw [named_sleeper, h.sleepers]
      exact ite_self _
    | futex index =>
      rw [named_futex, h.futexWaiters]
      exact ite_self _
    | joiner t index =>
      rw [named_joiner, hcount, if_neg fun hx => absurd hx.2 (Nat.not_lt_zero _)]
  have hcontext : ∀ t c, k.contextOf t = some c → c = .trampoline := by
    intro t c hc
    rw [h.contextOf] at hc
    exact (Option.some.inj hc).symm
  refine
    { waiting := fun e t he => ?_
      entry := fun t ht => absurd ht (hstate t)
      lt := fun t ht => absurd ht (hstate t)
      unique := fun e e' t he => ?_
      joined := fun t _ c u hc hjoins => ?_
      late := fun t due hc hb => absurd hb (hstate t)
      early := fun t due hc => ?_
      queue := fun t _ => hstate t
      future := fun index _ s hs => ?_
      current := ?_ }
  · rw [hnamed] at he
    cases he
  · rw [hnamed] at he
    cases he
  · rw [hcontext t c hc] at hjoins
    cases hjoins
  · cases hcontext t _ hc
  · rw [h.sleepers] at hs
    cases hs
  · rw [h.currentThread]
    exact congrArg Thread.state hfirst

/-- The wait registrations are those of the blocked threads. -/
structure WaitRegistrations (k : Kernel) : Prop where
  /-- an entry names a thread that is blocked in the call that made it -/
  blocked : ∀ e t, k.named e = some t → (k.threads t).state = .blocked ∧
    ∃ c, k.contextOf t = some c ∧ k.MadeBy e c
  /-- a blocked thread has exactly one entry -/
  entry : ∀ t, (k.threads t).state = .blocked → ∃! e, k.named e = some t
  /-- a sleep that goes on is past its deadline -/
  sleep : ∀ due, k.resuming = some (.sleeping due) → due ≤ k.timerTicks
  /-- a join that goes on after it has blocked finds its target exited -/
  join : ∀ c t, k.resuming = some c → c.joins = some t →
    (k.threads t).state = .exited
  /-- a thread that calls `syscall_sleep` finds a free sleeper -/
  room : (freeEntry k.sleepers maxSleepers).isSome

/-- The sleepers name different blocked threads, of which the current thread
is none. -/
theorem Waits.room {k : Kernel} (h : k.Waits) (hw : k.WellFormed) :
    (freeEntry k.sleepers maxSleepers).isSome := by
  by_contra hfull
  have hused : ∀ i < maxSleepers, ∃ t, k.named (.sleeper i) = some t := by
    intro i hi
    unfold freeEntry at hfull
    rw [List.find?_isSome] at hfull
    push Not at hfull
    have hi' := hfull i (List.mem_range.mpr hi)
    rw [ne_eq, Bool.not_eq_true, Option.isNone_eq_false_iff,
      Option.isSome_iff_exists] at hi'
    obtain ⟨s, hs⟩ := hi'
    exact ⟨s.thread, by rw [named_sleeper, if_pos hi, hs]; rfl⟩
  choose! sleeping hnamed using hused
  have hinj : Set.InjOn sleeping (Finset.range maxSleepers) := by
    intro i hi j hj heq
    rw [Finset.coe_range, Set.mem_Iio] at hi hj
    have hsame := h.unique _ _ _ (hnamed i hi)
      ((hnamed j hj).trans (congrArg some heq.symm))
    exact Entry.sleeper.inj hsame
  have hsub : (Finset.range maxSleepers).image sleeping ⊆
      (Finset.range maxThreads).erase k.currentThread := by
    intro t ht
    obtain ⟨i, hi, rfl⟩ := Finset.mem_image.mp ht
    have hb := (h.waiting _ _ (hnamed i (Finset.mem_range.mp hi))).1
    rw [Finset.mem_erase, Finset.mem_range]
    refine ⟨fun heq => ?_, h.lt _ hb⟩
    rw [heq, h.current] at hb
    cases hb
  have hcard := Finset.card_le_card hsub
  rw [Finset.card_image_of_injOn hinj, Finset.card_erase_of_mem
    (Finset.mem_range.mpr hw.current_lt), Finset.card_range,
    Finset.card_range] at hcard
  revert hcard
  decide

theorem Waits.registrations {k : Kernel} (h : k.Waits) (hw : k.WellFormed) :
    k.WaitRegistrations where
  blocked := h.waiting
  entry t ht := by
    obtain ⟨e, he⟩ := h.entry t ht
    exact ⟨e, he, fun e' he' => h.unique e' e t he' he⟩
  sleep due hr := by
    refine h.early k.currentThread due ?_ ?_
    · rw [contextOf, if_pos rfl, hr]
    · rw [h.current]
      decide
  join c t hr hjoins := by
    refine h.joined k.currentThread hw.current_lt c t ?_ hjoins ?_
    · rw [contextOf, if_pos rfl, hr]
    · rw [h.current]
      decide
  room := h.room hw

/-- The registrations match the blocked threads in every orderly run. -/
theorem waitRegistrations {memory : Memory} {k : Kernel}
    (h : ReachedFrom memory Orderly k) : k.WaitRegistrations := by
  obtain ⟨hw, -, hwaits⟩ := h.invariant (fun k => k.Counted ∧ k.Waits)
    (fun _ hk => ⟨hk.counted, hk.waits⟩)
    fun _ _ _ hw hk hguard hstep =>
      ⟨hk.1.step hw hguard.1 hstep, hk.2.step hw hk.1 hguard hstep⟩
  exact hwaits.registrations hw

set_option maxRecDepth 100000 in
/-- A run in which PID 1 sleeps. -/
theorem waitRegistrations_sleep : ∃ k : Kernel, k.WaitRegistrations ∧
    (k.threads 1).state = .blocked := by
  have hrun : ((boot plainMemory smallImage).bind (exec step Orderly
      [.resume, .sleep 1000])).any
      fun k => (k.threads 1).state == .blocked := by
    decide +kernel
  obtain ⟨k, hk, hblocked⟩ := ReachedFrom.of_exec hrun
  exact ⟨k, waitRegistrations hk, beq_iff_eq.mp hblocked⟩

set_option maxRecDepth 100000 in
/-- A child that is terminated while it sleeps leaves its sleeper behind. -/
theorem stale_sleeper : ∃ k, ReachedFrom plainMemory Always k ∧
    ¬ k.WaitRegistrations := by
  have hrun : ((boot plainMemory smallImage).bind (exec step Always
      [.resume, .spawnSmall, .yieldNow, .resume, .yieldNow, .resume,
        .sleep 1000, .resume, .terminateProcess 2])).any
      fun k => k.sleepers 0 == some { thread := 2, deadline := 100 } &&
        (k.threads 2).state == .exited := by
    decide +kernel
  obtain ⟨k, hk, hfound⟩ := ReachedFrom.of_exec hrun
  rw [Bool.and_eq_true, beq_iff_eq, beq_iff_eq] at hfound
  refine ⟨k, hk, fun h => ?_⟩
  have hnamed : k.named (.sleeper 0) = some 2 := by
    rw [named_sleeper, hfound.1]
    rfl
  have hblocked := (h.blocked _ _ hnamed).1
  rw [hfound.2] at hblocked
  cases hblocked

end Kernel

end OpenKernel
