import OpenKernel.Kernel.Events
import OpenKernel.Kernel.Joiners

/-!
# The slots of collected processes

When a joiner always leaves its join, the counter of a thread is exactly the
number of its joiners, and the slot of a collected main thread becomes
reapable with the last of them.
-/

namespace OpenKernel

open Lib

namespace Event

/-- The event collects the main thread `t`. -/
def Collects (t : ThreadId) : Event → Prop
  | collected _ _ u _ => u = t
  | _ => False

instance (t : ThreadId) : DecidablePred (Collects t) := fun e => by
  cases e <;> unfold Collects <;> infer_instance

end Event

namespace Kernel

/-- The main thread `t` has been collected, and its slot has not been handed
out since. -/
def Collected (k : Kernel) (t : ThreadId) : Prop :=
  Since (Event.Collects t) (· = .handed t) k.log

instance (k : Kernel) (t : ThreadId) : Decidable (k.Collected t) :=
  inferInstanceAs (Decidable (Since _ _ _))

/-- The counters are exact, no exited thread is inside a join, and a collected
thread that is not reapable has joiners. -/
structure Exact (k : Kernel) : Prop where
  card : ∀ t, (k.joiners t).card = (k.threads t).joinWaiterCount
  outside : ∀ w, (k.threads w).state = .exited → ∀ t, w ∉ k.joiners t
  collected : ∀ t, k.Collected t → (1 ≤ t ∧ t < maxThreads) ∧
    t ≠ k.currentThread ∧ (k.threads t).state = .exited ∧
      ((k.threads t).reapable = true ∨ (k.threads t).joinWaiterCount ≠ 0)

/-- The same while the current thread is about to be saved at `saved`. -/
structure Balanced (k : Kernel) (saved : Context) : Prop where
  card : ∀ t, (k.joiners t).card + (if saved.joins = some t then 1 else 0) =
    (k.threads t).joinWaiterCount
  outside : ∀ w, (k.threads w).state = .exited → ∀ t, w ∉ k.joiners t
  collected : ∀ t, k.Collected t → (1 ≤ t ∧ t < maxThreads) ∧
    (k.threads t).state = .exited ∧
      ((k.threads t).reapable = true ∨ (k.threads t).joinWaiterCount ≠ 0)

section Step

variable {k k' : Kernel}

/-- Minor events collect nothing. -/
theorem Collected.of_minor {t : ThreadId} {log log' : List Event}
    (h : Extends Event.IsMinor log log')
    (hs : Since (Event.Collects t) (· = .handed t) log') :
    Since (Event.Collects t) (· = .handed t) log := by
  refine h.of_since (fun e he hc => ?_) hs
  cases e <;> first | exact hc | exact he

/-- An event that is not a collection collects nothing. -/
theorem Collected.of_cons {t : ThreadId} {e : Event} {log : List Event}
    (he : ¬ e.Collects t) (hs : Since (Event.Collects t) (· = .handed t) (e :: log)) :
    Since (Event.Collects t) (· = .handed t) log ∧ e ≠ .handed t := by
  rcases hs with hc | ⟨hne, hs⟩
  · exact absurd hc he
  · exact ⟨hs, hne⟩

/-! ## Changes that keep what the invariant reads -/

theorem Exact.congr (h : k.Exact) (hcontext : ∀ t, k'.contextOf t = k.contextOf t)
    (hcurrent : k'.currentThread = k.currentThread)
    (hcount : ∀ t, (k'.threads t).joinWaiterCount = (k.threads t).joinWaiterCount)
    (hreapable : ∀ t, (k.threads t).reapable = true →
      (k'.threads t).reapable = true)
    (hexited : ∀ t, (k'.threads t).state = .exited ↔
      (k.threads t).state = .exited)
    (hlog : ∀ t, k'.Collected t → k.Collected t) : k'.Exact where
  card t := by
    rw [joiners_congr hcontext, hcount]
    exact h.card t
  outside w hw t := by
    rw [joiners_congr hcontext]
    exact h.outside w ((hexited w).mp hw) t
  collected t ht := by
    obtain ⟨hrange, hcur, hx, hr⟩ := h.collected t (hlog t ht)
    rw [hcurrent, hcount]
    exact ⟨hrange, hcur, (hexited t).mpr hx, hr.imp_left (hreapable t)⟩

theorem Exact.quiet (h : k.Exact) (hq : Quiet k k') : k'.Exact :=
  h.congr hq.contextOf hq.currentThread hq.joinWaiterCount
    (fun t ht => by rw [hq.reapable, ht]) (fun t => by rw [hq.state])
    fun _ => Collected.of_minor hq.minor

theorem Exact.woken (h : k.Exact) (hw : Woken k k') : k'.Exact :=
  h.congr hw.contextOf hw.currentThread hw.joinWaiterCount
    (fun t ht => by rw [hw.reapable, ht]) hw.exited_iff
    fun _ => Collected.of_minor hw.minor

/-- The thread table, the contexts and the current thread are the same. -/
theorem Exact.same (h : k.Exact) (hthreads : k'.threads = k.threads)
    (hcurrent : k'.currentThread = k.currentThread)
    (hresuming : k'.resuming = k.resuming)
    (hlog : ∀ t, k'.Collected t → k.Collected t) : k'.Exact := by
  refine h.congr (fun t => ?_) hcurrent ?_ ?_ ?_ hlog
  · unfold contextOf
    rw [hthreads, hcurrent, hresuming]
  · exact fun t => by rw [hthreads]
  · exact fun t ht => by rw [hthreads, ht]
  · exact fun t => by rw [hthreads]

theorem markReapable_fields (k : Kernel) (t : ThreadId) :
    (∀ u, (k.markReapable t).contextOf u = k.contextOf u ∧
      ((k.markReapable t).threads u).state = (k.threads u).state ∧
      ((k.markReapable t).threads u).joinWaiterCount =
        (k.threads u).joinWaiterCount) ∧
      (k.markReapable t).currentThread = k.currentThread ∧
      (∀ u, u ≠ t → (k.markReapable t).threads u = k.threads u) ∧
      (((k.markReapable t).threads t).reapable = true ∨
        ((k.markReapable t).threads t).joinWaiterCount ≠ 0) ∧
      ((k.threads t).reapable = true →
        ((k.markReapable t).threads t).reapable = true) := by
  unfold markReapable
  split
  · have hself : (k.updateThread t fun t => { t with reapable := true }).threads t =
        { k.threads t with reapable := true } := put_same _ _ _
    have hother : ∀ u, u ≠ t → (k.updateThread t fun t =>
        { t with reapable := true }).threads u = k.threads u :=
      fun u hu => put_other hu
    refine ⟨fun u => ⟨k.contextOf_updateThread t rfl u, ?_⟩, rfl, hother, ?_, ?_⟩
    · by_cases hut : u = t
      · rw [hut, hself]
        exact ⟨rfl, rfl⟩
      · rw [hother u hut]
        exact ⟨rfl, rfl⟩
    · rw [hself]
      exact .inl rfl
    · rw [hself]
      exact fun _ => rfl
  · rename_i hcount
    exact ⟨fun _ => ⟨rfl, rfl, rfl⟩, rfl, fun _ _ => rfl, .inr hcount, id⟩

theorem Exact.markReapable (h : k.Exact) (t : ThreadId) :
    (k.markReapable t).Exact := by
  have hlog := k.log_markReapable t
  obtain ⟨hmark, hcur, hother, -, hkeep⟩ := k.markReapable_fields t
  refine h.congr (fun u => (hmark u).1) hcur (fun u => (hmark u).2.2)
    (fun u hu => ?_) (fun u => by rw [(hmark u).2.1]) fun u hu => ?_
  · by_cases hut : u = t
    · rw [hut] at hu ⊢
      exact hkeep hu
    · rw [hother u hut, hu]
  · unfold Collected at hu
    rw [hlog] at hu
    exact hu

/-- A thread that goes on and was inside no join. -/
theorem Exact.clear (h : k.Exact) {c : Context} (hr : k.resuming = some c)
    (hjoins : c.joins = none) : { k with resuming := none }.Exact := by
  have hjoiners : ∀ t, { k with resuming := none }.joiners t = k.joiners t := by
    intro t
    rw [joiners_clear, Finset.erase_eq_of_notMem]
    rw [mem_joiners, contextOf, if_pos rfl, hr]
    rintro ⟨-, hmem⟩
    rw [show (some c).bind Context.joins = c.joins from rfl, hjoins] at hmem
    cases hmem
  exact
    { card := fun t => by rw [hjoiners]; exact h.card t
      outside := fun w hw t => by rw [hjoiners]; exact h.outside w hw t
      collected := h.collected }

/-- The current thread leaves its join. -/
theorem Exact.leaveJoin (h : k.Exact) {c : Context} {t : ThreadId}
    (hr : k.resuming = some c) (hjoins : c.joins = some t)
    (hlt : k.currentThread < maxThreads) : (k.leaveJoin t).Exact := by
  have hmem : k.currentThread ∈ k.joiners t := by
    refine mem_joiners_of_context hlt ?_ hjoins
    rw [contextOf, if_pos rfl, hr]
  have hpos := Finset.card_pos.mpr ⟨_, hmem⟩
  have hcount : (k.threads t).joinWaiterCount ≠ 0 := by
    have := h.card t
    omega
  have hself : ({ k with resuming := none }.updateThread t
      fun t => { t with joinWaiterCount := t.joinWaiterCount - 1 }).threads t =
        { k.threads t with
          joinWaiterCount := (k.threads t).joinWaiterCount - 1 } :=
    put_same _ _ _
  have hother : ∀ u, u ≠ t → ({ k with resuming := none }.updateThread t
      fun t => { t with joinWaiterCount := t.joinWaiterCount - 1 }).threads u =
        k.threads u := fun u hu => put_other hu
  have hctx := { k with resuming := none }.contextOf_updateThread t (f := fun t =>
    { t with joinWaiterCount := t.joinWaiterCount - 1 }) rfl
  have hcurrent : ({ k with resuming := none }.updateThread t fun t =>
      { t with joinWaiterCount := t.joinWaiterCount - 1 }).currentThread =
        k.currentThread := rfl
  have hdrop : { k with resuming := none }.dropJoinWaiter t =
      { k with resuming := none }.updateThread t fun t =>
        { t with joinWaiterCount := t.joinWaiterCount - 1 } := by
    unfold dropJoinWaiter
    exact if_pos hcount
  have hlog := k.log_leaveJoin t
  unfold Kernel.leaveJoin at *
  rw [hdrop] at *
  generalize ({ k with resuming := none }.updateThread t
    fun t => { t with joinWaiterCount := t.joinWaiterCount - 1 }) = k₁ at *
  obtain ⟨hmark, hcur₁, hother₁, hreap, -⟩ := k₁.markReapable_fields t
  have hjoiners : ∀ u, (k₁.markReapable t).joiners u =
      (k.joiners u).erase k.currentThread := by
    intro u
    rw [joiners_congr fun w => (hmark w).1.trans (hctx w), joiners_clear]
  refine ⟨fun u => ?_, fun w hw u => ?_, fun u hu => ?_⟩
  · rw [hjoiners, (hmark u).2.2]
    by_cases hut : u = t
    · rw [hut, hself, Finset.card_erase_of_mem hmem, h.card]
    · rw [hother u hut, Finset.erase_eq_of_notMem, h.card]
      rw [mem_joiners, contextOf, if_pos rfl, hr]
      rintro ⟨-, hc⟩
      exact hut (Option.some.inj (hc.symm.trans hjoins))
  · rw [hjoiners, Finset.mem_erase, not_and]
    intro hne
    refine h.outside w ?_ u
    rw [(hmark w).2.1] at hw
    by_cases hwt : w = t
    · rw [hwt, hself] at hw
      rw [hwt, hw]
    · rw [hother w hwt] at hw
      exact hw
  · obtain ⟨hrange, hcur, hx, hrc⟩ := h.collected u (by
      unfold Collected at hu
      rw [hlog] at hu
      exact hu)
    rw [hcur₁, hcurrent, (hmark u).2.1]
    by_cases hut : u = t
    · subst hut
      rw [hself]
      exact ⟨hrange, hcur, hx, hreap⟩
    · rw [hother₁ u hut, hother u hut]
      exact ⟨hrange, hcur, hx, hrc⟩

/-! ## Switching away -/

theorem Exact.leave (h : k.Exact) (saved : Context) (hjoins : saved.joins = none) :
    k.Balanced saved where
  card t := by
    have hne : ¬ saved.joins = some t := by
      rw [hjoins]
      exact fun heq => nomatch heq
    rw [if_neg hne]
    exact h.card t
  outside := h.outside
  collected t ht := by
    obtain ⟨hrange, -, hx, hr⟩ := h.collected t ht
    exact ⟨hrange, hx, hr⟩

theorem Balanced.dispatch {saved : Context} (h : k.Balanced saved)
    (hd : Dispatched k saved k') (hlt : k.currentThread < maxThreads)
    (hr : k.resuming = none)
    (hleaving : (k.threads k.currentThread).state = .exited → saved.joins = none) :
    k'.Exact where
  card t := by
    rw [card_joiners_dispatch hd hlt hr, hd.joinWaiterCount]
    exact h.card t
  outside w hw t := by
    have hne : w ≠ k'.currentThread := by
      rintro rfl
      rw [hd.state, if_pos rfl] at hw
      cases hw
    rw [hd.state_of_ne w hne] at hw
    rw [joiners_dispatch hd hlt hr]
    split
    · rename_i hjoins
      rw [Finset.mem_insert, not_or]
      refine ⟨?_, h.outside w hw t⟩
      rintro rfl
      rw [hleaving hw] at hjoins
      cases hjoins
    · exact h.outside w hw t
  collected t ht := by
    obtain ⟨hrange, hx, hrc⟩ := h.collected t
      (Collected.of_minor (hd.log.mono Event.isMinor_of_queue) ht)
    have hne : t ≠ k'.currentThread := by
      rintro rfl
      refine hd.runnable.elim (fun heq => ?_) fun hlive => hlive hx
      rw [heq] at hrange
      exact absurd hrange.1 (by decide)
    rw [hd.state_of_ne t hne, hd.reapable, hd.joinWaiterCount]
    exact ⟨hrange, hne, hx, hrc⟩

theorem Balanced.woken {saved : Context} (h : k.Balanced saved)
    (hw : Woken k k') : k'.Balanced saved where
  card t := by
    rw [joiners_congr hw.contextOf, hw.joinWaiterCount]
    exact h.card t
  outside w hx t := by
    rw [joiners_congr hw.contextOf]
    exact h.outside w ((hw.exited_iff w).mp hx) t
  collected t ht := by
    obtain ⟨hrange, hx, hrc⟩ := h.collected t (Collected.of_minor hw.minor ht)
    rw [hw.exited_iff, hw.reapable, hw.joinWaiterCount]
    exact ⟨hrange, hx, hrc⟩

/-- The current thread changes. -/
theorem Balanced.update {saved : Context} (h : k.Balanced saved)
    (hr : k.resuming = none) {f : Thread → Thread}
    (hout : ∀ t, k.Collected t → t ≠ k.currentThread)
    (hcontext : (f (k.threads k.currentThread)).context =
      (k.threads k.currentThread).context)
    (hcount : (f (k.threads k.currentThread)).joinWaiterCount =
      (k.threads k.currentThread).joinWaiterCount) :
    (k.updateThread k.currentThread f).Balanced saved := by
  have hself : (k.updateThread k.currentThread f).threads k.currentThread =
      f (k.threads k.currentThread) := put_same _ _ _
  have hother : ∀ t, t ≠ k.currentThread →
      (k.updateThread k.currentThread f).threads t = k.threads t :=
    fun t ht => put_other ht
  have hctx := k.contextOf_updateThread k.currentThread hcontext
  refine ⟨fun t => ?_, fun w hw t => ?_, fun t ht => ?_⟩
  · rw [joiners_congr hctx]
    by_cases hcur : t = k.currentThread
    · rw [hcur, hself, hcount]
      exact h.card _
    · rw [hother t hcur]
      exact h.card t
  · rw [joiners_congr hctx]
    by_cases hcur : w = k.currentThread
    · rw [hcur]
      exact current_not_joiner hr
    · rw [hother w hcur] at hw
      exact h.outside w hw t
  · rw [hother t (hout t ht)]
    exact h.collected t ht

theorem Exact.yieldNow (h : k.Exact) (hw : k.WellFormed)
    (hr : k.resuming = none) : k.yieldNow.Exact := by
  unfold Kernel.yieldNow
  dsimp only
  rw [if_neg hw.ne_noThread]
  have hleave := h.leave .yielded rfl
  split
  · exact hleave.dispatch (schedule_spec _ _).1 hw.current_lt hr fun _ => rfl
  · have hready := hleave.update hr (f := fun t => { t with state := .ready })
      (fun t ht => (h.collected t ht).2.1) rfl rfl
    have hwoken := woken_enqueue (k.setState k.currentThread .ready)
      k.currentThread
    refine (Balanced.woken hready hwoken).dispatch (schedule_spec _ _).1 ?_ ?_
      fun _ => rfl
    · rw [hwoken.currentThread]
      exact hw.current_lt
    · rw [hwoken.resuming]
      exact hr

/-- A blocking call enters its caller among the joiners that it counts. -/
theorem Exact.registers (h : k.Exact) {a : Action} {c : Context}
    (hreg : k.Registers a c k') : k'.Balanced c := by
  have hadd : ∀ t, (k.threads t).state ≠ .exited → ∀ c : Context,
      c.joins = some t → (k.addJoinWaiter t).Balanced c := by
    intro t hnot c hjoins
    have hself : (k.addJoinWaiter t).threads t =
        { k.threads t with
          joinWaiters := put (k.threads t).joinWaiters
            (k.threads t).joinWaiterCount k.currentThread
          joinWaiterCount := (k.threads t).joinWaiterCount + 1 } :=
      put_same _ _ _
    have hother : ∀ u, u ≠ t → (k.addJoinWaiter t).threads u = k.threads u :=
      fun u hu => put_other hu
    have hstate : ∀ u, ((k.addJoinWaiter t).threads u).state =
        (k.threads u).state := by
      intro u
      by_cases hut : u = t
      · rw [hut, hself]
      · rw [hother u hut]
    have hctx : ∀ u, (k.addJoinWaiter t).contextOf u = k.contextOf u :=
      k.contextOf_updateThread t rfl
    refine ⟨fun u => ?_, fun w hw u => ?_, fun u hu => ?_⟩
    · rw [joiners_congr hctx, hjoins, h.card]
      by_cases hut : u = t
      · subst hut
        rw [if_pos rfl, hself]
      · rw [if_neg fun heq => hut (Option.some.inj heq).symm, hother u hut]
        rfl
    · rw [joiners_congr hctx]
      rw [hstate] at hw
      exact h.outside w hw u
    · obtain ⟨hrange, -, hx, hrc⟩ := h.collected u hu
      have hut : u ≠ t := by
        rintro rfl
        exact hnot hx
      rw [hother u hut]
      exact ⟨hrange, hx, hrc⟩
  cases hreg with
  | raw => exact h.leave _ rfl
  | sleep ms index due =>
    exact (h.same rfl rfl rfl fun _ ht => ht : Exact
      { k with
        sleepers := put k.sleepers index
          (some { thread := k.currentThread, deadline := due % 2 ^ 64 }) }).leave
      _ rfl
  | futex actual expected timeout index address due =>
    exact (h.same rfl rfl rfl fun _ ht => ht : Exact
      { k with
        futexWaiters := put k.futexWaiters index
          (some { address, thread := k.currentThread
                  deadline := due.map (· % 2 ^ 64) }) }).leave _ rfl
  | join t _ _ hnot => exact hadd t hnot _ rfl
  | wait p t _ _ _ _ hnot => exact hadd t hnot _ rfl

theorem Exact.blocked (h : k.Exact) (hw : k.WellFormed) (hr : k.resuming = none)
    (hidle : k.currentThread ≠ idleThread) {a : Action} {c : Context}
    (hreg : k.Registers a c k') : (k'.blockCurrent c).Exact := by
  have hbalanced := h.registers hreg
  have hcur : k'.currentThread = k.currentThread ∧ k'.resuming = k.resuming := by
    cases hreg <;> exact ⟨rfl, rfl⟩
  have hlog := hreg.log_eq
  unfold Kernel.blockCurrent
  dsimp only
  rw [hcur.1, if_neg (not_or.mpr ⟨hw.ne_noThread, hidle⟩), ← hcur.1]
  have hset := hbalanced.update (hcur.2.trans hr)
    (f := fun t => { t with state := .blocked }) (fun t ht => by
      unfold Collected at ht
      rw [hlog] at ht
      rw [hcur.1]
      exact (h.collected t ht).2.1) rfl rfl
  have hrecord : ((k'.setState k'.currentThread .blocked).record
      (.blocked k'.currentThread c)).Balanced c :=
    { hset with
      collected := fun t ht => hset.collected t
        (Collected.of_cons (e := .blocked k'.currentThread c) id ht).1 }
  refine hrecord.dispatch (schedule_spec _ _).1 ?_ ?_ fun hx => ?_
  · show k'.currentThread < _
    rw [hcur.1]
    exact hw.current_lt
  · exact hcur.2.trans hr
  · have hx' : (put k'.threads k'.currentThread _ k'.currentThread).state =
      .exited := hx
    rw [put_same] at hx'
    cases hx'

theorem Balanced.reparent {saved : Context} (h : k.Balanced saved) (t : ThreadId) :
    (k.reparentChildrenOfExitedProcess t).Balanced saved ∧
      (k.reparentChildrenOfExitedProcess t).currentThread = k.currentThread ∧
      (k.reparentChildrenOfExitedProcess t).resuming = k.resuming := by
  have hlog := k.minor_reparent t
  unfold reparentChildrenOfExitedProcess at *
  split at hlog
  · exact ⟨h, rfl, rfl⟩
  · obtain ⟨log, heq, -⟩ := k.reparentChildren_spec _ t
    rw [heq] at hlog ⊢
    refine ⟨{ h with collected := fun u hu => h.collected u ?_ }, rfl, rfl⟩
    refine hlog.of_since (fun e he hc => ?_) hu
    obtain ⟨slot, child, -, rfl⟩ := he
    exact hc

theorem Exact.exitCurrent (h : k.Exact) (hw : k.WellFormed)
    (hr : k.resuming = none) (hidle : k.currentThread ≠ idleThread)
    (status : Nat) : (k.exitCurrent status).Exact := by
  unfold Kernel.exitCurrent
  dsimp only
  rw [if_neg (not_or.mpr ⟨hw.ne_noThread, hidle⟩)]
  have hupdate := (h.leave .finished rfl).update hr (f := fun t =>
      { t with
        state := .exited
        entry := none
        exitStatus := status
        reapable := !t.isUser }) (fun t ht => (h.collected t ht).2.1) rfl rfl
  have hended : ((k.updateThread k.currentThread fun t =>
      { t with
        state := .exited
        entry := none
        exitStatus := status
        reapable := !t.isUser }).record
      (.exited k.currentThread status)).Balanced .finished :=
    { hupdate with
      collected := fun t ht => hupdate.collected t
        (Collected.of_cons (e := .exited k.currentThread status) id ht).1 }
  have hwoken := woken_wakeJoinWaiters ((k.updateThread k.currentThread fun t =>
      { t with
        state := .exited
        entry := none
        exitStatus := status
        reapable := !t.isUser }).record
      (.exited k.currentThread status)) k.currentThread
  obtain ⟨hreparent, hcur, hres⟩ := (hended.woken hwoken).reparent k.currentThread
  refine hreparent.dispatch (schedule_spec _ _).1 ?_ ?_ fun _ => rfl
  · rw [hcur, hwoken.currentThread]
    exact hw.current_lt
  · rw [hres, hwoken.resuming]
    exact hr

/-- A thread that is inside no join is terminated. -/
theorem Exact.endThread (h : k.Exact) (p : ProcessId) {t : ThreadId}
    (hlive : (k.threads t).state ≠ .exited)
    (hout : ∀ u, t ∉ k.joiners u) : (k.endThread p t).Exact := by
  have hself : (k.endThread p t).threads t =
      { k.threads t with
        state := .exited, entry := none, exitStatus := terminatedStatus } :=
    put_same _ _ _
  have hother : ∀ u, u ≠ t → (k.endThread p t).threads u = k.threads u :=
    fun u hu => put_other hu
  have hctx : ∀ u, (k.endThread p t).contextOf u = k.contextOf u :=
    fun u => k.contextOf_updateThread t (f := fun t =>
      { t with state := .exited, entry := none, exitStatus := terminatedStatus })
      rfl u
  refine ⟨fun u => ?_, fun w hw u => ?_, fun u hu => ?_⟩
  · rw [joiners_congr hctx, h.card]
    by_cases hut : u = t
    · rw [hut, hself]
    · rw [hother u hut]
  · rw [joiners_congr hctx]
    by_cases hwt : w = t
    · rw [hwt]
      exact hout u
    · rw [hother w hwt] at hw
      exact h.outside w hw u
  · obtain ⟨hrange, hcur, hx, hrc⟩ := h.collected u
      (Collected.of_cons (e := .terminated p t) id hu).1
    have hut : u ≠ t := by
      rintro rfl
      exact hlive hx
    rw [hother u hut]
    exact ⟨hrange, hcur, hx, hrc⟩

/-! ## New threads and processes -/

theorem Exact.handed (h : k.Exact) (hw : k.WellFormed) (hcounted : k.Counted)
    {slot : ThreadId} {entry : Option Nat} {process : Option ProcessId}
    {isUser : Bool} (hk' : k.Handed slot entry process isUser k') : k'.Exact := by
  obtain ⟨k₁, userContext, ownsUserStack, hq, hslot, rfl⟩ := hk'
  obtain ⟨hpos, hlt, hexited, hreap⟩ := reusableSlot_some hslot
  have hidle : slot ≠ idleThread := Nat.one_le_iff_ne_zero.mp hpos
  have hcur : slot ≠ k₁.currentThread := by
    rw [hq.currentThread]
    rintro rfl
    rw [hw.current_kept hidle] at hreap
    cases hreap
  have h₁ := h.quiet hq
  have hzero : (k₁.threads slot).joinWaiterCount = 0 := by
    rw [hq.joinWaiterCount]
    exact hcounted.unreaped slot hidle hreap
  generalize hthread : newThread (k₁.threads slot) entry process userContext isUser
    ownsUserStack = thread
  have hcontext : thread.context = .trampoline := by rw [← hthread]; rfl
  have hcount : thread.joinWaiterCount = 0 := by rw [← hthread]; rfl
  have hstate : thread.state = .ready := by rw [← hthread]; rfl
  have hthreads := ((k₁.updateThread slot fun _ => thread).record
    (.handed slot)).enqueue_fields slot
  have hself : (k₁.install slot thread).threads slot = thread := by
    unfold install
    rw [hthreads.1]
    exact put_same _ _ _
  have hother : ∀ u, u ≠ slot →
      (k₁.install slot thread).threads u = k₁.threads u := by
    intro u hu
    unfold install
    rw [hthreads.1]
    exact put_other hu
  -- The slot was inside no join, since its last thread has exited.
  have hjoiners : ∀ u, (k₁.install slot thread).joiners u = k₁.joiners u := by
    intro u
    rw [joiners_install hcur hcontext, Finset.erase_eq_of_notMem]
    exact h₁.outside slot (by rw [hq.state, hexited]) u
  refine ⟨fun u => ?_, fun w hx u => ?_, fun u hu => ?_⟩
  · rw [hjoiners, h₁.card]
    by_cases hus : u = slot
    · rw [hus, hself, hcount, hzero]
    · rw [hother u hus]
  · rw [hjoiners]
    have hws : w ≠ slot := by
      rintro rfl
      rw [hself, hstate] at hx
      cases hx
    rw [hother w hws] at hx
    exact h₁.outside w hx u
  · obtain ⟨hcollected, hne⟩ := Collected.of_cons (e := .handed slot) id
      (Collected.of_minor (k₁.minor_install slot thread) hu)
    have hus : u ≠ slot := fun heq => hne (by rw [heq])
    obtain ⟨hrange', hcur', hx, hrc⟩ := h₁.collected u hcollected
    rw [hother u hus]
    refine ⟨hrange', ?_, hx, hrc⟩
    unfold install
    rw [hthreads.2.1]
    exact hcur'

theorem Exact.recorded (h : k.Exact) {p : ProcessId} (hrec : k.Recorded p k') :
    k'.Exact := by
  obtain ⟨k₁, k₂, space, h₁, h₂, h₃⟩ := hrec
  obtain ⟨slot, -, -, -, -, rfl⟩ := createProcess_some h₂
  have hk₂ : ((k₁.setRecord slot
      { id := p, addressSpace := space, parent := k₁.currentProcess,
        mainThread := none }).record (.created p space)).Exact :=
    (h.quiet h₁).same rfl rfl rfl fun t ht =>
      (Collected.of_cons (e := .created p space) id ht).1
  exact hk₂.quiet h₃

theorem Exact.setProcessMainThread (h : k.Exact) (p : ProcessId) (t : ThreadId) :
    (k.setProcessMainThread p t).Exact := by
  unfold Kernel.setProcessMainThread
  split
  · exact h
  · exact h.same rfl rfl rfl fun u hu =>
      (Collected.of_cons (e := .mainThreadSet p t) id hu).1

/-- The record of a process whose main thread has exited is collected. -/
theorem Exact.collect (h : k.Exact) (p : ProcessId) {t : ThreadId} (status : Nat)
    (ht : (1 ≤ t ∧ t < maxThreads) ∧ t ≠ k.currentThread ∧
      (k.threads t).state = .exited ∧
        ((k.threads t).reapable = true ∨ (k.threads t).joinWaiterCount ≠ 0)) :
    (k.collect p t status).Exact := by
  have hfields : (k.collect p t status).threads = k.threads ∧
      (k.collect p t status).currentThread = k.currentThread ∧
      (k.collect p t status).resuming = k.resuming := by
    unfold Kernel.collect
    dsimp only
    split <;> exact ⟨rfl, rfl, rfl⟩
  obtain ⟨hthreads, hcurrent, hresuming⟩ := hfields
  have hctx : ∀ u, (k.collect p t status).contextOf u = k.contextOf u := by
    intro u
    unfold contextOf
    rw [hthreads, hcurrent, hresuming]
  refine ⟨fun u => ?_, fun w hw u => ?_, fun u hu => ?_⟩
  · rw [joiners_congr hctx, hthreads]
    exact h.card u
  · rw [joiners_congr hctx]
    rw [hthreads] at hw
    exact h.outside w hw u
  · rw [hthreads, hcurrent]
    by_cases hut : u = t
    · rw [hut]
      exact ht
    · refine h.collected u ?_
      have hnot : ¬ Event.Collects u (.collected k.currentThread p t status) :=
        fun heq => hut heq.symm
      unfold Collected at hu
      rcases k.log_collect p t status with heq | ⟨slot, -, heq⟩
      · rw [heq] at hu
        exact (Collected.of_cons hnot hu).1
      · rw [heq] at hu
        have hlog := (Collected.of_cons (e := .destroyed k.currentThread p t
          (k.processes slot).addressSpace) id hu).1
        exact (Collected.of_cons hnot hlog).1

end Step

/-! ## Runs -/

/-- The action is a syscall or an interrupt, a join that has blocked goes on
only after its target has exited, and no thread is terminated while it is
inside a join. -/
def JoinsReturn (k : Kernel) (a : Action) : Prop :=
  a.isInternal = false ∧
    (∀ c ∈ k.resuming, ∀ t ∈ c.joins, (k.threads t).state = .exited) ∧
    ∀ p ∈ a.terminates, ∀ t ∈ k.currentProcess.bind (k.childMainThread p),
      (k.threads t).state = .exited ∨ (k.contextOf t).bind Context.joins = none

instance (k : Kernel) (a : Action) : Decidable (k.JoinsReturn a) :=
  inferInstanceAs (Decidable (_ ∧ _ ∧ _))

theorem Exact.step {k k' : Kernel} (h : k.Exact) (hw : k.WellFormed)
    (hcounted : k.Counted) {a : Action} (hguard : k.JoinsReturn a)
    (hstep : k.step a = some k') : k'.Exact := by
  obtain ⟨hsyscall, hreturn, houtside⟩ := hguard
  cases step_effect hw.idle.1 hstep with
  | quiet hq => exact h.quiet hq
  | woken hr hwakes hq => exact (h.woken hwakes.woken).quiet hq
  | @resumed c _ hr hlive hq =>
    refine (h.clear hr ?_).quiet hq
    cases hjoins : c.joins with
    | none => rfl
    | some t => exact absurd (hreturn c hr t hjoins) (hlive t hjoins)
  | joined hr hexited hq => exact (h.leaveJoin hr rfl hw.current_lt).quiet hq
  | @waited p t _ hr hexited hq =>
    have hcur : k.contextOf k.currentThread = some (.waiting p t) := by
      rw [contextOf, if_pos rfl, hr]
    obtain ⟨hne, hlt⟩ := hw.joins _ _ t hcur rfl
    have hpos := Nat.one_le_iff_ne_zero.mpr (hw.ne_idle_of_exited hexited)
    have hleft := h.leaveJoin hr rfl hw.current_lt
    unfold Kernel.leaveJoin at *
    obtain ⟨hmark, hcur', hother, hreap, -⟩ :=
      ({ k with resuming := none }.dropJoinWaiter t).markReapable_fields t
    refine (hleft.collect p _ ⟨⟨hpos, hlt⟩, ?_, ?_, hreap⟩).quiet hq
    · rw [hcur']
      unfold dropJoinWaiter
      split <;> exact hne
    · rw [(hmark t).2.1]
      unfold dropJoinWaiter
      split
      · show (put k.threads t _ t).state = _
        rw [put_same]
        exact hexited
      · exact hexited
  | yielded hr => exact h.yieldNow hw hr
  | exited status hr hidle => exact h.exitCurrent hw hr hidle status
  | blocked hr hidle hreg => exact h.blocked hw hr hidle hreg
  | reaped hr hlt hne hexited hq => exact (h.markReapable _).quiet hq
  | @collected _ p t slot _ hr hchild hlt hne hexited hq =>
    have hpos := Nat.one_le_iff_ne_zero.mpr (hw.ne_idle_of_exited hexited)
    obtain ⟨hmark, hcur, -, hreap, -⟩ := k.markReapable_fields t
    refine ((h.markReapable t).collect p _ ⟨⟨hpos, hlt⟩, ?_, ?_, hreap⟩).quiet hq
    · rw [hcur]
      exact hne
    · rw [(hmark t).2.1, hexited]
  | @terminated p t slot _ hr hchild hlookup hlive hq =>
    have hout := (houtside p rfl t hlookup).resolve_left hlive
    refine ((h.endThread p hlive fun u hmem => ?_).woken
      (woken_wakeJoinWaiters _ _)).quiet hq
    rw [mem_joiners, hout] at hmem
    cases hmem.2
  | handed hr hspawns hkind hprocess hhanded hq =>
    exact (h.handed hw hcounted hhanded).quiet hq
  | recorded hr huser hrec => exact h.recorded hrec
  | spawned hr huser hrec hhanded hq =>
    exact (((h.recorded hrec).handed (hw.recorded hrec) (hcounted.recorded hrec)
      hhanded).setProcessMainThread _ _).quiet hq

theorem Booted.exact {k : Kernel} (h : k.Booted) : k.Exact := by
  obtain ⟨userContext, hfirst⟩ := h.first
  have hnone : ∀ t w, w ∉ k.joiners t := by
    intro t w hw
    rw [mem_joiners, h.contextOf] at hw
    cases hw.2
  refine ⟨fun t => ?_, fun w _ t => hnone t w, fun t ht => ?_⟩
  · rw [Finset.eq_empty_of_forall_notMem (hnone t), Finset.card_empty]
    rcases slot_cases t with rfl | rfl | hge
    · exact (h.idle_field Thread.joinWaiterCount fun _ => rfl).symm
    · exact (congrArg Thread.joinWaiterCount hfirst).symm
    · exact (h.other hge Thread.joinWaiterCount fun _ => rfl).symm
  · obtain ⟨space, hlog⟩ := h.log
    obtain ⟨e, he, hcollects⟩ := ht.exists
    rcases hlog e he with hminor | rfl | rfl
    · cases e <;> first | exact hminor.elim | exact hcollects.elim
    · exact hcollects.elim
    · exact hcollects.elim

/-- A collected main thread that no live thread is still joining has left a
slot that the next spawn can use. -/
def SlotsReusable (k : Kernel) : Prop :=
  ∀ t, k.Collected t →
    (∀ w, (k.threads w).state ≠ .exited → w ∉ k.joiners t) →
      (k.threads t).state = .exited ∧ (k.threads t).reapable = true ∧
        ∃ slot, k.reusableSlot = some slot ∧ slot ≤ t

/-- The slot search stops at a reapable slot at the latest. -/
theorem reusableSlot_of_reapable {k : Kernel} {t : ThreadId}
    (hrange : 1 ≤ t ∧ t < maxThreads) (hexited : (k.threads t).state = .exited)
    (hreapable : (k.threads t).reapable = true) :
    ∃ slot, k.reusableSlot = some slot ∧ slot ≤ t := by
  have htest : ((k.threads t).state == .exited && (k.threads t).reapable) = true := by
    rw [hexited, hreapable]
    rfl
  cases hfind : k.reusableSlot with
  | none =>
    unfold Kernel.reusableSlot at hfind
    rw [List.find?_range'_eq_none] at hfind
    have hmax : t < 1 + (maxThreads - 1) := hrange.2
    have hnot := hfind t hrange.1 hmax
    rw [htest] at hnot
    cases hnot
  | some slot =>
    refine ⟨slot, rfl, ?_⟩
    unfold Kernel.reusableSlot at hfind
    rw [List.find?_range'_eq_some] at hfind
    by_contra hlt
    have := hfind.2.2 t hrange.1 (Nat.lt_of_not_le hlt)
    rw [htest] at this
    cases this

/-- Collected threads become reusable in every run in which joins return. -/
theorem collected_reusable {memory : Memory} {k : Kernel}
    (h : ReachedFrom memory JoinsReturn k) : k.SlotsReusable := by
  obtain ⟨hw, -, hexact⟩ := h.invariant (fun k => k.Counted ∧ k.Exact)
    (fun _ hk => ⟨hk.counted, hk.exact⟩)
    fun _ _ _ hw hk hguard hstep =>
      ⟨hk.1.step hw hguard.1 hstep, hk.2.step hw hk.1 hguard hstep⟩
  intro t ht hnone
  obtain ⟨hrange, -, hexited, hr⟩ := hexact.collected t ht
  have hempty : k.joiners t = ∅ := by
    refine Finset.eq_empty_of_forall_notMem fun w hmem => ?_
    by_cases hx : (k.threads w).state = .exited
    · exact hexact.outside w hx t hmem
    · exact hnone w hx hmem
  have hcard := hexact.card t
  rw [hempty, Finset.card_empty] at hcard
  have hreapable := hr.resolve_right fun hne => hne hcard.symm
  exact ⟨hexited, hreapable, reusableSlot_of_reapable hrange hexited hreapable⟩

set_option maxRecDepth 100000 in
/-- A run in which a child exits while its parent waits for it. -/
theorem collected_reusable_wait : ∃ k : Kernel, k.SlotsReusable ∧
    k.Collected 2 := by
  have hrun : ((boot plainMemory smallImage).bind (exec step JoinsReturn
      [.resume, .spawnSmall, .waitProcess 2, .resume, .yieldNow, .resume,
        .exit 7, .resume])).any
      fun k => decide (k.Collected 2) := by
    decide +kernel
  obtain ⟨k, hk, hcollected⟩ := ReachedFrom.of_exec hrun
  exact ⟨k, collected_reusable hk, of_decide_eq_true hcollected⟩

set_option maxRecDepth 100000 in
/-- A joiner that is terminated while it is blocked stays counted, and the
slot of the thread that it has joined is lost. -/
theorem lost_slot : ∃ k, ReachedFrom plainMemory Always k ∧
    ¬ k.SlotsReusable := by
  have hrun : ((boot plainMemory smallImage).bind (exec step Always
      [.resume, .spawnSmall, .spawnSmall, .yieldNow, .resume, .yieldNow, .resume,
        .yieldNow, .resume, .join 2, .resume, .terminateProcess 3, .yieldNow,
        .resume, .exit 0, .resume, .tryWaitProcess 2])).any
      fun k => decide (k.Collected 2) && !(k.threads 2).reapable &&
        decide (∀ w < maxThreads, (k.threads w).state = .exited ∨
          w ∉ k.joiners 2) := by
    decide +kernel
  obtain ⟨k, hk, hfound⟩ := ReachedFrom.of_exec hrun
  simp only [Bool.and_eq_true, decide_eq_true_eq, Bool.not_eq_true'] at hfound
  obtain ⟨⟨hcollected, hreapable⟩, hnone⟩ := hfound
  refine ⟨k, hk, fun h => ?_⟩
  have hall : ∀ w, (k.threads w).state ≠ .exited → w ∉ k.joiners 2 := by
    intro w hlive hmem
    exact ((hnone w (mem_joiners.mp hmem).1).resolve_left hlive) hmem
  have := (h 2 hcollected hall).2.1
  rw [hreapable] at this
  cases this

end Kernel

end OpenKernel
