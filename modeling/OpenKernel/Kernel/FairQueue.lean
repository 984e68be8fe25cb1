import OpenKernel.Kernel.Queue

/-!
# The run queue as a fair queue

`replay` reads the log as the history of a first-in first-out queue, in which
the processor idles only when the queue is empty.  The run queue is at all
times what the log replays to, whatever slots threads are spawned into, so no
entry waits for more decisions of the scheduler than there were entries ahead
of it.
-/

namespace OpenKernel

open Lib

/-- The queue that the events leave, if they are the history of one. -/
def replay : List Event → Option (List ThreadId)
  | [] => some []
  | .enqueued t :: log => (replay log).map (· ++ [t])
  | .skipped t :: log | .dispatched t _ :: log =>
    (replay log).bind fun queue => if queue.head? = some t then some queue.tail else none
  | .idled :: log => (replay log).filter (·.isEmpty)
  | _ :: log => replay log

/-- A decision of `schedule_from_current`: which thread runs next. -/
def Event.isDecision : Event → Bool
  | .dispatched _ _ | .idled => true
  | _ => false

/-- The event takes the thread out of the queue. -/
def Event.takes (t : ThreadId) (e : Event) : Prop := e.dequeuedThread = some t

/-- What an event does to the queue. -/
inductive QueueStep : List ThreadId → Event → List ThreadId → Prop
  | enqueued (queue : List ThreadId) (t : ThreadId) : QueueStep queue (.enqueued t) (queue ++ [t])
  | taken (queue : List ThreadId) (e : Event) (t : ThreadId) (he : e.takes t) :
      QueueStep (t :: queue) e queue
  | idled : QueueStep [] .idled []
  | aside (queue : List ThreadId) (e : Event) (he : e.isDecision = false) : QueueStep queue e queue

/-! ## Histories of a fair queue -/

section Histories

variable {log new : List Event} {queue queue' : List ThreadId} {t : ThreadId} {e : Event} {i : Nat}

theorem replay_taken (he : e.takes t) :
    replay (e :: log) = (replay log).bind fun queue =>
      if queue.head? = some t then some queue.tail else none := by
  cases e with
  | skipped u | dispatched u found =>
    obtain rfl := Option.some.inj he
    rfl
  | _ => cases he

/-- Events that are not about the queue leave it alone. -/
theorem replay_aside {log' : List Event} (h : Extends Kernel.Aside log log') :
    replay log' = replay log := by
  obtain ⟨events, rfl, haside⟩ := h
  induction events with
  | nil => rfl
  | cons e events ih =>
    have hrest := ih fun e' he' => haside e' (List.mem_cons_of_mem e he')
    have he : ¬ e.IsQueue := haside e List.mem_cons_self
    rw [← hrest]
    cases e with
    | enqueued t | skipped t => exact absurd trivial he
    | dispatched t found => exact absurd trivial he
    | idled => exact absurd trivial he
    | _ => rfl

theorem replay_cons (h : replay (e :: log) = some queue') :
    ∃ queue, replay log = some queue ∧ QueueStep queue e queue' := by
  cases e with
  | enqueued t =>
    obtain ⟨queue, hqueue, rfl⟩ := Option.map_eq_some_iff.mp h
    exact ⟨queue, hqueue, .enqueued queue t⟩
  | skipped t | dispatched t found =>
    obtain ⟨queue, hqueue, hhead⟩ := Option.bind_eq_some_iff.mp h
    split at hhead
    · rename_i hfirst
      obtain rfl := Option.some.inj hhead
      refine ⟨queue, hqueue, ?_⟩
      rw [List.eq_cons_of_mem_head? hfirst]
      exact .taken _ _ t rfl
    · cases hhead
  | idled =>
    obtain ⟨hqueue, hempty⟩ := Option.filter_eq_some_iff.mp h
    obtain rfl := List.isEmpty_iff.mp hempty
    exact ⟨[], hqueue, .idled⟩
  | _ => exact ⟨queue', h, .aside queue' _ rfl⟩

/-- An entry that is not taken moves up by at least one with each decision. -/
theorem replay_wait (h : replay log = some queue) (h' : replay (new ++ log) = some queue')
    (ht : queue[i]? = some t) (hwaits : ∀ e ∈ new, ¬ e.takes t) :
    ∃ passed ≤ i, new.countP Event.isDecision ≤ passed ∧ queue'[i - passed]? = some t ∧
      Event.idled ∉ new := by
  induction new generalizing queue' with
  | nil =>
    rw [List.nil_append, h] at h'
    obtain rfl := Option.some.inj h'
    exact ⟨0, Nat.zero_le i, Nat.le_refl 0, ht, List.not_mem_nil⟩
  | cons e new ih =>
    have hnot : ¬ e.takes t := hwaits e List.mem_cons_self
    obtain ⟨before, hbefore, hstep⟩ := replay_cons h'
    obtain ⟨passed, hle, hcount, hat, hidle⟩ :=
      ih hbefore fun e' he' => hwaits e' (List.mem_cons_of_mem e he')
    have hlt : i - passed < before.length := (List.getElem?_eq_some_iff.mp hat).1
    cases hstep with
    | enqueued _ u =>
      refine ⟨passed, hle, hcount, ?_, ?_⟩
      · rw [List.getElem?_append_left hlt]
        exact hat
      · simpa using hidle
    | taken _ _ u he =>
      have hpos : i - passed ≠ 0 := by
        intro hzero
        rw [hzero, List.getElem?_cons_zero] at hat
        exact hnot (he.trans hat)
      have hnext : i - passed = i - (passed + 1) + 1 := by omega
      refine ⟨passed + 1, by omega, ?_, ?_, ?_⟩
      · rw [List.countP_cons]
        split <;> omega
      · rw [hnext, List.getElem?_cons_succ] at hat
        exact hat
      · intro hmem
        rcases List.mem_cons.mp hmem with rfl | hmem
        · cases he
        · exact hidle hmem
    | idled => cases hlt
    | aside _ _ he =>
      refine ⟨passed, hle, ?_, hat, ?_⟩
      · rw [List.countP_cons_of_neg (by rw [he]; decide)]
        exact hcount
      · intro hmem
        rcases List.mem_cons.mp hmem with rfl | hmem
        · cases he
        · exact hidle hmem

end Histories

namespace Kernel

/-- The run queue is what the log replays to, and the past is part of it. -/
structure Replays (past : List Event) (k : Kernel) : Prop where
  queue : replay k.log = some k.runQueue.contents
  grows : past <:+ k.log

section Steps

variable {past : List Event} {k k' : Kernel} {t : ThreadId}

/-! ## One function after the other -/

theorem Replays.aside (h : k.Replays past) (hqueue : k'.runQueue = k.runQueue)
    (hlog : Extends Aside k.log k'.log) : k'.Replays past := by
  refine ⟨by rw [replay_aside hlog, hqueue]; exact h.queue, ?_⟩
  obtain ⟨events, heq, -⟩ := hlog
  exact h.grows.trans ⟨events, heq.symm⟩

/-- A change of what the queue and the log do not depend on. -/
theorem Replays.same (h : k.Replays past) (hqueue : k'.runQueue = k.runQueue)
    (hlog : k'.log = k.log) : k'.Replays past :=
  h.aside hqueue (by rw [hlog]; exact .refl)

theorem Replays.still (h : k.Replays past) (hs : Still k k') : k'.Replays past :=
  h.aside hs.runQueue hs.log

theorem Replays.quiet (h : k.Replays past) (hq : Quiet k k') : k'.Replays past :=
  h.still (still_quiet hq)

/-- A full queue drops the entry, and the log says so. -/
theorem Replays.enqueue (h : k.Replays past) (t : ThreadId) : (k.enqueue t).Replays past := by
  by_cases hfull : k.runQueue.count = maxThreads
  · unfold Kernel.enqueue
    rw [if_pos hfull]
    exact ⟨h.queue, h.grows.trans (List.suffix_cons _ _)⟩
  · rw [enqueue_of_room hfull]
    refine ⟨?_, h.grows.trans (List.suffix_cons _ _)⟩
    show (replay k.log).map (· ++ [t]) = some (k.runQueue.enqueue t).contents
    rw [RunQueue.contents_enqueue _ _ hfull, h.queue]
    rfl

theorem Replays.makeReady (h : k.Replays past) (t : ThreadId) : (k.makeReady t).Replays past := by
  unfold Kernel.makeReady
  split
  · exact (h.same rfl rfl : (k.setState t .ready).Replays past).enqueue t
  · exact h

theorem Replays.wakeJoinWaiters (h : k.Replays past) (t : ThreadId) :
    (k.wakeJoinWaiters t).Replays past :=
  wakeJoinWaiters_keeps (R := Replays past) (fun _ t hk => hk.makeReady t) h t

/-- The entries of exited threads go, one after the other. -/
theorem replay_skipped (passed : List ThreadId) {log : List Event} {rest : List ThreadId}
    (h : replay log = some (passed ++ rest)) :
    replay ((passed.map Event.skipped).reverse ++ log) = some rest := by
  induction passed generalizing log with
  | nil => exact h
  | cons t passed ih =>
    have hfirst : replay (.skipped t :: log) = some (passed ++ rest) := by
      rw [replay_taken (e := .skipped t) rfl, h]
      exact if_pos rfl
    rw [List.map_cons, List.reverse_cons, List.append_assoc]
    exact ih hfirst

/-- A switch takes its thread from the front of the queue, and idles when the
queue holds no thread that can run. -/
theorem Replays.taken (h : k.Replays past) (htaken : k.Taken k') : k'.Replays past := by
  have hqueue := h.queue
  obtain ⟨passed, -, ⟨hc, hq, -, hlog⟩ | ⟨hc, -, hlog⟩⟩ := htaken
  · rw [hc, ← List.append_nil passed] at hqueue
    refine ⟨?_, ?_⟩
    · rw [hlog, hq]
      show (replay _).filter (·.isEmpty) = _
      rw [replay_skipped passed hqueue]
      rfl
    · rw [hlog, ← List.cons_append]
      exact h.grows.trans (List.suffix_append _ _)
  · rw [hc] at hqueue
    refine ⟨?_, ?_⟩
    · rw [hlog, replay_taken (e := .dispatched _ _) rfl, replay_skipped passed hqueue]
      exact if_pos rfl
    · rw [hlog, ← List.cons_append]
      exact h.grows.trans (List.suffix_append _ _)

theorem Replays.schedule (h : k.Replays past) (saved : Context) :
    (k.scheduleFromCurrent saved).Replays past :=
  h.taken (schedule_spec k saved).2

theorem Replays.yieldNow (h : k.Replays past) : k.yieldNow.Replays past := by
  unfold Kernel.yieldNow
  dsimp only
  split
  · exact h
  · split
    · exact h.schedule _
    · exact ((h.same rfl rfl : (k.setState k.currentThread .ready).Replays past).enqueue _).schedule _

theorem Replays.blockCurrent (h : k.Replays past) (saved : Context) :
    (k.blockCurrent saved).Replays past := by
  unfold Kernel.blockCurrent
  dsimp only
  split
  · exact h.same rfl rfl
  · refine Replays.schedule ?_ saved
    exact h.aside rfl (Extends.cons .refl id)

theorem Replays.exitCurrent (h : k.Replays past) (status : Nat) :
    (k.exitCurrent status).Replays past := by
  unfold Kernel.exitCurrent
  dsimp only
  split
  · exact h
  · refine Replays.schedule ?_ _
    have hexited : ((k.updateThread k.currentThread fun t =>
        { t with
          state := .exited
          entry := none
          exitStatus := status
          reapable := !t.isUser }).record (.exited k.currentThread status)).Replays past :=
      h.aside rfl (Extends.cons .refl id)
    have hwoken := hexited.wakeJoinWaiters k.currentThread
    unfold reparentChildrenOfExitedProcess
    split
    · exact hwoken
    · obtain ⟨log, heq, hlog⟩ := reparentChildren_spec _ _ k.currentThread
      rw [heq]
      refine hwoken.aside rfl (hlog.mono ?_)
      intro e he
      obtain ⟨child, rfl⟩ := he
      exact id

theorem Replays.handed (h : k.Replays past) {slot : ThreadId} {entry : Option Nat}
    {process : Option ProcessId} {isUser : Bool}
    (hk' : k.Handed slot entry process isUser k') : k'.Replays past := by
  obtain ⟨k₁, userContext, ownsUserStack, hq, -, rfl⟩ := hk'
  refine Replays.enqueue ?_ slot
  exact (h.quiet hq).aside rfl (Extends.cons .refl id)

/-- Every step of the kernel is a step of the fair queue. -/
theorem Replays.step (h : k.Replays past) (hw : k.WellFormed) {a : Action}
    (hstep : k.step a = some k') : k'.Replays past := by
  cases step_effect hw.idle.1 hstep with
  | quiet hq => exact h.quiet hq
  | woken hr hwakes hq =>
    refine Replays.quiet (hwakes.keeps (R := Replays past) ?_ ?_ h) hq
    · exact fun _ _ _ _ hk => hk.same rfl rfl
    · exact fun _ t hk => hk.makeReady t
  | resumed hr hlive hq =>
    exact (h.same rfl rfl : Replays past { k with resuming := none }).quiet hq
  | joined hr hexited hq => exact (h.still (k.still_leaveJoin _)).quiet hq
  | waited hr hexited hq =>
    exact ((h.still (k.still_leaveJoin _)).still (still_collect _ _ _ _)).quiet hq
  | yielded hr => exact h.yieldNow
  | exited status hr hidle => exact h.exitCurrent status
  | blocked hr hidle hreg => exact (h.still (still_registers hreg)).blockCurrent _
  | reaped hr hlt hne hexited hq => exact (h.still (k.still_markReapable _)).quiet hq
  | collected hr hchild hlt hne hexited hq =>
    exact ((h.still (k.still_markReapable _)).still (still_collect _ _ _ _)).quiet hq
  | @terminated p t slot _ hr hchild hlookup hlive hq =>
    have hended : (k.endThread p t).Replays past := h.aside rfl (Extends.cons .refl id)
    exact (hended.wakeJoinWaiters t).quiet hq
  | handed hr hspawns hkind hprocess hhanded hq => exact (h.handed hhanded).quiet hq
  | recorded hr huser hrec => exact h.still (still_recorded hrec)
  | spawned hr huser hrec hhanded hq =>
    have hhanded := (h.still (still_recorded hrec)).handed hhanded
    exact (hhanded.still (still_setProcessMainThread _ _ _)).quiet hq

end Steps

/-! ## Runs -/

theorem Booted.replays {k : Kernel} (h : k.Booted) : k.Replays [] := by
  obtain ⟨space, before, between, -, hbefore, hbetween, hlog⟩ := h.records
  have hquiet : ∀ e : Event, e.IsQuiet → Aside e := by
    intro e he
    cases e <;> first | exact he.elim | exact id
  have haside : Extends Aside [] between := by
    refine (hbefore.mono hquiet).trans (Extends.trans ?_ (hbetween.mono hquiet))
    exact Extends.cons .refl id
  have hbetween : replay between = some [] := replay_aside haside
  refine ⟨?_, List.nil_suffix⟩
  rw [hlog, h.queue]
  show ((((replay between).map (· ++ [1])).map (· ++ [idleThread])).bind fun queue =>
    if queue.head? = some 1 then some queue.tail else none) = _
  rw [hbetween]
  rfl

/-- Whatever the threads do, the run queue is what its history replays to, and
an entry of it is passed over at most as often as there are entries ahead of it:
until it is taken it only moves up, each decision of the scheduler goes to one of
these, and the processor does not idle. -/
theorem boundedWait {memory : Memory} {k k' : Kernel} (h : ReachedFrom memory Always k)
    (hrun : Run step Always k k') :
    replay k'.log = some k'.runQueue.contents ∧
      ∀ i t, k.runQueue.contents[i]? = some t →
        i < maxThreads ∧ ∃ new, k'.log = new ++ k.log ∧
          ((∃ e ∈ new, e.takes t) ∨
            ∃ passed ≤ i, new.countP Event.isDecision ≤ passed ∧
              k'.runQueue.contents[i - passed]? = some t ∧ Event.idled ∉ new) := by
  have hkeeps : ∀ past (k : Kernel) a (k' : Kernel), k.WellFormed ∧ k.Replays past →
      Always k a → k.step a = some k' → k'.WellFormed ∧ k'.Replays past := by
    intro past k a k' hinv _ hstep
    exact ⟨hinv.1.step hstep, hinv.2.step hinv.1 hstep⟩
  obtain ⟨image, k₀, hk₀, hbefore⟩ := h
  have hbooted := boot_booted hk₀
  obtain ⟨hw, hqueue, -⟩ := hbefore.invariant _ (hkeeps []) ⟨hbooted.wellFormed, hbooted.replays⟩
  obtain ⟨-, hqueue', new, hlog⟩ := hrun.invariant _ (hkeeps k.log)
    ⟨hw, hqueue, List.suffix_refl _⟩
  refine ⟨hqueue', fun i t ht => ?_⟩
  have hlt := (List.getElem?_eq_some_iff.mp ht).1
  have hcount := Ring.length_contents k.runQueue.toRing
  refine ⟨by have := k.runQueue.count_le; omega, new, hlog.symm, ?_⟩
  by_cases htaken : ∃ e ∈ new, e.takes t
  · exact .inl htaken
  · rw [← hlog] at hqueue'
    exact .inr (replay_wait hqueue hqueue' ht fun e he htakes => htaken ⟨e, he, htakes⟩)

set_option maxRecDepth 100000 in
/-- A child that waits behind the idle thread while its parent yields. -/
theorem boundedWait_child : ∃ k k' : Kernel, k.runQueue.contents = [0, 2] ∧
    k'.runQueue.contents = [2, 1] ∧ replay k'.log = some [2, 1] ∧ ∃ new,
      k'.log = new ++ k.log ∧ ((∃ e ∈ new, e.takes 2) ∨
        ∃ passed ≤ 1, new.countP Event.isDecision ≤ passed ∧
          k'.runQueue.contents[1 - passed]? = some 2 ∧ Event.idled ∉ new) := by
  have hrun : ((boot plainMemory smallImage).bind (exec step Always [.resume, .spawnSmall])).any
      fun k => k.runQueue.contents == [0, 2] &&
        (exec step Always [.yieldNow] k).any fun k' => k'.runQueue.contents == [2, 1] := by
    decide +kernel
  obtain ⟨k, hk, hfound⟩ := ReachedFrom.of_exec hrun
  obtain ⟨hqueue, hrest⟩ := Bool.and_eq_true_iff.mp hfound
  obtain ⟨k', hexec, hend⟩ := (Option.any_eq_true _ _).mp hrest
  have ht : k.runQueue.contents[1]? = some 2 := by
    rw [beq_iff_eq.mp hqueue]
    rfl
  obtain ⟨hreplay, hwait⟩ := boundedWait hk (run_of_exec hexec)
  rw [beq_iff_eq.mp hend] at hreplay
  exact ⟨k, k', beq_iff_eq.mp hqueue, beq_iff_eq.mp hend, hreplay, (hwait 1 2 ht).2⟩

end Kernel

end OpenKernel
