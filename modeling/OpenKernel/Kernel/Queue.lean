import OpenKernel.Kernel.Boot

/-!
# The run queue

`Queued` is the part of the invariant that holds also while a thread is being
switched away from; `InOrder` adds the current thread.  Both hold as long as
no new thread gets a slot that the queue still names.
-/

namespace OpenKernel

open Lib

namespace Event

/-- The thread that the event has appended to the run queue. -/
def enqueuedThread : Event → Option ThreadId
  | enqueued t => some t
  | _ => none

/-- The thread that the event has taken out of the run queue. -/
def dequeuedThread : Event → Option ThreadId
  | skipped t | dispatched t _ => some t
  | _ => none

end Event

/-- The threads that were enqueued, in this order. -/
def enqueuedThreads (log : List Event) : List ThreadId :=
  (log.filterMap Event.enqueuedThread).reverse

/-- The threads that were dequeued, in this order. -/
def dequeuedThreads (log : List Event) : List ThreadId :=
  (log.filterMap Event.dequeuedThread).reverse

namespace Kernel

/-- The entries of `RUN_QUEUE` are threads that wait for the processor, or
that have exited while they did, and the log agrees with them. -/
structure Queued (k : Kernel) : Prop where
  nodup : k.runQueue.contents.Nodup
  lt : ∀ t ∈ k.runQueue.contents, t < maxThreads
  waiting : ∀ t ∈ k.runQueue.contents,
    (k.threads t).state = .ready ∨ (k.threads t).state = .exited
  ready : ∀ t, t ≠ idleThread → (k.threads t).state = .ready →
    t ∈ k.runQueue.contents
  dropped : ∀ t, Event.dropped t ∉ k.log
  dispatched : ∀ t found, Event.dispatched t found ∈ k.log → found = .ready
  order : enqueuedThreads k.log = dequeuedThreads k.log ++ k.runQueue.contents

/-- The invariant of the run queue. -/
structure InOrder (k : Kernel) : Prop extends Queued k where
  current_out : k.currentThread ∉ k.runQueue.contents
  current_state : (k.threads k.currentThread).state = .running ∨
    (k.threads k.currentThread).state = .exited

/-! ## The queue and the log -/

/-- Events that are not about the queue. -/
def Aside (e : Event) : Prop := ¬ e.IsQueue

private theorem aside_of_quiet (e : Event) (h : e.IsQuiet) : Aside e := by
  cases e <;> first | exact h.elim | exact id

section Aside

variable {log log' : List Event} (h : Extends Aside log log')
include h

theorem enqueuedThreads_aside : enqueuedThreads log' = enqueuedThreads log := by
  obtain ⟨events, rfl, he⟩ := h
  have hnone : events.filterMap Event.enqueuedThread = [] := by
    rw [List.filterMap_eq_nil_iff]
    intro e hmem
    have := he e hmem
    cases e <;> first | rfl | exact (this trivial).elim
  rw [enqueuedThreads, List.filterMap_append, hnone, List.nil_append]
  rfl

theorem dequeuedThreads_aside : dequeuedThreads log' = dequeuedThreads log := by
  obtain ⟨events, rfl, he⟩ := h
  have hnone : events.filterMap Event.dequeuedThread = [] := by
    rw [List.filterMap_eq_nil_iff]
    intro e hmem
    have := he e hmem
    cases e <;> first | rfl | exact (this trivial).elim
  rw [dequeuedThreads, List.filterMap_append, hnone, List.nil_append]
  rfl

theorem mem_aside {e : Event} (hq : e.IsQueue) : e ∈ log' ↔ e ∈ log := by
  obtain ⟨events, rfl, he⟩ := h
  rw [List.mem_append]
  exact or_iff_right fun hmem => he e hmem hq

end Aside

section Step

variable {k k' : Kernel}

/-! ## Changes of thread states -/

/-- Threads change their states in a way that the queue agrees with. -/
theorem Queued.congr (h : k.Queued)
    (hqueue : k'.runQueue = k.runQueue)
    (hlog : Extends Aside k.log k'.log)
    (hwaiting : ∀ t ∈ k.runQueue.contents,
      (k'.threads t).state = (k.threads t).state ∨
        (k'.threads t).state = .exited)
    (hready : ∀ t, (k'.threads t).state = .ready →
      (k.threads t).state = .ready) : k'.Queued where
  nodup := by rw [hqueue]; exact h.nodup
  lt := by rw [hqueue]; exact h.lt
  waiting t ht := by
    rw [hqueue] at ht
    rcases hwaiting t ht with heq | heq
    · rw [heq]
      exact h.waiting t ht
    · exact .inr heq
  ready t hidle ht := by
    rw [hqueue]
    exact h.ready t hidle (hready t ht)
  dropped t ht :=
    h.dropped t ((mem_aside hlog (e := .dropped t) trivial).mp ht)
  dispatched t found ht := h.dispatched t found
    ((mem_aside hlog (e := .dispatched t found) trivial).mp ht)
  order := by
    rw [enqueuedThreads_aside hlog, dequeuedThreads_aside hlog, hqueue]
    exact h.order

/-- The queue has room for a thread that is not in it. -/
theorem Queued.room (h : k.Queued) {t : ThreadId} (hlt : t < maxThreads)
    (hout : t ∉ k.runQueue.contents) : k.runQueue.count ≠ maxThreads := by
  have hnodup : (t :: k.runQueue.contents).Nodup :=
    List.nodup_cons.mpr ⟨hout, h.nodup⟩
  have hsub : (t :: k.runQueue.contents) ⊆ List.range maxThreads := by
    intro u hu
    rw [List.mem_range]
    rcases List.mem_cons.mp hu with rfl | hu
    · exact hlt
    · exact h.lt u hu
  have hlen := hnodup.length_le_of_subset hsub
  rw [List.length_cons, Ring.length_contents, List.length_range] at hlen
  omega

/-- A thread that is not in the queue becomes ready and is enqueued. -/
theorem Queued.push (h : k.Queued) {t : ThreadId} (hlt : t < maxThreads)
    (hout : t ∉ k.runQueue.contents)
    (hqueue : k'.runQueue = k.runQueue) (hlog : Extends Aside k.log k'.log)
    (hself : (k'.threads t).state = .ready)
    (hother : ∀ u, u ≠ t → (k'.threads u).state = (k.threads u).state) :
    (k'.enqueue t).Queued := by
  have hroom : k'.runQueue.count ≠ maxThreads := by
    rw [hqueue]
    exact h.room hlt hout
  have hcontents : (k'.runQueue.enqueue t).contents =
      k.runQueue.contents ++ [t] := by
    rw [RunQueue.contents_enqueue _ _ hroom, hqueue]
  rw [enqueue_of_room hroom]
  refine
    { nodup := ?_
      lt := fun u hu => ?_
      waiting := fun u hu => ?_
      ready := fun u hidle hu => ?_
      dropped := fun u hu => ?_
      dispatched := fun u found hu => ?_
      order := ?_ }
  · show (k'.runQueue.enqueue t).contents.Nodup
    rw [hcontents, List.nodup_append]
    refine ⟨h.nodup, List.nodup_singleton t, fun u hu v hv => ?_⟩
    obtain rfl := List.mem_singleton.mp hv
    rintro rfl
    exact hout hu
  · rw [hcontents] at hu
    rcases List.mem_append.mp hu with hu | hu
    · exact h.lt u hu
    · rw [List.mem_singleton.mp hu]
      exact hlt
  · rw [hcontents] at hu
    by_cases hut : u = t
    · rw [hut]
      exact .inl hself
    · rcases List.mem_append.mp hu with hu | hu
      · show (k'.threads u).state = _ ∨ (k'.threads u).state = _
        rw [hother u hut]
        exact h.waiting u hu
      · exact absurd (List.mem_singleton.mp hu) hut
  · rw [hcontents, List.mem_append, List.mem_singleton]
    by_cases hut : u = t
    · exact .inr hut
    · refine .inl (h.ready u hidle ?_)
      rw [← hother u hut]
      exact hu
  · rcases List.mem_cons.mp hu with hu | hu
    · cases hu
    · exact h.dropped u ((mem_aside hlog (e := .dropped u) trivial).mp hu)
  · rcases List.mem_cons.mp hu with hu | hu
    · cases hu
    · exact h.dispatched u found
        ((mem_aside hlog (e := .dispatched u found) trivial).mp hu)
  · show enqueuedThreads (.enqueued t :: k'.log) = _
    have hen : enqueuedThreads (.enqueued t :: k'.log) =
        enqueuedThreads k'.log ++ [t] := by
      simp [enqueuedThreads, Event.enqueuedThread]
    have hde : dequeuedThreads (.enqueued t :: k'.log) =
        dequeuedThreads k'.log := rfl
    rw [hen]
    show _ = dequeuedThreads (.enqueued t :: k'.log) ++ _
    rw [hde, hcontents, enqueuedThreads_aside hlog, dequeuedThreads_aside hlog,
      h.order, List.append_assoc]

theorem InOrder.congr (h : k.InOrder) (hs : k'.Queued)
    (hqueue : k'.runQueue = k.runQueue)
    (hcurrent : k'.currentThread = k.currentThread)
    (hstate : (k'.threads k.currentThread).state =
        (k.threads k.currentThread).state ∨
      (k'.threads k.currentThread).state = .exited) : k'.InOrder where
  toQueued := hs
  current_out := by rw [hcurrent, hqueue]; exact h.current_out
  current_state := by
    rw [hcurrent]
    rcases hstate with heq | heq
    · rw [heq]
      exact h.current_state
    · exact .inr heq

/-- A thread exits. -/
theorem Queued.setExited (h : k.Queued) (t : ThreadId)
    (hqueue : k'.runQueue = k.runQueue) (hlog : Extends Aside k.log k'.log)
    (hself : (k'.threads t).state = .exited)
    (hother : ∀ u, u ≠ t → (k'.threads u).state = (k.threads u).state) :
    k'.Queued := by
  refine h.congr hqueue hlog (fun u _ => ?_) fun u hu => ?_
  · by_cases hut : u = t
    · rw [hut]
      exact .inr hself
    · exact .inl (hother u hut)
  · by_cases hut : u = t
    · rw [hut, hself] at hu
      cases hu
    · rw [← hother u hut, hu]

/-! ## Changes that do not touch the queue -/

/-- No thread has changed its state, and no event is about the queue. -/
structure Still (k k' : Kernel) : Prop where
  state : ∀ t, (k'.threads t).state = (k.threads t).state
  runQueue : k'.runQueue = k.runQueue
  currentThread : k'.currentThread = k.currentThread
  log : Extends Aside k.log k'.log

theorem Still.trans {k'' : Kernel} (h : Still k k') (h' : Still k' k'') :
    Still k k'' where
  state t := (h'.state t).trans (h.state t)
  runQueue := h'.runQueue.trans h.runQueue
  currentThread := h'.currentThread.trans h.currentThread
  log := h.log.trans h'.log

theorem still_quiet (hq : Quiet k k') : Still k k' :=
  ⟨hq.state, hq.runQueue, hq.currentThread, hq.log.mono aside_of_quiet⟩

theorem still_updateThread (k : Kernel) (u : ThreadId) {f : Thread → Thread}
    (hf : (f (k.threads u)).state = (k.threads u).state) :
    Still k (k.updateThread u f) := by
  refine ⟨fun t => ?_, rfl, rfl, .refl⟩
  show (put k.threads u _ t).state = _
  by_cases ht : t = u
  · rw [ht, put_same, hf]
  · rw [put_other ht]

theorem still_markReapable (k : Kernel) (t : ThreadId) :
    Still k (k.markReapable t) := by
  unfold markReapable
  split
  · exact k.still_updateThread t rfl
  · exact ⟨fun _ => rfl, rfl, rfl, .refl⟩

theorem still_leaveJoin (k : Kernel) (t : ThreadId) :
    Still k (k.leaveJoin t) := by
  have hclear : Still k { k with resuming := none } :=
    ⟨fun _ => rfl, rfl, rfl, .refl⟩
  unfold leaveJoin
  refine hclear.trans (Still.trans ?_ (still_markReapable _ t))
  unfold dropJoinWaiter
  split
  · exact still_updateThread _ t rfl
  · exact ⟨fun _ => rfl, rfl, rfl, .refl⟩

theorem still_collect (k : Kernel) (p : ProcessId) (t : ThreadId)
    (status : Nat) : Still k (k.collect p t status) := by
  have hlog := Extends.cons (p := Aside) (a := k.log) .refl
    (e := .collected k.currentThread p t status) id
  unfold collect
  dsimp only
  split
  · exact ⟨fun _ => rfl, rfl, rfl, hlog⟩
  · exact ⟨fun _ => rfl, rfl, rfl, hlog.cons id⟩

theorem still_setProcessMainThread (k : Kernel) (p : ProcessId)
    (t : ThreadId) : Still k (k.setProcessMainThread p t) := by
  unfold setProcessMainThread
  split
  · exact ⟨fun _ => rfl, rfl, rfl, .refl⟩
  · exact ⟨fun _ => rfl, rfl, rfl, Extends.cons .refl id⟩

theorem still_recorded {p : ProcessId} (hrec : k.Recorded p k') :
    Still k k' := by
  obtain ⟨k₁, k₂, space, h₁, h₂, h₃⟩ := hrec
  obtain ⟨slot, -, -, -, -, rfl⟩ := createProcess_some h₂
  refine (still_quiet h₁).trans (Still.trans ?_ (still_quiet h₃))
  exact ⟨fun _ => rfl, rfl, rfl, Extends.cons .refl id⟩

theorem Queued.still (h : k.Queued) (hs : Still k k') : k'.Queued :=
  h.congr hs.runQueue hs.log (fun t _ => .inl (hs.state t))
    fun t ht => by rw [← hs.state, ht]

theorem InOrder.still (h : k.InOrder) (hs : Still k k') : k'.InOrder :=
  h.congr (h.toQueued.still hs) hs.runQueue hs.currentThread (.inl (hs.state _))

/-! ## Waking -/

theorem Queued.makeReady (h : k.Queued) (hs : k.Slots) (t : ThreadId) :
    (k.makeReady t).Queued := by
  unfold Kernel.makeReady
  split
  · rename_i hblocked
    have hlt : t < maxThreads := by
      by_contra hge
      have := (hs.beyond t (Nat.le_of_not_lt hge)).1
      rw [hblocked] at this
      cases this
    have hout : t ∉ k.runQueue.contents := by
      intro hmem
      rcases h.waiting t hmem with heq | heq <;>
        · rw [hblocked] at heq
          cases heq
    refine h.push hlt hout rfl .refl ?_ fun u hu => ?_
    · show (put k.threads t _ t).state = _
      rw [put_same]
    · show (put k.threads t _ u).state = _
      rw [put_other hu]
  · exact h

theorem InOrder.makeReady (h : k.InOrder) (hs : k.Slots) (t : ThreadId) :
    (k.makeReady t).InOrder := by
  have hne : (k.threads t).state = .blocked → t ≠ k.currentThread := by
    rintro hblocked rfl
    rcases h.current_state with heq | heq <;>
      · rw [hblocked] at heq
        cases heq
  refine { h.toQueued.makeReady hs t with current_out := ?_, current_state := ?_ }
  · rw [(k.woken_makeReady t).currentThread]
    unfold Kernel.makeReady
    split
    · rename_i hblocked
      unfold Kernel.enqueue
      split
      · exact h.current_out
      · rename_i hroom
        show _ ∉ (k.runQueue.enqueue t).contents
        have hcontents : (k.runQueue.enqueue t).contents =
            k.runQueue.contents ++ [t] := RunQueue.contents_enqueue _ _ hroom
        rw [hcontents, List.mem_append, List.mem_singleton]
        rintro (hmem | heq)
        · exact h.current_out hmem
        · exact hne hblocked heq.symm
    · exact h.current_out
  · rw [(k.woken_makeReady t).currentThread]
    rcases (k.woken_makeReady t).state k.currentThread with heq | ⟨hb, -⟩
    · rw [heq]
      exact h.current_state
    · rcases h.current_state with heq | heq <;>
        · rw [hb] at heq
          cases heq

theorem InOrder.wakes (h : k.InOrder) (hs : k.Slots) {a : Action}
    (hw : k.Wakes a k') :
    k'.InOrder := by
  have hkeeps : k'.Slots ∧ k'.InOrder := by
    refine hw.keeps (R := fun k => k.Slots ∧ k.InOrder) ?_ ?_ ⟨hs, h⟩
    · exact fun k _ _ _ hk => ⟨{ hk.1 with }, { hk.2 with }⟩
    · exact fun k t hk =>
        ⟨hk.1.woken (k.woken_makeReady t), hk.2.makeReady hk.1 t⟩
  exact hkeeps.2

theorem InOrder.wakeJoinWaiters (h : k.InOrder) (hs : k.Slots) (t : ThreadId) :
    (k.wakeJoinWaiters t).InOrder := by
  have hkeeps : (k.wakeJoinWaiters t).Slots ∧ (k.wakeJoinWaiters t).InOrder :=
    wakeJoinWaiters_keeps (R := fun k => k.Slots ∧ k.InOrder)
      (fun k u hk => ⟨hk.1.woken (k.woken_makeReady u), hk.2.makeReady hk.1 u⟩)
      ⟨hs, h⟩ t
  exact hkeeps.2

theorem Queued.wakeJoinWaiters (h : k.Queued) (hs : k.Slots) (t : ThreadId) :
    (k.wakeJoinWaiters t).Queued := by
  have hkeeps : (k.wakeJoinWaiters t).Slots ∧ (k.wakeJoinWaiters t).Queued :=
    wakeJoinWaiters_keeps (R := fun k => k.Slots ∧ k.Queued)
      (fun k u hk => ⟨hk.1.woken (k.woken_makeReady u), hk.2.makeReady hk.1 u⟩)
      ⟨hs, h⟩ t
  exact hkeeps.2

/-! ## Switching -/

/-- The log after a switch, read as a history of the queue. -/
private theorem threads_of_taken (passed : List ThreadId) (e : Event)
    (log : List Event) :
    enqueuedThreads (e :: ((passed.map Event.skipped).reverse ++ log)) =
        enqueuedThreads log ++ e.enqueuedThread.toList ∧
      dequeuedThreads (e :: ((passed.map Event.skipped).reverse ++ log)) =
        dequeuedThreads log ++ passed ++ e.dequeuedThread.toList := by
  have hen : (passed.map Event.skipped).filterMap Event.enqueuedThread = [] := by
    rw [List.filterMap_map, List.filterMap_eq_nil_iff]
    exact fun _ _ => rfl
  have hde : (passed.map Event.skipped).filterMap Event.dequeuedThread =
      passed := by
    rw [List.filterMap_map]
    exact List.filterMap_some
  constructor
  · unfold enqueuedThreads
    rw [List.filterMap_cons, List.filterMap_append, List.filterMap_reverse, hen]
    cases e.enqueuedThread <;> simp
  · unfold dequeuedThreads
    rw [List.filterMap_cons, List.filterMap_append, List.filterMap_reverse, hde]
    cases e.dequeuedThread <;> simp

/-- A switch takes its thread from the front of the queue. -/
theorem Queued.dispatch (h : k.Queued) {saved : Context}
    (hd : Dispatched k saved k') (htaken : k.Taken k') : k'.InOrder := by
  obtain ⟨passed, hpassed, hcases⟩ := htaken
  -- In both cases the rest of the queue is what the entries passed over and
  -- the thread that runs leave of it.
  have hsplit : ∃ front, k.runQueue.contents = front ++ k'.runQueue.contents ∧
      (∀ t ∈ front, (k.threads t).state = .exited ∨ t = k'.currentThread) ∧
      k'.currentThread ∉ k'.runQueue.contents ∧
      (∃ e, k'.log = e :: ((passed.map Event.skipped).reverse ++ k.log) ∧
        e.enqueuedThread = none ∧ passed ++ e.dequeuedThread.toList = front ∧
        (∀ t, e ≠ .dropped t) ∧ ∀ t found, e = .dispatched t found →
          found = .ready) := by
    rcases hcases with ⟨hc, hq, -, hlog⟩ | ⟨hc, hlive, hlog⟩
    · refine ⟨passed, by rw [hq, List.append_nil, hc],
        fun t ht => .inl (hpassed t ht), by rw [hq]; exact List.not_mem_nil,
        .idled, hlog, rfl, List.append_nil _, ?_, ?_⟩
      · exact fun t ht => by cases ht
      · exact fun t found ht => by cases ht
    · have hnodup := h.nodup
      rw [hc] at hnodup
      have hmem : k'.currentThread ∈ k.runQueue.contents := by
        rw [hc]
        simp
      refine ⟨passed ++ [k'.currentThread], by rw [hc]; simp, fun t ht => ?_, ?_,
        .dispatched k'.currentThread _, hlog, rfl, rfl, ?_, ?_⟩
      · rcases List.mem_append.mp ht with ht | ht
        · exact .inl (hpassed t ht)
        · exact .inr (List.mem_singleton.mp ht)
      · exact (List.nodup_cons.mp (List.nodup_append.mp hnodup).2.1).1
      · exact fun t ht => by cases ht
      · rintro t found ht
        obtain ⟨-, rfl⟩ := Event.dispatched.inj ht
        rcases h.waiting _ hmem with heq | heq
        · exact heq
        · exact absurd heq hlive
  obtain ⟨front, hc, hfront, hout, e, hlog, hen, hde, hdrop, hfound⟩ := hsplit
  have hmem : ∀ {t}, t ∈ k'.runQueue.contents → t ∈ k.runQueue.contents := by
    intro t ht
    rw [hc]
    exact List.mem_append_right _ ht
  have hold : ∀ e' ∈ k'.log, e' = e ∨ (∃ t, e' = .skipped t) ∨ e' ∈ k.log := by
    intro e' he'
    rw [hlog] at he'
    rcases List.mem_cons.mp he' with he' | he'
    · exact .inl he'
    · rcases List.mem_append.mp he' with he' | he'
      · obtain ⟨t, -, rfl⟩ := List.mem_map.mp (List.mem_reverse.mp he')
        exact .inr (.inl ⟨t, rfl⟩)
      · exact .inr (.inr he')
  have hne : ∀ {t}, t ∈ k'.runQueue.contents → t ≠ k'.currentThread := by
    rintro t ht rfl
    exact hout ht
  refine
    { nodup := ?_
      lt := fun t ht => h.lt t (hmem ht)
      waiting := fun t ht => ?_
      ready := fun t hidle ht => ?_
      dropped := fun t ht => ?_
      dispatched := fun t found ht => ?_
      order := ?_
      current_out := hout
      current_state := ?_ }
  · have hnodup := h.nodup
    rw [hc] at hnodup
    exact (List.nodup_append.mp hnodup).2.1
  · rw [hd.state_of_ne t (hne ht)]
    exact h.waiting t (hmem ht)
  · have hcur : t ≠ k'.currentThread := by
      rintro rfl
      rw [hd.state, if_pos rfl] at ht
      cases ht
    rw [hd.state_of_ne t hcur] at ht
    have hin := h.ready t hidle ht
    rw [hc] at hin
    rcases List.mem_append.mp hin with hin | hin
    · rcases hfront t hin with heq | heq
      · rw [ht] at heq
        cases heq
      · exact absurd heq hcur
    · exact hin
  · rcases hold _ ht with heq | ⟨u, heq⟩ | hold
    · exact hdrop t heq.symm
    · cases heq
    · exact h.dropped t hold
  · rcases hold _ ht with heq | ⟨u, heq⟩ | hold
    · exact hfound t found heq.symm
    · cases heq
    · exact h.dispatched t found hold
  · obtain ⟨h1, h2⟩ := threads_of_taken passed e k.log
    rw [hlog, h1, h2, hen, h.order, hc, ← hde]
    simp
  · rw [hd.state, if_pos rfl]
    exact .inl rfl

/-! ## Steps -/

theorem InOrder.yieldNow (h : k.InOrder) (hw : k.WellFormed) :
    k.yieldNow.InOrder := by
  unfold Kernel.yieldNow
  dsimp only
  rw [if_neg hw.ne_noThread]
  split
  · exact h.toQueued.dispatch (schedule_spec _ _).1 (schedule_spec _ _).2
  · have hpush : ((k.setState k.currentThread .ready).enqueue
        k.currentThread).Queued := by
      refine h.toQueued.push hw.current_lt h.current_out rfl .refl ?_
        fun u hu => ?_
      · show (put k.threads _ _ k.currentThread).state = _
        rw [put_same]
      · show (put k.threads _ _ u).state = _
        rw [put_other hu]
    exact hpush.dispatch (schedule_spec _ _).1 (schedule_spec _ _).2

/-- The end of a blocking call. -/
theorem InOrder.blockCurrent (h : k.InOrder) (hidle : k.currentThread ≠ idleThread)
    (hne : k.currentThread ≠ noThread) (saved : Context) :
    (k.blockCurrent saved).InOrder := by
  unfold Kernel.blockCurrent
  dsimp only
  rw [if_neg (not_or.mpr ⟨hne, hidle⟩)]
  have hblocked : ((k.setState k.currentThread .blocked).record
      (.blocked k.currentThread saved)).Queued := by
    refine h.toQueued.congr rfl (Extends.cons .refl id) (fun t ht => ?_)
      fun t ht => ?_
    · have hne : t ≠ k.currentThread := by
        rintro rfl
        exact h.current_out ht
      exact .inl (congrArg Thread.state (put_other hne))
    · have ht' : (put k.threads k.currentThread _ t).state = .ready := ht
      by_cases hcur : t = k.currentThread
      · rw [hcur, put_same] at ht'
        cases ht'
      · rwa [put_other hcur] at ht'
  exact hblocked.dispatch (schedule_spec _ _).1 (schedule_spec _ _).2

theorem still_registers {a : Action} {c : Context}
    (hreg : k.Registers a c k') :
    Still k k' := by
  cases hreg with
  | raw | sleep | futex => exact ⟨fun _ => rfl, rfl, rfl, .refl⟩
  | join t | wait _ t => exact k.still_updateThread t rfl

theorem InOrder.exitCurrent (h : k.InOrder) (hw : k.WellFormed)
    (hidle : k.currentThread ≠ idleThread) (status : Nat) :
    (k.exitCurrent status).InOrder := by
  unfold Kernel.exitCurrent
  dsimp only
  rw [if_neg (not_or.mpr ⟨hw.ne_noThread, hidle⟩)]
  have hslots : ((k.updateThread k.currentThread fun t =>
      { t with
        state := .exited
        entry := none
        exitStatus := status
        reapable := !t.isUser }).record
      (.exited k.currentThread status)).Slots := by
    refine Slots.record ?_ _
    exact hw.toSlots.updateThread k.currentThread hw.current_lt
      (fun heq => absurd heq hidle) rfl rfl rfl fun _ _ => rfl
  have hqueued : ((k.updateThread k.currentThread fun t =>
      { t with
        state := .exited
        entry := none
        exitStatus := status
        reapable := !t.isUser }).record
      (.exited k.currentThread status)).Queued := by
    refine h.toQueued.setExited k.currentThread rfl (Extends.cons .refl id) ?_
      fun u hu => ?_
    · show (put k.threads _ _ k.currentThread).state = _
      rw [put_same]
    · show (put k.threads _ _ u).state = _
      rw [put_other hu]
  have hwoken := hqueued.wakeJoinWaiters hslots k.currentThread
  refine Queued.dispatch ?_ (schedule_spec _ _).1 (schedule_spec _ _).2
  unfold reparentChildrenOfExitedProcess
  split
  · exact hwoken
  · obtain ⟨log, heq, hlog⟩ := reparentChildren_spec _ _ k.currentThread
    rw [heq]
    refine hwoken.still ⟨fun _ => rfl, rfl, rfl, hlog.mono ?_⟩
    rintro e ⟨child, rfl⟩
    exact id

theorem InOrder.endThread (h : k.InOrder) (p : ProcessId) (t : ThreadId) :
    (k.endThread p t).InOrder := by
  have hself : ((k.endThread p t).threads t).state = .exited := by
    show (put k.threads t _ t).state = _
    rw [put_same]
  have hother : ∀ u, u ≠ t →
      ((k.endThread p t).threads u).state = (k.threads u).state := by
    intro u hu
    show (put k.threads t _ u).state = _
    rw [put_other hu]
  refine h.congr (h.toQueued.setExited t rfl (Extends.cons .refl id) hself hother)
    rfl rfl ?_
  by_cases hcur : k.currentThread = t
  · rw [hcur]
    exact .inr hself
  · exact .inl (hother _ hcur)

/-- A new thread in a slot that the queue does not name. -/
theorem InOrder.handed (h : k.InOrder) (hw : k.WellFormed) {slot : ThreadId}
    {entry : Option Nat} {process : Option ProcessId} {isUser : Bool}
    (hout : slot ∉ k.runQueue.contents)
    (hk' : k.Handed slot entry process isUser k') : k'.InOrder := by
  obtain ⟨k₁, userContext, ownsUserStack, hq, hslot, rfl⟩ := hk'
  obtain ⟨hpos, hlt, -, hreap⟩ := reusableSlot_some hslot
  have hcur : slot ≠ k.currentThread := by
    rintro rfl
    rw [hw.current_kept (Nat.one_le_iff_ne_zero.mp hpos)] at hreap
    cases hreap
  have h₁ := h.still (still_quiet hq)
  have hout₁ : slot ∉ k₁.runQueue.contents := by
    rw [hq.runQueue]
    exact hout
  have hcur₁ : slot ≠ k₁.currentThread := by
    rw [hq.currentThread]
    exact hcur
  have hroom := h₁.toQueued.room hlt hout₁
  have hpush : (k₁.install slot (newThread (k₁.threads slot) entry process
      userContext isUser ownsUserStack)).Queued := by
    refine h₁.toQueued.push hlt hout₁ rfl (Extends.cons .refl id) ?_
      fun u hu => ?_
    · show (put k₁.threads slot _ slot).state = _
      rw [put_same]
      rfl
    · show (put k₁.threads slot _ u).state = _
      rw [put_other hu]
  unfold install at *
  refine { hpush with current_out := ?_, current_state := ?_ }
  · rw [enqueue_of_room (by exact hroom)]
    have hcontents : (k₁.runQueue.enqueue slot).contents =
        k₁.runQueue.contents ++ [slot] := RunQueue.contents_enqueue _ _ hroom
    show k₁.currentThread ∉ (k₁.runQueue.enqueue slot).contents
    rw [hcontents, List.mem_append, List.mem_singleton]
    rintro (hmem | heq)
    · exact h₁.current_out hmem
    · exact hcur₁ heq.symm
  · rw [enqueue_of_room (by exact hroom)]
    show (put k₁.threads slot _ k₁.currentThread).state = _ ∨
      (put k₁.threads slot _ k₁.currentThread).state = _
    rw [put_other hcur₁.symm]
    exact h₁.current_state

end Step

/-! ## Runs -/

/-- No thread is spawned into a slot that the run queue still names. -/
def FreshSlots (k : Kernel) (a : Action) : Prop :=
  a.spawns → ∀ slot ∈ k.reusableSlot, slot ∉ k.runQueue.contents

instance (k : Kernel) (a : Action) : Decidable (k.FreshSlots a) :=
  inferInstanceAs (Decidable (_ → _))

theorem InOrder.step {k k' : Kernel} (h : k.InOrder) (hw : k.WellFormed)
    {a : Action} (hfresh : k.FreshSlots a) (hstep : k.step a = some k') :
    k'.InOrder := by
  cases step_effect hw.idle.1 hstep with
  | quiet hq => exact h.still (still_quiet hq)
  | woken hr hwakes hq => exact (h.wakes hw.toSlots hwakes).still (still_quiet hq)
  | resumed hr hlive hq =>
    have hclear : { k with resuming := none }.InOrder := { h with }
    exact hclear.still (still_quiet hq)
  | joined hr hexited hq =>
    exact h.still ((k.still_leaveJoin _).trans (still_quiet hq))
  | waited hr hexited hq =>
    exact h.still (((k.still_leaveJoin _).trans (still_collect _ _ _ _)).trans
      (still_quiet hq))
  | yielded hr => exact h.yieldNow hw
  | exited status hr hidle => exact h.exitCurrent hw hidle status
  | blocked hr hidle hreg =>
    have hstill := still_registers hreg
    refine (h.still hstill).blockCurrent ?_ ?_ _
    · rw [hstill.currentThread]
      exact hidle
    · rw [hstill.currentThread]
      exact hw.ne_noThread
  | reaped hr hlt hne hexited hq =>
    exact h.still ((k.still_markReapable _).trans (still_quiet hq))
  | collected hr hchild hlt hne hexited hq =>
    exact h.still (((k.still_markReapable _).trans (still_collect _ _ _ _)).trans
      (still_quiet hq))
  | @terminated p t slot _ hr hchild hlookup hlive hq =>
    obtain ⟨hpos, hlt⟩ := hw.main_lt slot hchild.slot_lt t hchild.main_eq
    have hended := hw.endThread p hlt (Nat.one_le_iff_ne_zero.mp hpos)
    exact ((h.endThread p t).wakeJoinWaiters hended.toSlots t).still
      (still_quiet hq)
  | handed hr hspawns hkind hprocess hhanded hq =>
    refine (h.handed hw (hfresh hspawns _ ?_) hhanded).still (still_quiet hq)
    exact hhanded.reusableSlot
  | recorded hr huser hrec => exact h.still (still_recorded hrec)
  | @spawned _ _ _ p slot k₁ k₂ _ hr huser hrec hhanded hq =>
    have hstill := still_recorded hrec
    have hslot : slot ∉ k₁.runQueue.contents := by
      rw [hstill.runQueue]
      refine hfresh rfl slot ?_
      rw [← hrec.reusableSlot, hhanded.reusableSlot]
      rfl
    exact ((h.still hstill).handed (hw.recorded hrec) hslot hhanded).still
      ((still_setProcessMainThread _ _ _).trans (still_quiet hq))

/-- The queue names each waiting thread once, loses none and keeps their
order. -/
structure RunQueueIntegrity (k : Kernel) : Prop where
  nodup : k.runQueue.contents.Nodup
  ready : ∀ t, t ≠ idleThread → (k.threads t).state = .ready →
    k.runQueue.contents.count t = 1
  blocked : ∀ t ∈ k.runQueue.contents, (k.threads t).state ≠ .blocked
  running : ∀ t ∈ k.runQueue.contents, (k.threads t).state = .running →
    t = idleThread
  dropped : ∀ t, Event.dropped t ∉ k.log
  dispatched : ∀ t found, Event.dispatched t found ∈ k.log →
    found = .ready ∨ t = idleThread
  order : enqueuedThreads k.log = dequeuedThreads k.log ++ k.runQueue.contents

theorem InOrder.integrity {k : Kernel} (h : k.InOrder) :
    k.RunQueueIntegrity where
  nodup := h.nodup
  ready t hidle ht := List.count_eq_one_of_mem h.nodup (h.ready t hidle ht)
  blocked t ht hb := by
    rcases h.waiting t ht with heq | heq <;>
      · rw [hb] at heq
        cases heq
  running t ht hr := by
    rcases h.waiting t ht with heq | heq <;>
      · rw [hr] at heq
        cases heq
  dropped := h.dropped
  dispatched t found ht := .inl (h.dispatched t found ht)
  order := h.order

theorem Booted.inOrder {k : Kernel} (h : k.Booted) : k.InOrder := by
  obtain ⟨userContext, hfirst⟩ := h.first
  obtain ⟨space, before, between, -, hbefore, hbetween, hlog⟩ := h.records
  have hstate : (k.threads 1).state = .running := congrArg Thread.state hfirst
  have hidle : (k.threads idleThread).state = .ready :=
    h.idle_field Thread.state fun _ => rfl
  have hquiet : Extends Aside [] between := by
    refine Extends.trans (hbefore.mono aside_of_quiet) ?_
    exact (Extends.cons .refl id).trans (hbetween.mono aside_of_quiet)
  have hold : ∀ {e : Event}, e.IsQueue → e ∉ between := fun hq hmem => by
    cases (mem_aside hquiet hq).mp hmem
  refine
    { nodup := ?_
      lt := fun t ht => ?_
      waiting := fun t ht => ?_
      ready := fun t hne ht => ?_
      dropped := fun t ht => ?_
      dispatched := fun t found ht => ?_
      order := ?_
      current_out := ?_
      current_state := ?_ }
  · rw [h.queue]
    exact List.nodup_singleton _
  · rw [h.queue, List.mem_singleton] at ht
    rw [ht]
    decide
  · rw [h.queue, List.mem_singleton] at ht
    rw [ht]
    exact .inl hidle
  · rcases slot_cases t with rfl | rfl | hge
    · exact absurd rfl hne
    · rw [hstate] at ht
      cases ht
    · rw [h.other hge Thread.state fun _ => rfl] at ht
      cases ht
  · rw [hlog] at ht
    simp only [List.cons_append, List.nil_append, List.mem_cons, reduceCtorEq,
      false_or] at ht
    exact hold (e := .dropped t) trivial ht
  · rw [hlog] at ht
    simp only [List.cons_append, List.nil_append, List.mem_cons, reduceCtorEq,
      false_or, Event.dispatched.injEq] at ht
    rcases ht with ⟨-, rfl⟩ | ht
    · rfl
    · exact absurd ht (hold (e := .dispatched t found) trivial)
  · have hen := enqueuedThreads_aside hquiet
    have hde := dequeuedThreads_aside hquiet
    rw [hlog, h.queue]
    unfold enqueuedThreads dequeuedThreads at *
    simp only [List.cons_append, List.nil_append, List.filterMap_cons,
      Event.enqueuedThread, Event.dequeuedThread, List.reverse_cons, hen, hde]
    rfl
  · rw [h.queue, h.currentThread]
    decide
  · rw [h.currentThread]
    exact .inl hstate

/-- The run queue is intact in every run that spawns into fresh slots
only. -/
theorem runQueueIntegrity {memory : Memory} {k : Kernel}
    (h : ReachedFrom memory FreshSlots k) : k.RunQueueIntegrity :=
  (h.invariant InOrder (fun _ hk => hk.inOrder)
    fun _ _ _ hw hk hfresh hstep => hk.step hw hfresh hstep).2.integrity

set_option maxRecDepth 100000 in
/-- A run in which PID 1 collects its exited child and spawns again.  The new
process has the old pid and the old slot. -/
theorem runQueueIntegrity_respawn : ∃ k : Kernel, k.RunQueueIntegrity ∧
    k.runQueue.contents = [2] ∧ .collected 1 2 2 7 ∈ k.log ∧
      (k.threads 2).process = some 2 := by
  have hrun : ((boot plainMemory smallImage).bind (exec step FreshSlots
      [.resume, .spawnSmall, .waitProcess 2, .resume, .yieldNow, .resume, .exit 7,
        .resume, .spawnSmall])).any fun k =>
          decide (k.runQueue.contents = [2] ∧ .collected 1 2 2 7 ∈ k.log ∧
            (k.threads 2).process = some 2) := by
    decide +kernel
  obtain ⟨k, hk, hstate⟩ := ReachedFrom.of_exec hrun
  exact ⟨k, runQueueIntegrity hk, of_decide_eq_true hstate⟩

set_option maxRecDepth 100000 in
/-- A child that is terminated while it is ready leaves its entry in the
queue; the thread that gets its slot is then queued twice. -/
theorem stale_entry : ∃ k, ReachedFrom plainMemory Always k ∧
    ¬ k.RunQueueIntegrity := by
  have hrun : ((boot plainMemory smallImage).bind (exec step Always
      [.resume, .spawnSmall, .terminateProcess 2, .tryWaitProcess 2,
        .spawnSmall])).any
      fun k => k.runQueue.contents == [0, 2, 2] := by
    decide +kernel
  obtain ⟨k, hk, hqueue⟩ := ReachedFrom.of_exec hrun
  refine ⟨k, hk, fun h => ?_⟩
  have := h.nodup
  rw [beq_iff_eq.mp hqueue] at this
  revert this
  decide

end Kernel

end OpenKernel
