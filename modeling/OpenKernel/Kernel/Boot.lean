import OpenKernel.Kernel.Invariant

/-!
# The boot state and the runs from it

`Booted` describes the kernel after its first switch, up to the contents of
memory: PID 1 runs in slot 1, and the idle thread waits in the run queue.
-/

namespace OpenKernel

open Lib

namespace Kernel

/-- The record of PID 1 and the log so far, newest events first. -/
def Recording (k : Kernel) (recent : List Event) : Prop :=
  ∃ space before between,
    k.processes = put (fun _ => .empty) 0
      { id := userProcessId, addressSpace := space, parent := none,
        mainThread := none } ∧
    Extends Event.IsQuiet [] before ∧
    Extends Event.IsQuiet (.created userProcessId space :: before) between ∧
    k.log = recent ++ between

/-- PID 1 has a record and a thread, and nothing runs yet. -/
structure Staged (k : Kernel) : Prop where
  currentThread : k.currentThread = noThread
  resuming : k.resuming = none
  idleCreated : k.idleCreated = false
  queue : k.runQueue.contents = [1]
  first : ∃ userContext, (k.threads 1).core =
    { Thread.empty with
      process := some userProcessId
      userContext
      isUser := true
      state := .ready
      reapable := false }.core
  others : ∀ t, t ≠ 1 → (k.threads t).core = Thread.empty.core
  timerTicks : k.timerTicks = 0
  sleepers : k.sleepers = fun _ => none
  futexWaiters : k.futexWaiters = fun _ => none
  records : k.Recording [.enqueued 1, .handed 1]

/-- The state that `run_demo` and `start` leave. -/
structure Booted (k : Kernel) : Prop where
  currentThread : k.currentThread = 1
  resuming : k.resuming = some .trampoline
  queue : k.runQueue.contents = [idleThread]
  idle : (k.threads idleThread).core =
    { Thread.empty with entry := some idleEntry, state := .ready }.core
  first : ∃ userContext, (k.threads 1).core =
    { Thread.empty with
      process := some userProcessId
      userContext
      isUser := true
      state := .running
      reapable := false }.core
  others : ∀ t, 2 ≤ t → (k.threads t).core = Thread.empty.core
  timerTicks : k.timerTicks = 0
  sleepers : k.sleepers = fun _ => none
  futexWaiters : k.futexWaiters = fun _ => none
  records : k.Recording
    [.dispatched 1 .ready, .enqueued idleThread, .enqueued 1, .handed 1]

/-! ## The steps of `run_demo` -/

open KernelCall

/-- PID 1 has its record, and nothing else has happened yet. -/
private def Founded (m : Memory) (k : Kernel) : Prop :=
  ∃ k₁ space, Quiet (initial m) k₁ ∧ k = k₁.initializeUserProcess space

private theorem reusableSlot_founded {m : Memory} {k : Kernel}
    (h : Founded m k) : k.reusableSlot = some 1 := by
  obtain ⟨k₁, space, hq, rfl⟩ := h
  show k₁.reusableSlot = some 1
  rw [hq.reusableSlot]
  rfl

/-- A push into a queue with room, on its contents. -/
private theorem contents_push {q : RunQueue} {ts : List ThreadId}
    (h : q.contents = ts) (hroom : ts.length < maxThreads) (t : ThreadId) :
    q.count ≠ maxThreads ∧ (q.enqueue t).contents = ts ++ [t] := by
  have hlen := Ring.length_contents q.toRing
  rw [h] at hlen
  have hcount : q.count ≠ maxThreads := by omega
  exact ⟨hcount, by rw [RunQueue.contents_enqueue _ _ hcount, h]⟩

theorem enqueue_of_room {k : Kernel} {t : ThreadId}
    (h : k.runQueue.count ≠ maxThreads) :
    k.enqueue t =
      { k with
        runQueue := k.runQueue.enqueue t
        log := .enqueued t :: k.log } := by
  unfold enqueue
  rw [if_neg h]
  rfl

/-- Quiet changes keep a staged kernel. -/
private theorem Staged.quiet {k k' : Kernel} (h : k.Staged) (hq : Quiet k k')
    (hlog : k'.log = k.log) : k'.Staged where
  currentThread := by rw [hq.currentThread, h.currentThread]
  resuming := by rw [hq.resuming, h.resuming]
  idleCreated := by rw [hq.idleCreated, h.idleCreated]
  queue := by rw [hq.runQueue, h.queue]
  first := by rw [hq.core]; exact h.first
  others t ht := by rw [hq.core, h.others t ht]
  timerTicks := by rw [hq.timerTicks, h.timerTicks]
  sleepers := by rw [hq.sleepers, h.sleepers]
  futexWaiters := by rw [hq.futexWaiters, h.futexWaiters]
  records := by
    unfold Recording
    rw [hq.processes, hlog]
    exact h.records

private theorem staged_of_handed {m : Memory} {k₀ k : Kernel} {slot : ThreadId}
    (h₀ : Founded m k₀)
    (h : k₀.Handed slot none (some userProcessId) true k) : k.Staged := by
  obtain ⟨k₁, userContext, ownsUserStack, hq, hslot, rfl⟩ := h
  rw [reusableSlot_founded h₀] at hslot
  obtain rfl := Option.some.inj hslot
  obtain ⟨k₂, space, hq₂, rfl⟩ := h₀
  have hcontents : k₁.runQueue.contents = [] := by
    rw [hq.runQueue]
    show k₂.runQueue.contents = []
    rw [hq₂.runQueue]
    rfl
  obtain ⟨hroom, hpush⟩ := contents_push hcontents (by decide) 1
  unfold install
  rw [enqueue_of_room]
  swap
  · exact hroom
  exact
    { currentThread := hq.currentThread.trans hq₂.currentThread
      resuming := hq.resuming.trans hq₂.resuming
      idleCreated := hq.idleCreated.trans hq₂.idleCreated
      queue := hpush
      first := ⟨userContext, by
        show (put k₁.threads 1 _ 1).core = _
        rw [put_same]
        rfl⟩
      others := fun t ht => by
        show (put k₁.threads 1 _ t).core = _
        rw [put_other ht, hq.core]
        exact hq₂.core t
      timerTicks := hq.timerTicks.trans hq₂.timerTicks
      sleepers := hq.sleepers.trans hq₂.sleepers
      futexWaiters := hq.futexWaiters.trans hq₂.futexWaiters
      records := by
        refine ⟨space, k₂.log, k₁.log, ?_, hq₂.log, hq.log, rfl⟩
        show k₁.processes = _
        rw [hq.processes]
        show put k₂.processes 0 _ = _
        rw [hq₂.processes]
        rfl }

/-- The state that `ensure_idle` leaves. -/
private def WithIdle (k : Kernel) : Prop :=
  ∃ (k₁ : Kernel) (thread : Thread) (q : RunQueue), Staged k₁ ∧
    thread.core =
      { Thread.empty with entry := some idleEntry, state := .ready }.core ∧
    q.contents = [1, idleThread] ∧
    k = { k₁ with
      threads := put k₁.threads idleThread thread
      runQueue := q
      idleCreated := true
      log := .enqueued idleThread :: k₁.log }

private theorem staged_ofMemory {α ε : Type} (x : EStateM ε Memory α) :
    Keeps Staged (ofMemory x) := by
  intro k hk
  unfold ofMemory
  cases x k.memory with
  | ok a memory => exact hk.quiet (k.quiet_memory memory) rfl
  | error e memory => exact hk.quiet (k.quiet_memory memory) rfl

private theorem ensureIdle_spec :
    Spec Staged ensureIdle (fun _ => WithIdle) (fun _ => Staged) := by
  refine Spec.bind_read fun k hk => ?_
  refine Spec.ite (fun hcreated => ?_) fun _ => ?_
  · rw [hk.idleCreated] at hcreated
    cases hcreated
  · refine Spec.bind (staged_ofMemory _) fun stackTop => ?_
    refine Spec.bind (staged_ofMemory _) fun syscallStackTop => ?_
    refine Spec.update fun k hk => ?_
    obtain ⟨hroom, hpush⟩ := contents_push hk.queue (by decide) idleThread
    have hcore := hk.others idleThread (by decide)
    rw [enqueue_of_room]
    swap
    · exact hroom
    refine ⟨k, _, _, hk, ?_, hpush, rfl⟩
    exact congrArg
      (fun t => { t with entry := some idleEntry, state := .ready }) hcore

/-- The first entry of the queue runs. -/
private theorem scheduleFromScheduler_of_cons {k : Kernel} {t : ThreadId}
    {rest : List ThreadId} (hqueue : k.runQueue.contents = t :: rest)
    (hlive : (k.threads t).state ≠ .exited) :
    ∃ q : RunQueue, q.contents = rest ∧ k.scheduleFromScheduler =
      { k with
        runQueue := q
        log := .dispatched t (k.threads t).state :: k.log }.startFirst t := by
  obtain ⟨passed, q, hpassed, hcases⟩ :=
    nextReadyLoop_spec k.runQueue.count k (Nat.le_refl _)
  have hnil : ∀ rest', k.runQueue.contents = passed ++ rest' → passed = [] := by
    intro rest' h
    cases passed with
    | nil => rfl
    | cons u us =>
      rw [hqueue] at h
      obtain ⟨rfl, -⟩ := List.cons.inj h
      exact absurd (hpassed t (by simp)) hlive
  unfold scheduleFromScheduler nextReady
  rcases hcases with ⟨hc, -, -⟩ | ⟨next, hc, -, heq⟩
  · have h := hnil [] (by rw [hc, List.append_nil])
    rw [h, hqueue] at hc
    cases hc
  · obtain rfl := hnil _ hc
    rw [hqueue, List.nil_append] at hc
    obtain ⟨rfl, hrest⟩ := List.cons.inj hc
    rw [heq]
    exact ⟨q, hrest.symm, rfl⟩

private theorem booted_of_withIdle {k : Kernel} (h : WithIdle k) :
    k.scheduleFromScheduler.Booted := by
  obtain ⟨k₁, thread, q, h, hidle, hqueue, rfl⟩ := h
  obtain ⟨userContext, hfirst⟩ := h.first
  have hone : put k₁.threads idleThread thread 1 = k₁.threads 1 :=
    put_other (by decide)
  have hstate : (put k₁.threads idleThread thread 1).state = .ready := by
    rw [hone]
    exact congrArg Thread.state hfirst
  obtain ⟨q', hq', heq⟩ := scheduleFromScheduler_of_cons
    (k := { k₁ with
      threads := put k₁.threads idleThread thread
      runQueue := q
      idleCreated := true
      log := .enqueued idleThread :: k₁.log }) hqueue
    (by rw [hstate]; decide)
  rw [heq]
  have hself : ∀ t, t ≠ 1 → put (put k₁.threads idleThread thread) 1
      { k₁.threads 1 with state := .running } t =
        put k₁.threads idleThread thread t := fun t ht => put_other ht
  obtain ⟨space, before, between, hprocesses, hbefore, hbetween, hlog⟩ :=
    h.records
  have hcontext : (k₁.threads 1).context = .trampoline :=
    congrArg Thread.context hfirst
  unfold startFirst setState updateThread
  dsimp only
  rw [hone]
  exact
    { currentThread := rfl
      resuming := congrArg some hcontext
      queue := hq'
      idle := by
        dsimp only
        rw [hself _ (by decide), put_same]
        exact hidle
      first := ⟨userContext, by
        dsimp only
        rw [put_same]
        exact congrArg (fun t => { t with state := .running }) hfirst⟩
      others := fun t ht => by
        have h1 : t ≠ 1 := Nat.ne_of_gt ht
        have h0 : t ≠ idleThread := Nat.ne_of_gt (Nat.lt_of_lt_of_le (by decide) ht)
        dsimp only
        rw [hself t h1, put_other h0]
        exact h.others t h1
      timerTicks := h.timerTicks
      sleepers := h.sleepers
      futexWaiters := h.futexWaiters
      records := ⟨space, before, between, hprocesses, hbefore, hbetween, by
        have hready : (k₁.threads 1).state = .ready :=
          congrArg Thread.state hfirst
        dsimp only
        rw [hlog, hready]
        rfl⟩ }

/-- What `run_demo` leaves when it gets to the first switch. -/
theorem runDemo_spec (m : Memory) (image : List UInt8) :
    Spec (Quiet (initial m)) (runDemo image) (fun _ => Booted)
      (fun _ _ => True) := by
  have hany : ∀ (p : Kernel → Prop) (e : Stop) k, p k → True :=
    fun _ _ _ _ => trivial
  refine Spec.bind ((quiet_ofMemory _).mono_fail (hany _)) fun space => ?_
  refine Spec.bind ((quiet_ofMemory _).mono_fail (hany _)) fun loaded => ?_
  refine Spec.bind ((quiet_modify fun k => ?_).mono_fail (hany _)) fun _ => ?_
  · exact { Quiet.refl k with }
  refine Spec.bind ((quiet_ofMemory _).mono_fail (hany _)) fun _ => ?_
  refine Spec.bind ((quiet_modify fun k => k.quiet_memory _).mono_fail (hany _))
    fun _ => ?_
  refine Spec.bind ((quiet_initializeProgram _ _ _).mono_fail (hany _))
    fun stackPointer => ?_
  refine Spec.bind (Spec.update fun k hk => ?_ :
    Spec _ _ (fun _ => Founded m) _) fun _ => ?_
  · exact ⟨k, space, hk, rfl⟩
  refine Spec.bind (?_ : Spec _ _ (fun _ => Staged) _) fun _ => ?_
  · intro k hk
    have h := (spawnUser_spec loaded.entry 0 loaded.fsBase
      (some stackPointer)).mono_fail (hany (Quiet k)) k (.refl k)
    split at h
    · exact staged_of_handed hk h
    · trivial
  refine Spec.bind (ensureIdle_spec.mono_fail (hany _)) fun _ => ?_
  exact Spec.update fun k hk => booted_of_withIdle hk

theorem boot_booted {memory : Memory} {image : List UInt8} {k : Kernel}
    (h : boot memory image = some k) : k.Booted := by
  have hspec := runDemo_spec memory image (initial memory) (.refl _)
  unfold boot at h
  split at h
  · rename_i heq
    rw [heq] at hspec
    obtain rfl := Option.some.inj h
    exact hspec
  · cases h

/-! ## The invariant holds after boot -/

/-- The slots of the boot state, case by case. -/
theorem slot_cases (t : ThreadId) : t = idleThread ∨ t = 1 ∨ 2 ≤ t := by
  have : t = 0 ∨ t = 1 ∨ 2 ≤ t := by
    rcases Nat.lt_or_ge t 2 with hlt | hge
    · interval_cases t
      · exact .inl rfl
      · exact .inr (.inl rfl)
    · exact .inr (.inr hge)
  exact this

namespace Booted

variable {k : Kernel} (h : k.Booted)
include h

/-- Every slot from 2 on is a field of an empty thread. -/
theorem other {α : Type} {t : ThreadId} (ht : 2 ≤ t) (f : Thread → α)
    (hf : ∀ t : Thread, f t.core = f t) :
    f (k.threads t) = f Thread.empty := by
  rw [← hf, h.others t ht, hf]

theorem idle_field {α : Type} (f : Thread → α)
    (hf : ∀ t : Thread, f t.core = f t) :
    f (k.threads idleThread) =
      f { Thread.empty with entry := some idleEntry, state := .ready } := by
  rw [← hf, h.idle, hf]

/-- Every saved or loaded context is that of a new thread. -/
theorem contextOf (t : ThreadId) : k.contextOf t = some .trampoline := by
  unfold Kernel.contextOf
  rw [h.currentThread, h.resuming]
  split
  · rfl
  · rename_i hne
    rcases slot_cases t with rfl | rfl | hge
    · exact congrArg some (h.idle_field Thread.context fun _ => rfl)
    · exact absurd rfl hne
    · exact congrArg some (h.other hge Thread.context fun _ => rfl)

theorem wellFormed : k.WellFormed := by
  obtain ⟨userContext, hfirst⟩ := h.first
  obtain ⟨space, before, between, hprocesses, -, -, -⟩ := h.records
  have hrecord : ∀ slot, slot ≠ 0 → k.processes slot = .empty := by
    intro slot hslot
    rw [hprocesses, put_other hslot]
  refine
    { shape := fun slot hslot => ?_
      first := ?_
      main_lt := fun slot hslot t ht => ?_
      waits := fun w p t hw => ?_
      userProcess := fun t ht => ?_
      current_lt := ?_
      beyond := fun t ht => ?_
      idle := ?_
      reapable := fun t hidle hr => ?_
      joins := fun w c t hw hjoins => ?_
      current_kept := fun _ => ?_ }
  · by_cases h0 : slot = 0
    · rw [h0, hprocesses, put_same]
      exact .inr rfl
    · exact .inl (hrecord slot h0)
  · rw [hprocesses, put_same]
    exact ⟨rfl, rfl, rfl⟩
  · by_cases h0 : slot = 0
    · rw [h0, hprocesses, put_same] at ht
      cases ht
    · rw [hrecord slot h0] at ht
      cases ht
  · rw [h.contextOf] at hw
    cases hw
  · rcases slot_cases t with rfl | rfl | hge
    · rw [h.idle_field Thread.isUser fun _ => rfl] at ht
      cases ht
    · exact ⟨0, by decide, congrArg Thread.process hfirst⟩
    · rw [h.other hge Thread.isUser fun _ => rfl] at ht
      cases ht
  · rw [h.currentThread]
    decide
  · have hge : 2 ≤ t := Nat.le_trans (by decide) ht
    exact ⟨h.other hge Thread.state fun _ => rfl,
      h.other hge Thread.isUser fun _ => rfl⟩
  · refine ⟨h.idle_field Thread.isUser fun _ => rfl, ?_⟩
    rw [h.idle_field Thread.state fun _ => rfl]
    exact ⟨by decide, by decide⟩
  · rcases slot_cases t with rfl | rfl | hge
    · exact absurd rfl hidle
    · have hkept : (k.threads 1).reapable = false :=
        congrArg Thread.reapable hfirst
      rw [hkept] at hr
      cases hr
    · exact h.other hge Thread.state fun _ => rfl
  · rw [h.contextOf] at hw
    obtain rfl := Option.some.inj hw
    cases hjoins
  · rw [h.currentThread]
    exact congrArg Thread.reapable hfirst

end Booted

/-! ## Runs -/

/-- The states that a kernel with this memory at boot can reach when each
action meets `guard` in the state before it. -/
def ReachedFrom (memory : Memory) (guard : Kernel → Action → Prop)
    (k : Kernel) : Prop :=
  ∃ image k₀, boot memory image = some k₀ ∧ Run step guard k₀ k

namespace ReachedFrom

variable {memory : Memory} {guard : Kernel → Action → Prop} {k : Kernel}

/-- The invariant rule: what holds after boot and what each allowed step
keeps, in a well-formed state, holds in every reached state. -/
theorem invariant (Inv : Kernel → Prop) (h : ReachedFrom memory guard k)
    (hboot : ∀ k, k.Booted → Inv k)
    (hstep : ∀ k a k', k.WellFormed → Inv k → guard k a → k.step a = some k' →
      Inv k') : k.WellFormed ∧ Inv k := by
  obtain ⟨image, k₀, hk₀, hrun⟩ := h
  have hbooted := boot_booted hk₀
  have hkeeps : ∀ k a k', k.WellFormed ∧ Inv k → guard k a →
      k.step a = some k' → k'.WellFormed ∧ Inv k' := by
    rintro k a k' ⟨hw, hinv⟩ hguard hnext
    exact ⟨hw.step hnext, hstep k a k' hw hinv hguard hnext⟩
  exact hrun.invariant (fun k => k.WellFormed ∧ Inv k) hkeeps
    ⟨hbooted.wellFormed, hboot k₀ hbooted⟩

theorem wellFormed (h : ReachedFrom memory guard k) : k.WellFormed :=
  (h.invariant (fun _ => True) (fun _ _ => trivial)
    fun _ _ _ _ _ _ _ => trivial).1

theorem mono {guard' : Kernel → Action → Prop}
    (hg : ∀ k a, guard k a → guard' k a) (h : ReachedFrom memory guard k) :
    ReachedFrom memory guard' k := by
  obtain ⟨image, k₀, hk₀, hrun⟩ := h
  exact ⟨image, k₀, hk₀, hrun.mono hg⟩

/-- A run on a given list of actions. -/
theorem of_exec [∀ k a, Decidable (guard k a)] {image : List UInt8}
    {actions : List Action} {p : Kernel → Bool}
    (h : ((boot memory image).bind (exec step guard actions)).any p) :
    ∃ k, ReachedFrom memory guard k ∧ p k = true := by
  obtain ⟨k, hk, hp⟩ := (Option.any_eq_true _ _).mp h
  obtain ⟨k₀, hk₀, hexec⟩ := Option.bind_eq_some_iff.mp hk
  exact ⟨k, ⟨image, k₀, hk₀, run_of_exec hexec⟩, hp⟩

end ReachedFrom

/-! ## A small machine -/

/-- The bare machine once its virtual memory is initialised. -/
def plainMemory : Memory :=
  match initializeVirtualMemory upperHalfConfig bareMemory with
  | .ok _ memory => memory
  | .error _ memory => memory

/-- An executable with one segment of one byte. -/
def smallImage : List UInt8 :=
  executable [programHeader programHeaderLoad programFlagExecute
    (elfHeaderSize + programHeaderSize) futureUserSpaceBase 1 1 pageSize] [0x90]

end Kernel

/-- A spawn of the small executable without arguments. -/
def Action.spawnSmall : Action :=
  .processSpawn "/bin/small".toUTF8.toList (some Kernel.smallImage) []

end OpenKernel
