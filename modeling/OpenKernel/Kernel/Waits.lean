import OpenKernel.Kernel.Joiners

/-!
# Wait registrations

A blocked thread is named by an entry of `SLEEPERS`, of `FUTEX_WAITERS` or of
the waiters of a live thread.  `Waits` says that the entries in use and the
blocked threads match one to one, and that the context in which a thread is
blocked is the call that made its entry.

The rules below are about any change of the kernel that adds an entry for a
thread that blocks (`Matched.add`), removes entries whose threads it wakes
(`Matched.remove`), or leaves the entries alone (`Matched.congr`).
-/

namespace OpenKernel

open Lib

/-- A place where a waiting thread can be registered. -/
inductive Entry
  | sleeper (index : Nat)
  | futex (index : Nat)
  | joiner (target : ThreadId) (index : Nat)

namespace Kernel

/-- The thread that an entry in use names. -/
def named (k : Kernel) : Entry → Option ThreadId
  | .sleeper index =>
    if index < maxSleepers then (k.sleepers index).map (·.thread) else none
  | .futex index =>
    if index < maxFutexWaiters then (k.futexWaiters index).map (·.thread)
    else none
  | .joiner target index =>
    if (k.threads target).state ≠ .exited ∧
        index < (k.threads target).joinWaiterCount then
      some ((k.threads target).joinWaiters index)
    else none

/-- Whether the call that a context is in makes this entry. -/
def MadeBy (k : Kernel) : Entry → Context → Prop
  | .sleeper index, .sleeping due => ∃ s, k.sleepers index = some s ∧
      s.deadline = due % 2 ^ 64
  | .futex index, .futexWaiting address due =>
    ∃ f, k.futexWaiters index = some f ∧ f.address = address ∧
      f.deadline = due.map (· % 2 ^ 64)
  | .joiner target _, c => c.joins = some target
  | _, _ => False

/-- Entries and blocked threads match, when `context` says where each thread
goes on. -/
structure Matched (k : Kernel) (context : ThreadId → Option Context) :
    Prop where
  waiting : ∀ e t, k.named e = some t → (k.threads t).state = .blocked ∧
    ∃ c, context t = some c ∧ k.MadeBy e c
  entry : ∀ t, (k.threads t).state = .blocked → ∃ e, k.named e = some t
  lt : ∀ t, (k.threads t).state = .blocked → t < maxThreads
  unique : ∀ e e' t, k.named e = some t → k.named e' = some t → e = e'
  joined : ∀ t < maxThreads, ∀ c u, context t = some c → c.joins = some u →
    (k.threads t).state ≠ .blocked → (k.threads u).state = .exited
  late : ∀ t due, context t = some (.sleeping due) →
    (k.threads t).state = .blocked →
      k.timerTicks ≤ due ∧ due < k.timerTicks + 2 ^ 63
  early : ∀ t due, context t = some (.sleeping due) →
    (k.threads t).state ≠ .blocked → due ≤ k.timerTicks
  queue : ∀ t ∈ k.runQueue.contents, (k.threads t).state ≠ .blocked

/-- No sleeper is due. -/
def Future (k : Kernel) : Prop :=
  ∀ index < maxSleepers, ∀ s, k.sleepers index = some s →
    reached k.ticks s.deadline = false

/-- The invariant of the wait registrations. -/
structure Waits (k : Kernel) : Prop extends Matched k k.contextOf where
  future : k.Future
  current : (k.threads k.currentThread).state = .running

section Rules

variable {k k' : Kernel} {context context' : ThreadId → Option Context}

/-! ## Entries -/

theorem named_sleeper (k : Kernel) (index : Nat) :
    k.named (.sleeper index) =
      if index < maxSleepers then (k.sleepers index).map (·.thread) else none :=
  rfl

theorem named_futex (k : Kernel) (index : Nat) :
    k.named (.futex index) =
      if index < maxFutexWaiters then (k.futexWaiters index).map (·.thread)
      else none :=
  rfl

theorem named_joiner (k : Kernel) (target : ThreadId) (index : Nat) :
    k.named (.joiner target index) =
      if (k.threads target).state ≠ .exited ∧
          index < (k.threads target).joinWaiterCount then
        some ((k.threads target).joinWaiters index)
      else none :=
  rfl

/-- An entry is in use or not whatever else changes. -/
theorem named_congr (hsleepers : k'.sleepers = k.sleepers)
    (hfutexes : k'.futexWaiters = k.futexWaiters)
    (hexited : ∀ t, (k'.threads t).state = .exited ↔
      (k.threads t).state = .exited)
    (hwaiters : ∀ t, (k'.threads t).joinWaiters = (k.threads t).joinWaiters)
    (hcount : ∀ t, (k.threads t).state ≠ .exited →
      (k'.threads t).joinWaiterCount = (k.threads t).joinWaiterCount)
    (e : Entry) : k'.named e = k.named e := by
  cases e with
  | sleeper index => rw [named_sleeper, named_sleeper, hsleepers]
  | futex index => rw [named_futex, named_futex, hfutexes]
  | joiner target index =>
    rw [named_joiner, named_joiner, hwaiters]
    by_cases hx : (k.threads target).state = .exited
    · rw [if_neg fun h => h.1 ((hexited target).mpr hx), if_neg fun h => h.1 hx]
    · rw [hcount target hx]
      have hx' : (k'.threads target).state ≠ .exited :=
        fun h => hx ((hexited target).mp h)
      simp only [hx, hx', ne_eq, not_false_eq_true]

theorem madeBy_congr (hsleepers : k'.sleepers = k.sleepers)
    (hfutexes : k'.futexWaiters = k.futexWaiters) (e : Entry) (c : Context) :
    k'.MadeBy e c ↔ k.MadeBy e c := by
  cases e <;> cases c <;> unfold MadeBy <;>
    simp only [hsleepers, hfutexes]

/-- Nothing is registered with a thread that has exited. -/
theorem named_joiner_exited {t : ThreadId}
    (h : (k.threads t).state = .exited) (index : Nat) :
    k.named (.joiner t index) = none := by
  rw [named_joiner, if_neg fun hx => hx.1 h]

/-- A write of one sleeper leaves the other entries alone. -/
theorem other_sleeper (k : Kernel) (index : Nat) (s : Option Sleeper) {e : Entry}
    (he : e ≠ .sleeper index) :
    { k with sleepers := put k.sleepers index s }.named e = k.named e ∧
      ∀ c, { k with sleepers := put k.sleepers index s }.MadeBy e c ↔
        k.MadeBy e c := by
  cases e with
  | sleeper i =>
    have hsame : put k.sleepers index s i = k.sleepers i :=
      put_other fun heq => he (heq ▸ rfl)
    refine ⟨?_, fun c => ?_⟩
    · simp only [named_sleeper, hsame]
    · cases c <;> unfold MadeBy <;> simp only [hsame]
  | futex i => exact ⟨rfl, fun c => by cases c <;> exact .rfl⟩
  | joiner target i => exact ⟨rfl, fun c => .rfl⟩

/-- A write of one futex entry leaves the other entries alone. -/
theorem other_futex (k : Kernel) (index : Nat) (f : Option FutexWaiter)
    {e : Entry} (he : e ≠ .futex index) :
    { k with futexWaiters := put k.futexWaiters index f }.named e = k.named e ∧
      ∀ c, { k with futexWaiters := put k.futexWaiters index f }.MadeBy e c ↔
        k.MadeBy e c := by
  cases e with
  | sleeper i => exact ⟨rfl, fun c => by cases c <;> exact .rfl⟩
  | futex i =>
    have hsame : put k.futexWaiters index f i = k.futexWaiters i :=
      put_other fun heq => he (heq ▸ rfl)
    refine ⟨?_, fun c => ?_⟩
    · simp only [named_futex, hsame]
    · cases c <;> unfold MadeBy <;> simp only [hsame]
  | joiner target i => exact ⟨rfl, fun c => .rfl⟩

/-! ## Rules -/

/-- The entries are the same, and no thread blocks or wakes up. -/
theorem Matched.congr (h : k.Matched context)
    (hnamed : ∀ e, k'.named e = k.named e)
    (hmade : ∀ e c, k'.MadeBy e c ↔ k.MadeBy e c)
    (hblocked : ∀ t, (k'.threads t).state = .blocked ↔
      (k.threads t).state = .blocked)
    (hexited : ∀ t < maxThreads, ∀ c u, context' t = some c →
      c.joins = some u → (k.threads u).state = .exited →
        (k'.threads u).state = .exited)
    (hcontext : ∀ t, context' t = context t ∨
      (k.threads t).state ≠ .blocked ∧ ∀ c, context' t = some c →
        c.joins = none ∧ ∀ due, c ≠ .sleeping due)
    (hticks : k'.timerTicks = k.timerTicks)
    (hqueue : ∀ t ∈ k'.runQueue.contents, (k.threads t).state ≠ .blocked) :
    k'.Matched context' where
  waiting e t he := by
    rw [hnamed] at he
    obtain ⟨hb, c, hc, hmade'⟩ := h.waiting e t he
    refine ⟨(hblocked t).mpr hb, c, ?_, (hmade e c).mpr hmade'⟩
    rw [(hcontext t).resolve_right fun hx => hx.1 hb]
    exact hc
  entry t ht := by
    obtain ⟨e, he⟩ := h.entry t ((hblocked t).mp ht)
    exact ⟨e, by rw [hnamed, he]⟩
  lt t ht := h.lt t ((hblocked t).mp ht)
  unique e e' t he he' := by
    rw [hnamed] at he he'
    exact h.unique e e' t he he'
  joined t ht c u hc hjoins hnot := by
    rcases hcontext t with heq | ⟨-, hnew⟩
    · have hold := hc
      rw [heq] at hold
      exact hexited t ht c u hc hjoins (h.joined t ht c u hold hjoins fun hx =>
        hnot ((hblocked t).mpr hx))
    · rw [(hnew c hc).1] at hjoins
      cases hjoins
  late t due hc hb := by
    rw [hticks]
    have hb' := (hblocked t).mp hb
    rw [(hcontext t).resolve_right fun hx => hx.1 hb'] at hc
    exact h.late t due hc hb'
  early t due hc hnot := by
    rw [hticks]
    rcases hcontext t with heq | ⟨-, hnew⟩
    · rw [heq] at hc
      exact h.early t due hc fun hx => hnot ((hblocked t).mpr hx)
    · exact absurd rfl ((hnew _ hc).2 due)
  queue t ht hb := hqueue t ht ((hblocked t).mp hb)

/-- A running thread blocks, with a new entry. -/
theorem Matched.add (h : k.Matched context) {e₀ : Entry} {t₀ : ThreadId}
    {c₀ : Context} (hfree : k.named e₀ = none)
    (hnamed₀ : k'.named e₀ = some t₀) (hmade₀ : k'.MadeBy e₀ c₀)
    (hnamed : ∀ e, e ≠ e₀ → k'.named e = k.named e)
    (hmade : ∀ e c, e ≠ e₀ → (k'.MadeBy e c ↔ k.MadeBy e c))
    (hlt : t₀ < maxThreads) (hrunning : (k.threads t₀).state = .running)
    (hself : (k'.threads t₀).state = .blocked)
    (hother : ∀ t, t ≠ t₀ → (k'.threads t).state = (k.threads t).state)
    (hcontext₀ : context' t₀ = some c₀)
    (hcontext : ∀ t, t ≠ t₀ → context' t = context t)
    (hticks : k'.timerTicks = k.timerTicks)
    (hdue : ∀ due, c₀ = .sleeping due →
      k.timerTicks ≤ due ∧ due < k.timerTicks + 2 ^ 63)
    (hqueue : k'.runQueue.contents = k.runQueue.contents)
    (hout : t₀ ∉ k.runQueue.contents) : k'.Matched context' := by
  have hold : ∀ e t, k.named e = some t → e ≠ e₀ ∧ t ≠ t₀ := by
    intro e t he
    constructor
    · rintro rfl
      rw [hfree] at he
      cases he
    · rintro rfl
      rw [(h.waiting e t he).1] at hrunning
      cases hrunning
  have hnew : ∀ e t, k'.named e = some t →
      e = e₀ ∧ t = t₀ ∨ e ≠ e₀ ∧ t ≠ t₀ ∧ k.named e = some t := by
    intro e t he
    by_cases heq : e = e₀
    · subst heq
      rw [hnamed₀] at he
      exact .inl ⟨rfl, (Option.some.inj he).symm⟩
    · rw [hnamed e heq] at he
      exact .inr ⟨heq, (hold e t he).2, he⟩
  have hexited : ∀ u, (k.threads u).state = .exited →
      (k'.threads u).state = .exited := by
    intro u hu
    have hut : u ≠ t₀ := by
      rintro rfl
      rw [hrunning] at hu
      cases hu
    rw [hother u hut, hu]
  refine ⟨fun e t he => ?_, fun t ht => ?_, fun t ht => ?_,
    fun e e' t he he' => ?_, fun t ht c u hc hjoins hb => ?_,
    fun t due hc hb => ?_,
    fun t due hc hb => ?_, fun t ht hb => ?_⟩
  · rcases hnew e t he with ⟨rfl, rfl⟩ | ⟨heq, htt, he⟩
    · exact ⟨hself, c₀, hcontext₀, hmade₀⟩
    · obtain ⟨hb, c, hc, hm⟩ := h.waiting e t he
      exact ⟨by rw [hother t htt, hb], c, by rw [hcontext t htt, hc],
        (hmade e c heq).mpr hm⟩
  · by_cases htt : t = t₀
    · exact ⟨e₀, by rw [hnamed₀, htt]⟩
    · rw [hother t htt] at ht
      obtain ⟨e, he⟩ := h.entry t ht
      exact ⟨e, by rw [hnamed e (hold e t he).1, he]⟩
  · by_cases htt : t = t₀
    · rw [htt]
      exact hlt
    · rw [hother t htt] at ht
      exact h.lt t ht
  · rcases hnew e t he with ⟨rfl, rfl⟩ | ⟨-, htt, he⟩ <;>
      rcases hnew e' _ he' with ⟨rfl, heq⟩ | ⟨-, htt', he'⟩
    · rfl
    · exact absurd rfl htt'
    · exact absurd heq htt
    · exact h.unique e e' t he he'
  · have htt : t ≠ t₀ := by
      rintro rfl
      exact hb hself
    rw [hcontext t htt] at hc
    rw [hother t htt] at hb
    exact hexited u (h.joined t ht c u hc hjoins hb)
  · rw [hticks]
    by_cases htt : t = t₀
    · rw [htt, hcontext₀] at hc
      exact hdue due (Option.some.inj hc)
    · rw [hcontext t htt] at hc
      rw [hother t htt] at hb
      exact h.late t due hc hb
  · have htt : t ≠ t₀ := by
      rintro rfl
      exact hb hself
    rw [hcontext t htt] at hc
    rw [hother t htt] at hb
    rw [hticks]
    exact h.early t due hc hb
  · rw [hqueue] at ht
    have htt : t ≠ t₀ := by
      rintro rfl
      exact hout ht
    rw [hother t htt] at hb
    exact h.queue t ht hb

/-- Entries go out of use, and exactly their threads stop being blocked. -/
theorem Matched.remove (h : k.Matched context) (gone : Entry → Prop)
    (hgone : ∀ e, gone e → k'.named e = none)
    (hnamed : ∀ e, ¬ gone e → k'.named e = k.named e)
    (hmade : ∀ e c, ¬ gone e → (k'.MadeBy e c ↔ k.MadeBy e c))
    (hwoken : ∀ e t, gone e → k.named e = some t →
      (k'.threads t).state ≠ .blocked)
    (hkept : ∀ t, (∀ e, gone e → k.named e ≠ some t) →
      ((k'.threads t).state = .blocked ↔ (k.threads t).state = .blocked))
    (hexited : ∀ t, (k.threads t).state = .exited →
      (k'.threads t).state = .exited)
    (hcontext : ∀ t, context' t = context t)
    (hticks : k'.timerTicks = k.timerTicks)
    (hjoined : ∀ e t c u, gone e → k.named e = some t → context t = some c →
      c.joins = some u → (k'.threads u).state = .exited)
    (hdue : ∀ e t due, gone e → k.named e = some t →
      context t = some (.sleeping due) → due ≤ k.timerTicks)
    (hqueue : ∀ t ∈ k'.runQueue.contents, t ∈ k.runQueue.contents ∨
      (k'.threads t).state ≠ .blocked) : k'.Matched context' := by
  have hstays : ∀ e t, ¬ gone e → k.named e = some t →
      ∀ e', gone e' → k.named e' ≠ some t := by
    intro e t he ht e' he' ht'
    rw [h.unique e e' t ht ht'] at he
    exact he he'
  have hin : ∀ e t, k'.named e = some t → ¬ gone e ∧ k.named e = some t := by
    intro e t he
    have hng : ¬ gone e := by
      intro hg
      rw [hgone e hg] at he
      cases he
    exact ⟨hng, by rw [← hnamed e hng, he]⟩
  -- A thread that was blocked is still blocked, or one of its entries is gone.
  have hsplit : ∀ t, (k'.threads t).state = .blocked →
      (k.threads t).state = .blocked ∧ ∀ e, gone e → k.named e ≠ some t := by
    intro t ht
    have hnone : ∀ e, gone e → k.named e ≠ some t :=
      fun e he hn => hwoken e t he hn ht
    exact ⟨(hkept t hnone).mp ht, hnone⟩
  have hwas : ∀ t, (k'.threads t).state ≠ .blocked →
      (k.threads t).state ≠ .blocked ∨ ∃ e, gone e ∧ k.named e = some t := by
    intro t ht
    by_cases hx : ∃ e, gone e ∧ k.named e = some t
    · exact .inr hx
    · refine .inl fun hb => ht ((hkept t fun e he hn => hx ⟨e, he, hn⟩).mpr hb)
  refine ⟨fun e t he => ?_, fun t ht => ?_, fun t ht => ?_,
    fun e e' t he he' => ?_, fun t ht c u hc hjoins hb => ?_,
    fun t due hc hb => ?_,
    fun t due hc hb => ?_, fun t ht hb => ?_⟩
  · obtain ⟨hng, he⟩ := hin e t he
    obtain ⟨hb, c, hc, hm⟩ := h.waiting e t he
    exact ⟨(hkept t (hstays e t hng he)).mpr hb, c, by rw [hcontext, hc],
      (hmade e c hng).mpr hm⟩
  · obtain ⟨hb, hnone⟩ := hsplit t ht
    obtain ⟨e, he⟩ := h.entry t hb
    have hng : ¬ gone e := fun hg => hnone e hg he
    exact ⟨e, by rw [hnamed e hng, he]⟩
  · exact h.lt t (hsplit t ht).1
  · exact h.unique e e' t (hin e t he).2 (hin e' t he').2
  · rw [hcontext] at hc
    rcases hwas t hb with hb | ⟨e, he, hn⟩
    · exact hexited u (h.joined t ht c u hc hjoins hb)
    · exact hjoined e t c u he hn hc hjoins
  · rw [hcontext] at hc
    rw [hticks]
    exact h.late t due hc (hsplit t hb).1
  · rw [hcontext] at hc
    rw [hticks]
    rcases hwas t hb with hb | ⟨e, he, hn⟩
    · exact h.early t due hc hb
    · exact hdue e t due he hn hc
  · rcases hqueue t ht with ht | ht
    · exact h.queue t ht (hsplit t hb).1
    · exact ht hb

/-! ## Switching -/

/-- The places where the threads of a kernel in the middle of a switch go on:
the current one at `saved`. -/
def contextAt (k : Kernel) (saved : Context) (t : ThreadId) : Option Context :=
  if t = k.currentThread then some saved else k.contextOf t

/-- The thread that a switch takes was not blocked. -/
theorem taken_not_blocked (htaken : k.Taken k')
    (hidle : (k.threads idleThread).state ≠ .blocked)
    (hqueue : ∀ t ∈ k.runQueue.contents, (k.threads t).state ≠ .blocked) :
    (k.threads k'.currentThread).state ≠ .blocked ∧
      ∀ t ∈ k'.runQueue.contents, t ∈ k.runQueue.contents := by
  obtain ⟨passed, -, ⟨hc, hq, hcur, -⟩ | ⟨hc, -, -⟩⟩ := htaken
  · rw [hcur, hq]
    exact ⟨hidle, fun t ht => absurd ht List.not_mem_nil⟩
  · refine ⟨hqueue _ ?_, fun t ht => ?_⟩
    · rw [hc]
      simp
    · rw [hc]
      simp [ht]

theorem Matched.dispatch {saved : Context} (h : k.Matched (k.contextAt saved))
    (hfuture : k.Future) (hd : Dispatched k saved k') (htaken : k.Taken k')
    (hidle : (k.threads idleThread).state ≠ .exited ∧
      (k.threads idleThread).state ≠ .blocked) : k'.Waits := by
  obtain ⟨hnext, hqueue⟩ := taken_not_blocked htaken hidle.2 h.queue
  have hnotexited : (k.threads k'.currentThread).state ≠ .exited := by
    rcases hd.runnable with heq | hlive
    · rw [heq]
      exact hidle.1
    · exact hlive
  have hstate : ∀ s : ThreadState, s ≠ .running →
      (k.threads k'.currentThread).state ≠ s → ∀ t,
        (k'.threads t).state = s ↔ (k.threads t).state = s := by
    intro s hs hne t
    by_cases ht : t = k'.currentThread
    · subst ht
      rw [hd.state, if_pos rfl]
      exact ⟨fun h => absurd h.symm hs, fun h => absurd h hne⟩
    · rw [hd.state_of_ne t ht]
  have hexited := hstate .exited (by decide) hnotexited
  refine { toMatched := h.congr ?_ ?_ ?_ ?_ ?_ ?_ ?_, future := ?_, current := ?_ }
  · exact named_congr hd.sleepers hd.futexWaiters hexited hd.joinWaiters
      fun t _ => hd.joinWaiterCount t
  · exact madeBy_congr hd.sleepers hd.futexWaiters
  · exact hstate .blocked (by decide) hnext
  · exact fun _ _ _ u _ _ hu => (hexited u).mpr hu
  · exact fun t => .inl (hd.contextOf t)
  · exact hd.timerTicks
  · exact fun t ht => h.queue t (hqueue t ht)
  · intro index hlt s hs
    rw [hd.sleepers] at hs
    unfold ticks
    rw [hd.timerTicks]
    exact hfuture index hlt s hs
  · rw [hd.state, if_pos rfl]

/-! ## Waking -/

/-- How one thread can be made ready. -/
theorem makeReady_state (k : Kernel) (t u : ThreadId) :
    ((k.makeReady t).threads u).state =
      if u = t ∧ (k.threads u).state = .blocked then .ready
      else (k.threads u).state := by
  by_cases hut : u = t
  · subst hut
    unfold makeReady
    by_cases hb : (k.threads u).state = .blocked
    · rw [if_pos hb, if_pos ⟨rfl, hb⟩, ((k.setState u .ready).enqueue_fields u).1]
      show (put k.threads u _ u).state = _
      rw [put_same]
    · rw [if_neg hb, if_neg fun h => hb h.2]
  · rw [if_neg fun h => hut h.1]
    unfold makeReady
    split
    · rw [((k.setState t .ready).enqueue_fields t).1]
      show (put k.threads t _ u).state = _
      rw [put_other hut]
    · rfl

theorem makeReady_tables (k : Kernel) (t : ThreadId) :
    (k.makeReady t).sleepers = k.sleepers ∧
      (k.makeReady t).futexWaiters = k.futexWaiters ∧
      (k.makeReady t).timerTicks = k.timerTicks := by
  unfold makeReady
  split
  · unfold enqueue
    split <;> exact ⟨rfl, rfl, rfl⟩
  · exact ⟨rfl, rfl, rfl⟩

theorem mem_enqueue (k : Kernel) {t u : ThreadId}
    (h : u ∈ (k.enqueue t).runQueue.contents) :
    u ∈ k.runQueue.contents ∨ u = t := by
  by_cases hroom : k.runQueue.count = maxThreads
  · unfold enqueue at h
    rw [if_pos hroom] at h
    exact .inl h
  · rw [enqueue_of_room hroom] at h
    have h' : u ∈ (k.runQueue.enqueue t).contents := h
    rw [RunQueue.contents_enqueue _ _ hroom, List.mem_append,
      List.mem_singleton] at h'
    exact h'

theorem mem_makeReady (k : Kernel) {t u : ThreadId}
    (h : u ∈ (k.makeReady t).runQueue.contents) :
    u ∈ k.runQueue.contents ∨ ((k.makeReady t).threads u).state ≠ .blocked := by
  rw [makeReady_state]
  unfold makeReady at h
  split at h
  · rename_i hb
    rcases mem_enqueue _ h with hmem | heq
    · exact .inl hmem
    · refine .inr ?_
      rw [heq, if_pos ⟨rfl, hb⟩]
      decide
  · exact .inl h

/-- What the loop over the join waiters does. -/
theorem wakeJoinWaiters_spec (k : Kernel) (t : ThreadId) :
    (∀ u, ((k.wakeJoinWaiters t).threads u).state =
      if (∃ i < (k.threads t).joinWaiterCount,
          (k.threads t).joinWaiters i = u) ∧ (k.threads u).state = .blocked then
        .ready
      else (k.threads u).state) ∧
      (k.wakeJoinWaiters t).sleepers = k.sleepers ∧
      (k.wakeJoinWaiters t).futexWaiters = k.futexWaiters ∧
      (k.wakeJoinWaiters t).timerTicks = k.timerTicks ∧
      ∀ u ∈ (k.wakeJoinWaiters t).runQueue.contents, u ∈ k.runQueue.contents ∨
        ((k.wakeJoinWaiters t).threads u).state ≠ .blocked := by
  unfold wakeJoinWaiters
  dsimp only
  generalize (k.threads t).joinWaiters = waiters
  induction (k.threads t).joinWaiterCount with
  | zero => exact ⟨fun u => by simp, rfl, rfl, rfl, fun u hu => .inl hu⟩
  | succ n ih =>
    obtain ⟨hstate, hsleepers, hfutexes, hticks, hqueue⟩ := ih
    rw [List.range_succ, List.foldl_append, List.foldl_cons, List.foldl_nil]
    generalize hk : (List.range n).foldl (fun k index =>
      k.makeReady (waiters index)) k = k₁ at *
    obtain ⟨h1, h2, h3⟩ := k₁.makeReady_tables (waiters n)
    refine ⟨fun u => ?_, h1.trans hsleepers, h2.trans hfutexes, h3.trans hticks,
      fun u hu => ?_⟩
    · have hsplit : (∃ i < n + 1, waiters i = u) ↔
          (∃ i < n, waiters i = u) ∨ u = waiters n := by
        simp only [Nat.lt_succ_iff_lt_or_eq, or_and_right, exists_or,
          exists_eq_left, eq_comm (b := waiters n)]
      rw [makeReady_state]
      simp only [hsplit]
      by_cases hin : (∃ i < n, waiters i = u) ∧ (k.threads u).state = .blocked
      · have hready : (k₁.threads u).state = .ready := by
          rw [hstate, if_pos hin]
        rw [hready, if_neg fun h => ThreadState.noConfusion h.2, if_pos]
        exact ⟨.inl hin.1, hin.2⟩
      · have hold : (k₁.threads u).state = (k.threads u).state := by
          rw [hstate, if_neg hin]
        rw [hold]
        by_cases hn : u = waiters n ∧ (k.threads u).state = .blocked
        · rw [if_pos hn, if_pos ⟨.inr hn.1, hn.2⟩]
        · rw [if_neg hn, if_neg]
          rintro ⟨h | h, hb⟩
          · exact hin ⟨h, hb⟩
          · exact hn ⟨h, hb⟩
    · rcases k₁.mem_makeReady hu with hmem | hb
      · rcases hqueue u hmem with hmem | hb
        · exact .inl hmem
        · refine .inr ?_
          rw [makeReady_state]
          split
          · decide
          · exact hb
      · exact .inr hb

end Rules

end Kernel

end OpenKernel
