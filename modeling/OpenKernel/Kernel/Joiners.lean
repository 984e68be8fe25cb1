import OpenKernel.Kernel.Boot

/-!
# The threads inside a join

`joiners k t` are the threads whose saved or loaded context is a `join` of
`t`.  The counter of `t` is never below their number, so that a slot with
joiners is not reused.  This needs that every thread but the idle one is a
user thread, which holds in runs of syscalls and interrupts.
-/

namespace OpenKernel

open Lib

namespace Kernel

/-- The threads inside a `join` of `t`. -/
def joiners (k : Kernel) (t : ThreadId) : Finset ThreadId :=
  (Finset.range maxThreads).filter fun w =>
    (k.contextOf w).bind Context.joins = some t

section Joiners

variable {k k' : Kernel} {t w : ThreadId}

theorem mem_joiners : w ∈ k.joiners t ↔
    w < maxThreads ∧ (k.contextOf w).bind Context.joins = some t := by
  rw [joiners, Finset.mem_filter, Finset.mem_range]

theorem mem_joiners_of_context {c : Context} (hlt : w < maxThreads)
    (hc : k.contextOf w = some c) (hjoins : c.joins = some t) :
    w ∈ k.joiners t := by
  rw [mem_joiners, hc]
  exact ⟨hlt, hjoins⟩

theorem joiners_congr (h : ∀ w, k'.contextOf w = k.contextOf w) :
    k'.joiners t = k.joiners t := by
  ext w
  rw [mem_joiners, mem_joiners, h]

/-- A thread that runs in user mode is inside no join. -/
theorem current_not_joiner (hr : k.resuming = none) :
    k.currentThread ∉ k.joiners t := by
  rw [mem_joiners, contextOf, if_pos rfl, hr]
  rintro ⟨-, h⟩
  cases h

/-- A switch puts the old thread among the joiners that its saved context
names. -/
theorem joiners_dispatch {saved : Context} (hd : Dispatched k saved k')
    (hlt : k.currentThread < maxThreads) (hr : k.resuming = none) :
    k'.joiners t =
      if saved.joins = some t then insert k.currentThread (k.joiners t)
      else k.joiners t := by
  have hout := current_not_joiner (t := t) hr
  ext w
  rw [mem_joiners, hd.contextOf]
  by_cases hw : w = k.currentThread
  · subst hw
    rw [if_pos rfl]
    split
    · rename_i hjoins
      simp only [Finset.mem_insert_self, iff_true]
      exact ⟨hlt, hjoins⟩
    · rename_i hjoins
      constructor
      · exact fun h => absurd h.2 hjoins
      · exact fun h => absurd h hout
  · rw [if_neg hw]
    split
    · rw [Finset.mem_insert, mem_joiners]
      exact (or_iff_right hw).symm
    · rw [mem_joiners]

theorem card_joiners_dispatch {saved : Context} (hd : Dispatched k saved k')
    (hlt : k.currentThread < maxThreads) (hr : k.resuming = none) :
    (k'.joiners t).card =
      (k.joiners t).card + if saved.joins = some t then 1 else 0 := by
  rw [joiners_dispatch hd hlt hr]
  split
  · rw [Finset.card_insert_of_notMem (current_not_joiner hr)]
  · rfl

/-- A thread that goes on after a switch has left its join. -/
theorem joiners_clear : { k with resuming := none }.joiners t =
    (k.joiners t).erase k.currentThread := by
  ext w
  rw [mem_joiners, contextOf_clear, Finset.mem_erase, mem_joiners]
  by_cases hw : w = k.currentThread
  · rw [if_pos hw]
    constructor
    · rintro ⟨-, h⟩
      cases h
    · exact fun h => absurd hw h.1
  · rw [if_neg hw]
    exact (and_iff_right hw).symm

/-- A new thread in another slot than the current one. -/
theorem contextOf_install (k : Kernel) {slot : ThreadId} (thread : Thread)
    (hcur : slot ≠ k.currentThread) (w : ThreadId) :
    (k.install slot thread).contextOf w =
      if w = slot then some thread.context else k.contextOf w := by
  unfold install
  rw [(woken_enqueue _ slot).contextOf]
  show ((k.updateThread slot fun _ => thread).record _).contextOf w = _
  unfold contextOf
  by_cases hw : w = slot
  · rw [if_pos hw]
    show (if w = k.currentThread then k.resuming
      else some (put k.threads slot thread w).context) = _
    rw [hw, if_neg hcur, put_same]
  · rw [if_neg hw]
    show (if w = k.currentThread then k.resuming
      else some (put k.threads slot thread w).context) = _
    rw [put_other hw]

theorem joiners_install {slot : ThreadId} {thread : Thread}
    (hcur : slot ≠ k.currentThread) (hcontext : thread.context = .trampoline) :
    (k.install slot thread).joiners t = (k.joiners t).erase slot := by
  ext w
  rw [mem_joiners, contextOf_install k thread hcur, Finset.mem_erase,
    mem_joiners]
  by_cases hw : w = slot
  · rw [if_pos hw, hcontext]
    constructor
    · rintro ⟨-, h⟩
      cases h
    · exact fun h => absurd hw h.1
  · rw [if_neg hw]
    exact (and_iff_right hw).symm

end Joiners

/-! ## The invariant -/

/-- The counter of a thread covers its joiners, and a slot that can be reused
has none. -/
structure Counted (k : Kernel) : Prop where
  joiners_le : ∀ t, (k.joiners t).card ≤ (k.threads t).joinWaiterCount
  unreaped : ∀ t, t ≠ idleThread → (k.threads t).reapable = true →
    (k.threads t).joinWaiterCount = 0
  users : ∀ t, t ≠ idleThread →
    (k.threads t).state ≠ .exited ∨ t = k.currentThread →
      (k.threads t).isUser = true

/-- The invariant while the current thread is about to be saved at
`saved`. -/
structure Counting (k : Kernel) (saved : Context) : Prop where
  joiners_le : ∀ t, (k.joiners t).card + (if saved.joins = some t then 1 else 0) ≤
    (k.threads t).joinWaiterCount
  unreaped : ∀ t, t ≠ idleThread → (k.threads t).reapable = true →
    (k.threads t).joinWaiterCount = 0
  users : ∀ t, t ≠ idleThread →
    (k.threads t).state ≠ .exited → (k.threads t).isUser = true

section Step

variable {k k' : Kernel}

theorem Counted.congr (h : k.Counted)
    (hcontext : ∀ t, k'.contextOf t = k.contextOf t)
    (hcurrent : k'.currentThread = k.currentThread)
    (hcount : ∀ t, (k'.threads t).joinWaiterCount = (k.threads t).joinWaiterCount)
    (hreapable : ∀ t, (k'.threads t).reapable = (k.threads t).reapable)
    (hexited : ∀ t, (k.threads t).state = .exited →
      (k'.threads t).state = .exited)
    (huser : ∀ t, (k'.threads t).isUser = (k.threads t).isUser) :
    k'.Counted where
  joiners_le t := by
    rw [joiners_congr hcontext, hcount]
    exact h.joiners_le t
  unreaped t hidle hr := by
    rw [hcount]
    exact h.unreaped t hidle (by rw [← hreapable, hr])
  users t hidle ht := by
    rw [huser]
    refine h.users t hidle ?_
    rcases ht with ht | ht
    · exact .inl fun hx => ht (hexited t hx)
    · exact .inr (by rw [ht, hcurrent])

theorem Counted.quiet (h : k.Counted) (hq : Quiet k k') : k'.Counted :=
  h.congr hq.contextOf hq.currentThread hq.joinWaiterCount hq.reapable
    (fun t ht => by rw [hq.state, ht]) hq.isUser

theorem Counted.woken (h : k.Counted) (hw : Woken k k') : k'.Counted :=
  h.congr hw.contextOf hw.currentThread hw.joinWaiterCount hw.reapable
    (fun t ht => (hw.exited_iff t).mpr ht) hw.isUser

theorem Counting.woken {saved : Context} (h : k.Counting saved)
    (hw : Woken k k') : k'.Counting saved where
  joiners_le t := by
    rw [joiners_congr hw.contextOf, hw.joinWaiterCount]
    exact h.joiners_le t
  unreaped t hidle hr := by
    rw [hw.joinWaiterCount]
    exact h.unreaped t hidle (by rw [← hw.reapable, hr])
  users t hidle ht := by
    rw [hw.isUser]
    exact h.users t hidle fun hx => ht ((hw.exited_iff t).mpr hx)

/-- Outside of a switch to a join nothing is in the balance. -/
theorem Counted.toCounting (h : k.Counted) {saved : Context}
    (hjoins : saved.joins = none) : k.Counting saved where
  joiners_le t := by
    have hne : ¬ saved.joins = some t := by
      rw [hjoins]
      intro h
      cases h
    rw [if_neg hne]
    exact h.joiners_le t
  unreaped := h.unreaped
  users t hidle ht := h.users t hidle (.inl ht)

theorem Counting.dispatch {saved : Context} (h : k.Counting saved)
    (hd : Dispatched k saved k') (hlt : k.currentThread < maxThreads)
    (hr : k.resuming = none) : k'.Counted where
  joiners_le t := by
    rw [card_joiners_dispatch hd hlt hr, hd.joinWaiterCount]
    exact h.joiners_le t
  unreaped t hidle ht := by
    rw [hd.joinWaiterCount]
    exact h.unreaped t hidle (by rw [← hd.reapable, ht])
  users t hidle ht := by
    rw [hd.isUser]
    refine h.users t hidle ?_
    by_cases hcur : t = k'.currentThread
    · subst hcur
      exact hd.runnable.resolve_left hidle
    · rw [← hd.state_of_ne t hcur]
      exact ht.resolve_right hcur

/-- One thread changes, and its counter, its context and its kind do not. -/
theorem Counted.updateThread (h : k.Counted) (u : ThreadId)
    {f : Thread → Thread}
    (hcontext : (f (k.threads u)).context = (k.threads u).context)
    (hcount : (f (k.threads u)).joinWaiterCount =
      (k.threads u).joinWaiterCount)
    (hreapable : u ≠ idleThread → (f (k.threads u)).reapable = true →
      (k.threads u).joinWaiterCount = 0)
    (hexited : (k.threads u).state = .exited →
      (f (k.threads u)).state = .exited)
    (huser : (f (k.threads u)).isUser = (k.threads u).isUser) :
    (k.updateThread u f).Counted := by
  have hself : (k.updateThread u f).threads u = f (k.threads u) := put_same _ _ _
  have hother : ∀ t, t ≠ u → (k.updateThread u f).threads t = k.threads t :=
    fun t ht => put_other ht
  refine ⟨fun t => ?_, fun t hidle ht => ?_, fun t hidle ht => ?_⟩
  · rw [joiners_congr (k.contextOf_updateThread u hcontext)]
    by_cases htu : t = u
    · rw [htu, hself, hcount]
      exact h.joiners_le u
    · rw [hother t htu]
      exact h.joiners_le t
  · by_cases htu : t = u
    · rw [htu, hself] at ht ⊢
      rw [hcount]
      exact hreapable (htu ▸ hidle) ht
    · rw [hother t htu] at ht ⊢
      exact h.unreaped t hidle ht
  · by_cases htu : t = u
    · rw [htu, hself] at ht ⊢
      rw [huser]
      refine h.users u (htu ▸ hidle) (ht.imp_left ?_)
      exact fun hx hy => hx (hexited hy)
    · rw [hother t htu] at ht ⊢
      exact h.users t hidle ht

theorem Counted.markReapable (h : k.Counted) (t : ThreadId) :
    (k.markReapable t).Counted := by
  unfold Kernel.markReapable
  split
  · rename_i hzero
    exact h.updateThread t rfl rfl (fun _ _ => hzero) (fun hx => hx) rfl
  · exact h

theorem Counted.clear (h : k.Counted) :
    { k with resuming := none }.Counted where
  joiners_le t := by
    rw [joiners_clear]
    exact (Finset.card_le_card (Finset.erase_subset _ _)).trans (h.joiners_le t)
  unreaped := h.unreaped
  users := h.users

/-- The current thread leaves its join: the counter of the target goes down
with the number of its joiners. -/
theorem Counted.leaveJoin (h : k.Counted) {c : Context} {t : ThreadId}
    (hr : k.resuming = some c) (hjoins : c.joins = some t)
    (hlt : k.currentThread < maxThreads) : (k.leaveJoin t).Counted := by
  have hmem : k.currentThread ∈ k.joiners t := by
    refine mem_joiners_of_context hlt ?_ hjoins
    rw [contextOf, if_pos rfl, hr]
  have hcard := h.joiners_le t
  have hpos := Finset.card_pos.mpr ⟨_, hmem⟩
  have hcount : (k.threads t).joinWaiterCount ≠ 0 := by omega
  unfold Kernel.leaveJoin dropJoinWaiter
  rw [if_pos hcount]
  refine Counted.markReapable ?_ t
  have hclear := h.clear
  have hother : ∀ u, u ≠ t → ({ k with resuming := none }.updateThread t
      fun t => { t with joinWaiterCount := t.joinWaiterCount - 1 }).threads u =
        k.threads u := fun u hu => put_other hu
  have hself : ({ k with resuming := none }.updateThread t
      fun t => { t with joinWaiterCount := t.joinWaiterCount - 1 }).threads t =
        { k.threads t with
          joinWaiterCount := (k.threads t).joinWaiterCount - 1 } :=
    put_same _ _ _
  refine ⟨fun u => ?_, fun u hidle hu => ?_, fun u hidle hu => ?_⟩
  · have hctx := joiners_congr (t := u) ({ k with
      resuming := none }.contextOf_updateThread t (f := fun t =>
        { t with joinWaiterCount := t.joinWaiterCount - 1 }) rfl)
    rw [hctx, joiners_clear]
    by_cases hut : u = t
    · subst hut
      rw [hself, Finset.card_erase_of_mem hmem]
      show _ ≤ (k.threads u).joinWaiterCount - 1
      omega
    · rw [hother u hut]
      exact (Finset.card_le_card (Finset.erase_subset _ _)).trans
        (h.joiners_le u)
  · by_cases hut : u = t
    · rw [hut, hself] at hu ⊢
      exact absurd (h.unreaped t (hut ▸ hidle) hu) hcount
    · rw [hother u hut] at hu ⊢
      exact h.unreaped u hidle hu
  · by_cases hut : u = t
    · rw [hut, hself] at hu ⊢
      exact h.users t (hut ▸ hidle) hu
    · rw [hother u hut] at hu ⊢
      exact h.users u hidle hu

/-! ### Switching away -/

/-- The current thread changes its state on the way to a switch. -/
theorem Counting.setState {saved : Context} (h : k.Counting saved)
    (huser : k.currentThread ≠ idleThread →
      (k.threads k.currentThread).isUser = true) (state : ThreadState) :
    (k.setState k.currentThread state).Counting saved := by
  have hself : (k.setState k.currentThread state).threads k.currentThread =
    { k.threads k.currentThread with state } := put_same _ _ _
  have hother : ∀ t, t ≠ k.currentThread →
      (k.setState k.currentThread state).threads t = k.threads t :=
    fun t ht => put_other ht
  have hctx : ∀ t, (k.setState k.currentThread state).contextOf t =
      k.contextOf t := k.contextOf_updateThread _ rfl
  refine ⟨fun t => ?_, fun t hidle ht => ?_, fun t hidle ht => ?_⟩
  · rw [joiners_congr hctx]
    by_cases hcur : t = k.currentThread
    · rw [hcur, hself]
      exact h.joiners_le _
    · rw [hother t hcur]
      exact h.joiners_le t
  · by_cases hcur : t = k.currentThread
    · rw [hcur, hself] at ht ⊢
      exact h.unreaped _ (hcur ▸ hidle) ht
    · rw [hother t hcur] at ht ⊢
      exact h.unreaped t hidle ht
  · by_cases hcur : t = k.currentThread
    · rw [hcur, hself]
      exact huser (hcur ▸ hidle)
    · rw [hother t hcur] at ht ⊢
      exact h.users t hidle ht

theorem Counted.current_user (h : k.Counted) (hidle : k.currentThread ≠ idleThread) :
    (k.threads k.currentThread).isUser = true :=
  h.users _ hidle (.inr rfl)

theorem Counted.yieldNow (h : k.Counted) (hw : k.WellFormed)
    (hr : k.resuming = none) : k.yieldNow.Counted := by
  unfold Kernel.yieldNow
  dsimp only
  rw [if_neg hw.ne_noThread]
  have hcounting : k.Counting .yielded := h.toCounting rfl
  split
  · exact hcounting.dispatch (schedule_spec _ _).1 hw.current_lt hr
  · have hwoken := woken_enqueue (k.setState k.currentThread .ready)
      k.currentThread
    refine ((hcounting.setState h.current_user .ready).woken hwoken).dispatch
      (schedule_spec _ _).1 ?_ ?_
    · rw [hwoken.currentThread]
      exact hw.current_lt
    · rw [hwoken.resuming]
      exact hr

theorem Counted.registers (h : k.Counted) (hw : k.WellFormed) {a : Action}
    {c : Context} (hreg : k.Registers a c k') : k'.Counting c := by
  have hadd : ∀ t, (k.threads t).state ≠ .exited → ∀ c : Context,
      c.joins = some t → (k.addJoinWaiter t).Counting c := by
    intro t hlive c hjoins
    have hself : (k.addJoinWaiter t).threads t =
        { k.threads t with
          joinWaiters := put (k.threads t).joinWaiters
            (k.threads t).joinWaiterCount k.currentThread
          joinWaiterCount := (k.threads t).joinWaiterCount + 1 } :=
      put_same _ _ _
    have hother : ∀ u, u ≠ t → (k.addJoinWaiter t).threads u = k.threads u :=
      fun u hu => put_other hu
    have hctx : ∀ u, (k.addJoinWaiter t).contextOf u = k.contextOf u :=
      k.contextOf_updateThread t rfl
    refine ⟨fun u => ?_, fun u hidle hu => ?_, fun u hidle hu => ?_⟩
    · rw [joiners_congr hctx, hjoins]
      have hle := h.joiners_le u
      by_cases hut : u = t
      · subst hut
        rw [if_pos rfl, hself]
        show _ ≤ (k.threads u).joinWaiterCount + 1
        omega
      · have hne : ¬ some t = some u := fun heq => hut (Option.some.inj heq).symm
        rw [if_neg hne, hother u hut]
        exact hle
    · by_cases hut : u = t
      · rw [hut, hself] at hu
        exact absurd (hw.reapable t (hut ▸ hidle) hu) hlive
      · rw [hother u hut] at hu ⊢
        exact h.unreaped u hidle hu
    · by_cases hut : u = t
      · rw [hut, hself] at hu ⊢
        exact h.users t (hut ▸ hidle) (.inl hu)
      · rw [hother u hut] at hu ⊢
        exact h.users u hidle (.inl hu)
  cases hreg with
  | raw => exact h.toCounting rfl
  | sleep ms index due =>
    have hk : ({ k with
        sleepers := put k.sleepers index
          (some { thread := k.currentThread, deadline := due % 2 ^ 64 }) } :
        Kernel).Counted := { h with }
    exact hk.toCounting rfl
  | futex actual expected timeout index address due =>
    have hk : ({ k with
        futexWaiters := put k.futexWaiters index
          (some { address, thread := k.currentThread
                  deadline := due.map (· % 2 ^ 64) }) } : Kernel).Counted :=
      { h with }
    exact hk.toCounting rfl
  | join t _ _ hlive => exact hadd t hlive _ rfl
  | wait p t _ _ _ _ hlive => exact hadd t hlive _ rfl

theorem Counted.blocked (h : k.Counted) (hw : k.WellFormed)
    (hr : k.resuming = none) (hidle : k.currentThread ≠ idleThread) {a : Action}
    {c : Context} (hreg : k.Registers a c k') : (k'.blockCurrent c).Counted := by
  have hcounting := h.registers hw hreg
  have hstill : k'.currentThread = k.currentThread ∧ k'.resuming = k.resuming ∧
      (k'.threads k.currentThread).isUser =
        (k.threads k.currentThread).isUser := by
    cases hreg with
    | raw | sleep | futex => exact ⟨rfl, rfl, rfl⟩
    | join t _ hne | wait _ t _ _ _ hne =>
      refine ⟨rfl, rfl, ?_⟩
      show (put k.threads t _ k.currentThread).isUser = _
      rw [put_other hne.symm]
  obtain ⟨hcur, hres, huser⟩ := hstill
  unfold Kernel.blockCurrent
  dsimp only
  rw [hcur, if_neg (not_or.mpr ⟨hw.ne_noThread, hidle⟩)]
  have hset := hcounting.setState (fun _ => by
    rw [hcur, huser]
    exact h.current_user hidle) .blocked
  rw [hcur] at hset
  have hrec : ((k'.setState k.currentThread .blocked).record
      (.blocked k.currentThread c)).Counting c := { hset with }
  refine hrec.dispatch (schedule_spec _ _).1 ?_ ?_
  · show k'.currentThread < _
    rw [hcur]
    exact hw.current_lt
  · show k'.resuming = none
    rw [hres, hr]

/-- The kernel does not look at process records when it counts. -/
theorem Counting.reparent {saved : Context} (h : k.Counting saved) (t : ThreadId) :
    (k.reparentChildrenOfExitedProcess t).Counting saved ∧
      (k.reparentChildrenOfExitedProcess t).currentThread = k.currentThread ∧
      (k.reparentChildrenOfExitedProcess t).resuming = k.resuming := by
  unfold reparentChildrenOfExitedProcess
  split
  · exact ⟨h, rfl, rfl⟩
  · obtain ⟨log, heq, -⟩ := k.reparentChildren_spec _ t
    rw [heq]
    exact ⟨{ h with }, rfl, rfl⟩

theorem Counted.exitCurrent (h : k.Counted) (hw : k.WellFormed)
    (hr : k.resuming = none) (hidle : k.currentThread ≠ idleThread)
    (status : Nat) : (k.exitCurrent status).Counted := by
  unfold Kernel.exitCurrent
  dsimp only
  rw [if_neg (not_or.mpr ⟨hw.ne_noThread, hidle⟩)]
  have huser := h.current_user hidle
  have hended : ((k.updateThread k.currentThread fun t =>
      { t with
        state := .exited
        entry := none
        exitStatus := status
        reapable := !t.isUser }).record
      (.exited k.currentThread status)).Counted := by
    have hupdate := h.updateThread k.currentThread (f := fun t =>
      { t with
        state := .exited
        entry := none
        exitStatus := status
        reapable := !t.isUser }) rfl rfl (fun _ hx => by
          simp only [huser] at hx
          cases hx) (fun _ => rfl) rfl
    exact { hupdate with }
  have hwoken := woken_wakeJoinWaiters ((k.updateThread k.currentThread fun t =>
      { t with
        state := .exited
        entry := none
        exitStatus := status
        reapable := !t.isUser }).record
      (.exited k.currentThread status)) k.currentThread
  have hcounting : Counting _ .finished := (hended.woken hwoken).toCounting rfl
  obtain ⟨hreparent, hcur, hres⟩ := hcounting.reparent k.currentThread
  refine hreparent.dispatch (schedule_spec _ _).1 ?_ ?_
  · rw [hcur, hwoken.currentThread]
    exact hw.current_lt
  · rw [hres, hwoken.resuming]
    exact hr

theorem Counted.endThread (h : k.Counted) (hw : k.WellFormed) (p : ProcessId)
    {t : ThreadId} (hlive : (k.threads t).state ≠ .exited) :
    (k.endThread p t).Counted := by
  have hupdate := h.updateThread t (f := fun t =>
    { t with state := .exited, entry := none, exitStatus := terminatedStatus })
    rfl rfl (fun hidle hr => absurd (hw.reapable t hidle hr) hlive)
    (fun _ => rfl) rfl
  exact { hupdate with }

/-! ### New threads -/

theorem Counted.handed (h : k.Counted) (hw : k.WellFormed) {slot : ThreadId}
    {entry : Option Nat} {process : Option ProcessId}
    (hk' : k.Handed slot entry process true k') : k'.Counted := by
  obtain ⟨k₁, userContext, ownsUserStack, hq, hslot, rfl⟩ := hk'
  obtain ⟨hpos, hlt, -, hreap⟩ := reusableSlot_some hslot
  have hidle : slot ≠ idleThread := Nat.one_le_iff_ne_zero.mp hpos
  have hcur : slot ≠ k₁.currentThread := by
    rw [hq.currentThread]
    rintro rfl
    rw [hw.current_kept hidle] at hreap
    cases hreap
  have h₁ := h.quiet hq
  -- Nobody is inside a join of the slot, since it could be reused.
  have hnone : ((k₁.joiners slot).erase slot).card = 0 := by
    have hzero := h₁.unreaped slot hidle (by rw [hq.reapable, hreap])
    have hle := h₁.joiners_le slot
    have hsub := Finset.card_le_card (Finset.erase_subset slot (k₁.joiners slot))
    omega
  generalize hthread : newThread (k₁.threads slot) entry process userContext true
    ownsUserStack = thread
  have hcontext : thread.context = .trampoline := by rw [← hthread]; rfl
  have hwoken := woken_enqueue ((k₁.updateThread slot fun _ =>
    thread).record (.handed slot)) slot
  have hself : ((k₁.updateThread slot fun _ => thread).record
      (.handed slot)).threads slot = thread := put_same _ _ _
  have hother : ∀ u, u ≠ slot → ((k₁.updateThread slot fun _ => thread).record
      (.handed slot)).threads u = k₁.threads u := fun u hu => put_other hu
  refine ⟨fun u => ?_, fun u hu hr => ?_, fun u hu hx => ?_⟩
  · rw [joiners_install hcur hcontext]
    unfold install
    rw [hwoken.joinWaiterCount]
    by_cases hus : u = slot
    · subst hus
      rw [hnone]
      exact Nat.zero_le _
    · rw [hother u hus]
      exact (Finset.card_le_card (Finset.erase_subset _ _)).trans
        (h₁.joiners_le u)
  · unfold install at hr ⊢
    rw [hwoken.reapable] at hr
    rw [hwoken.joinWaiterCount]
    by_cases hus : u = slot
    · rw [hus, hself, ← hthread] at hr
      cases hr
    · rw [hother u hus] at hr ⊢
      exact h₁.unreaped u hu hr
  · unfold install at hx ⊢
    rw [hwoken.isUser]
    by_cases hus : u = slot
    · rw [hus, hself, ← hthread]
      rfl
    · rw [hother u hus]
      refine h₁.users u hu (hx.imp ?_ ?_)
      · intro hlive hexited
        apply hlive
        rw [hwoken.exited_iff, hother u hus]
        exact hexited
      · intro heq
        rw [heq, hwoken.currentThread]
        rfl

/-! ### Process records -/

theorem Counted.collect (h : k.Counted) (p : ProcessId) (t : ThreadId)
    (status : Nat) : (k.collect p t status).Counted := by
  unfold Kernel.collect
  dsimp only
  split <;> exact { h with }

theorem Counted.recorded (h : k.Counted) {p : ProcessId}
    (hrec : k.Recorded p k') : k'.Counted := by
  obtain ⟨k₁, k₂, space, h₁, h₂, h₃⟩ := hrec
  obtain ⟨slot, -, -, -, -, rfl⟩ := createProcess_some h₂
  have hrecord : ((k₁.setRecord slot
      { id := p, addressSpace := space, parent := k₁.currentProcess,
        mainThread := none }).record (.created p space)).Counted :=
    { h.quiet h₁ with }
  exact hrecord.quiet h₃

theorem Counted.setProcessMainThread (h : k.Counted) (p : ProcessId)
    (t : ThreadId) : (k.setProcessMainThread p t).Counted := by
  unfold Kernel.setProcessMainThread
  split <;> exact { h with }

/-! ### Runs -/

/-- Every syscall and every interrupt keeps the count. -/
theorem Counted.step (h : k.Counted) (hw : k.WellFormed) {a : Action}
    (hsyscall : a.isInternal = false) (hstep : k.step a = some k') :
    k'.Counted := by
  cases step_effect hw.idle.1 hstep with
  | quiet hq => exact h.quiet hq
  | woken hr hwakes hq => exact (h.woken hwakes.woken).quiet hq
  | resumed hr hlive hq => exact h.clear.quiet hq
  | joined hr hexited hq =>
    exact (h.leaveJoin hr rfl hw.current_lt).quiet hq
  | waited hr hexited hq =>
    exact ((h.leaveJoin hr rfl hw.current_lt).collect _ _ _).quiet hq
  | yielded hr => exact h.yieldNow hw hr
  | exited status hr hidle => exact h.exitCurrent hw hr hidle status
  | blocked hr hidle hreg => exact h.blocked hw hr hidle hreg
  | reaped hr hlt hne hexited hq => exact (h.markReapable _).quiet hq
  | collected hr hchild hlt hne hexited hq =>
    exact ((h.markReapable _).collect _ _ _).quiet hq
  | terminated hr hchild hlookup hlive hq =>
    exact ((h.endThread hw _ hlive).woken (woken_wakeJoinWaiters _ _)).quiet hq
  | handed hr hspawns hkind hprocess hhanded hq =>
    rw [hsyscall] at hkind
    subst hkind
    exact (h.handed hw hhanded).quiet hq
  | recorded hr huser hrec => exact h.recorded hrec
  | spawned hr huser hrec hhanded hq =>
    exact (((h.recorded hrec).handed (hw.recorded hrec)
      hhanded).setProcessMainThread _ _).quiet hq

end Step

theorem Booted.counted {k : Kernel} (h : k.Booted) : k.Counted := by
  obtain ⟨userContext, hfirst⟩ := h.first
  have hnone : ∀ t, k.joiners t = ∅ := by
    intro t
    rw [Finset.eq_empty_iff_forall_notMem]
    intro w hw
    rw [mem_joiners, h.contextOf] at hw
    cases hw.2
  refine ⟨fun t => ?_, fun t hidle _ => ?_, fun t hidle ht => ?_⟩
  · rw [hnone]
    exact Nat.zero_le _
  · rcases slot_cases t with rfl | rfl | hge
    · exact absurd rfl hidle
    · exact congrArg Thread.joinWaiterCount hfirst
    · exact h.other hge Thread.joinWaiterCount fun _ => rfl
  · rcases slot_cases t with rfl | rfl | hge
    · exact absurd rfl hidle
    · exact congrArg Thread.isUser hfirst
    · rcases ht with ht | ht
      · exact absurd (h.other hge Thread.state fun _ => rfl) ht
      · rw [ht, h.currentThread] at hge
        exact absurd hge (by decide)

/-- A guard that allows syscalls and interrupts only. -/
def Syscalls (_ : Kernel) (a : Action) : Prop := a.isInternal = false

instance (k : Kernel) (a : Action) : Decidable (k.Syscalls a) :=
  inferInstanceAs (Decidable (_ = _))

end Kernel

end OpenKernel
