import OpenKernel.Kernel.Events
import OpenKernel.Kernel.Joiners

/-!
# Main threads

A process record names its main thread by a slot.  `Identity` says that the
slot still belongs to that process; it holds as long as no spawn takes a slot
that a record names.
-/

namespace OpenKernel

open Lib

/-- `set_process_main_thread` has set `t` for `p`, and the slot has not been
handed out since. -/
def Main (p : ProcessId) (t : ThreadId) (log : List Event) : Prop :=
  Since (· = .mainThreadSet p t) (· = .handed t) log

namespace Event

/-- The event ends the main thread `t` of `p` with this status. -/
def EndsWith (p : ProcessId) (t : ThreadId) (status : Nat) (e : Event) : Prop :=
  e = .exited t status ∨ e = .terminated p t ∧ status = terminatedStatus

/-- What must have happened before an event that is about the main thread of
a process. -/
def Justified : Event → List Event → Prop
  | collected _ p t status, h =>
    Main p t h ∧ Since (EndsWith p t status) (· = .handed t) h
  | terminated p t, h => Main p t h
  | reparented _ p t, h => Main p t h
  | _, _ => True

end Event

section Log

variable {log log' : List Event} {p : ProcessId} {t : ThreadId}

theorem Main.cons (h : Main p t log) {e : Event} (he : e ≠ .handed t) :
    Main p t (e :: log) :=
  h.later he

theorem sound_minor (h : Sound Event.Justified log)
    (hlog : Extends Event.IsMinor log log') : Sound Event.Justified log' := by
  refine h.grow hlog fun e he _ _ => ?_
  cases e <;> first | exact he.elim | trivial

theorem since_minor {good : Event → Prop} (hlog : Extends Event.IsMinor log log')
    (h : Since good (· = .handed t) log) : Since good (· = .handed t) log' := by
  refine hlog.since (fun e he heq => ?_) h
  rw [heq] at he
  exact he

end Log

namespace Kernel

/-- The slot that a record names is that of the process's own main thread. -/
structure Identity (k : Kernel) : Prop where
  record : ∀ slot < maxProcesses, ∀ t, (k.processes slot).mainThread = some t →
    (k.threads t).process = some (k.processes slot).id ∧
      Main (k.processes slot).id t k.log
  waits : ∀ w < maxThreads, ∀ p t, k.contextOf w = some (.waiting p t) →
    (k.threads t).process = some p ∧ Main p t k.log
  ended : ∀ t p, (k.threads t).process = some p → (k.threads t).state = .exited →
    Since (Event.EndsWith p t (k.threads t).exitStatus) (· = .handed t) k.log
  sound : Sound Event.Justified k.log

section Step

variable {k k' : Kernel}

/-- Events other than a spawn, and states other than exited, do not matter. -/
theorem Identity.congr (h : k.Identity)
    (hprocess : ∀ t, (k'.threads t).process = (k.threads t).process)
    (hstate : ∀ t, (k'.threads t).state = .exited → (k.threads t).state = .exited)
    (hstatus : ∀ t, (k'.threads t).exitStatus = (k.threads t).exitStatus)
    (hrecords : ∀ slot < maxProcesses,
      (k'.processes slot).mainThread = none ∨
        (k'.processes slot).id = (k.processes slot).id ∧
          (k'.processes slot).mainThread = (k.processes slot).mainThread)
    (hcontext : ∀ w p t, k'.contextOf w = some (.waiting p t) →
      k.contextOf w = some (.waiting p t))
    (hlog : ∀ good t, Since good (· = .handed t) k.log →
      Since good (· = .handed t) k'.log)
    (hsound : Sound Event.Justified k'.log) : k'.Identity where
  record slot hslot t ht := by
    rcases hrecords slot hslot with hnone | ⟨hid, hmain⟩
    · rw [hnone] at ht
      cases ht
    · rw [hmain] at ht
      obtain ⟨hp, hm⟩ := h.record slot hslot t ht
      rw [hprocess, hid]
      exact ⟨hp, hlog _ t hm⟩
  waits w hw p t hc := by
    obtain ⟨hp, hm⟩ := h.waits w hw p t (hcontext w p t hc)
    rw [hprocess]
    exact ⟨hp, hlog _ t hm⟩
  ended t p hp hx := by
    rw [hprocess] at hp
    rw [hstatus]
    exact hlog _ t (h.ended t p hp (hstate t hx))
  sound := hsound

/-- The threads, their contexts and the records are the same. -/
theorem Identity.same (h : k.Identity) (hthreads : k'.threads = k.threads)
    (hcurrent : k'.currentThread = k.currentThread)
    (hresuming : k'.resuming = k.resuming)
    (hrecords : ∀ slot < maxProcesses,
      (k'.processes slot).mainThread = none ∨
        (k'.processes slot).id = (k.processes slot).id ∧
          (k'.processes slot).mainThread = (k.processes slot).mainThread)
    (hlog : ∀ good t, Since good (· = .handed t) k.log →
      Since good (· = .handed t) k'.log)
    (hsound : Sound Event.Justified k'.log) : k'.Identity := by
  refine h.congr (fun t => by rw [hthreads]) (fun t ht => by rwa [hthreads] at ht)
    (fun t => by rw [hthreads]) hrecords (fun w p t hc => ?_) hlog hsound
  unfold contextOf at hc ⊢
  rwa [hthreads, hcurrent, hresuming] at hc

theorem Identity.quiet (h : k.Identity) (hq : Quiet k k') : k'.Identity :=
  h.congr hq.process (fun t ht => by rwa [hq.state] at ht) hq.exitStatus
    (fun _ _ => .inr (by rw [hq.processes]; exact ⟨rfl, rfl⟩))
    (fun w p t hc => by rwa [hq.contextOf] at hc)
    (fun _ _ => since_minor hq.minor) (sound_minor h.sound hq.minor)

theorem Identity.woken (h : k.Identity) (hw : Woken k k') : k'.Identity :=
  h.congr hw.process (fun t ht => (hw.exited_iff t).mp ht) hw.exitStatus
    (fun _ _ => .inr (by rw [hw.processes]; exact ⟨rfl, rfl⟩))
    (fun w p t hc => by rwa [hw.contextOf] at hc)
    (fun _ _ => since_minor hw.minor) (sound_minor h.sound hw.minor)

/-- One thread changes, and not the fields that matter. -/
theorem Identity.updateThread (h : k.Identity) (u : ThreadId) {f : Thread → Thread}
    (hcontext : (f (k.threads u)).context = (k.threads u).context)
    (hprocess : (f (k.threads u)).process = (k.threads u).process)
    (hstate : (f (k.threads u)).state = .exited → (k.threads u).state = .exited)
    (hstatus : (f (k.threads u)).exitStatus = (k.threads u).exitStatus) :
    (k.updateThread u f).Identity := by
  have hself : (k.updateThread u f).threads u = f (k.threads u) := put_same _ _ _
  have hother : ∀ t, t ≠ u → (k.updateThread u f).threads t = k.threads t :=
    fun t ht => put_other ht
  refine h.congr (fun t => ?_) (fun t ht => ?_) (fun t => ?_)
    (fun _ _ => .inr ⟨rfl, rfl⟩) (fun w p t hc => ?_) (fun _ _ hs => hs) h.sound
  · by_cases htu : t = u
    · rw [htu, hself, hprocess]
    · rw [hother t htu]
  · by_cases htu : t = u
    · rw [htu, hself] at ht
      rw [htu]
      exact hstate ht
    · rwa [hother t htu] at ht
  · by_cases htu : t = u
    · rw [htu, hself, hstatus]
    · rw [hother t htu]
  · rwa [k.contextOf_updateThread u hcontext] at hc

theorem Identity.markReapable (h : k.Identity) (t : ThreadId) :
    (k.markReapable t).Identity := by
  unfold Kernel.markReapable
  split
  · exact h.updateThread t rfl rfl id rfl
  · exact h

theorem Identity.clear (h : k.Identity) : { k with resuming := none }.Identity := by
  refine h.congr (fun _ => rfl) (fun _ ht => ht) (fun _ => rfl)
    (fun _ _ => .inr ⟨rfl, rfl⟩) (fun w p t hc => ?_) (fun _ _ hs => hs) h.sound
  rw [contextOf_clear] at hc
  split at hc
  · cases hc
  · exact hc

theorem Identity.leaveJoin (h : k.Identity) (t : ThreadId) :
    (k.leaveJoin t).Identity := by
  unfold Kernel.leaveJoin dropJoinWaiter
  refine Identity.markReapable ?_ t
  split
  · exact h.clear.updateThread t rfl rfl id rfl
  · exact h.clear

/-! ## Switching away -/

/-- The invariant while the current thread is about to be saved at
`saved`. -/
def Identified (k : Kernel) (saved : Context) : Prop :=
  k.Identity ∧ ∀ p t, saved = .waiting p t →
    (k.threads t).process = some p ∧ Main p t k.log

theorem Identity.dispatch {saved : Context} (h : k.Identified saved)
    (hd : Dispatched k saved k') : k'.Identity := by
  obtain ⟨hid, hsaved⟩ := h
  have hlog := hd.log.mono Event.isMinor_of_queue
  have hstate : ∀ t, (k'.threads t).state = .exited →
      (k.threads t).state = .exited := by
    intro t ht
    rw [hd.state] at ht
    split at ht
    · cases ht
    · exact ht
  refine
    { record := fun slot hslot t ht => ?_
      waits := fun w hw p t hc => ?_
      ended := fun t p hp hx => ?_
      sound := sound_minor hid.sound hlog }
  · rw [hd.processes] at ht ⊢
    obtain ⟨hp, hm⟩ := hid.record slot hslot t ht
    rw [hd.process]
    exact ⟨hp, since_minor hlog hm⟩
  · rw [hd.contextOf] at hc
    rw [hd.process]
    split at hc
    · obtain ⟨hp, hm⟩ := hsaved p t (Option.some.inj hc)
      exact ⟨hp, since_minor hlog hm⟩
    · obtain ⟨hp, hm⟩ := hid.waits w hw p t hc
      exact ⟨hp, since_minor hlog hm⟩
  · rw [hd.process] at hp
    rw [hd.exitStatus]
    exact since_minor hlog (hid.ended t p hp (hstate t hx))

theorem Identity.leave (h : k.Identity) (saved : Context)
    (hsaved : ∀ p t, saved ≠ .waiting p t) : k.Identified saved :=
  ⟨h, fun p t heq => absurd heq (hsaved p t)⟩

theorem Identity.yieldNow (h : k.Identity) (hw : k.WellFormed) :
    k.yieldNow.Identity := by
  unfold Kernel.yieldNow
  dsimp only
  rw [if_neg hw.ne_noThread]
  split
  · exact Identity.dispatch (h.leave .yielded fun p t heq => nomatch heq)
      (schedule_spec _ _).1
  · have hready := h.updateThread k.currentThread
      (f := fun t => { t with state := .ready }) rfl rfl (fun hx => nomatch hx) rfl
    exact Identity.dispatch ((hready.woken (woken_enqueue _ _)).leave
      .yielded fun p t heq => nomatch heq) (schedule_spec _ _).1

theorem Identity.registers (h : k.Identity) {a : Action} {c : Context}
    (hreg : k.Registers a c k') : k'.Identified c := by
  cases hreg with
  | raw => exact h.leave _ fun p t heq => nomatch heq
  | sleep | futex =>
    refine Identity.leave ?_ _ fun p t heq => nomatch heq
    exact h.same rfl rfl rfl (fun _ _ => .inr ⟨rfl, rfl⟩) (fun _ _ hs => hs) h.sound
  | join t =>
    refine Identity.leave ?_ _ fun p t heq => nomatch heq
    exact h.updateThread t rfl rfl id rfl
  | wait p t slot hchild =>
    refine ⟨h.updateThread t rfl rfl id rfl, fun p' t' heq => ?_⟩
    obtain ⟨rfl, rfl⟩ := Context.waiting.inj heq
    obtain ⟨hp, hm⟩ := h.record slot hchild.slot_lt t hchild.main_eq
    rw [hchild.id_eq] at hp hm
    refine ⟨?_, hm⟩
    show (put k.threads t _ t).process = _
    rw [put_same]
    exact hp

theorem Identity.blocked (h : k.Identity) {a : Action} {c : Context}
    (hreg : k.Registers a c k') (hne : k.currentThread ≠ noThread ∧
      k.currentThread ≠ idleThread) : (k'.blockCurrent c).Identity := by
  obtain ⟨hid, hsaved⟩ := h.registers hreg
  have hcur : k'.currentThread = k.currentThread := by
    cases hreg <;> rfl
  unfold Kernel.blockCurrent
  dsimp only
  rw [hcur, if_neg (not_or.mpr hne)]
  have hset := hid.updateThread k.currentThread
    (f := fun t => { t with state := .blocked }) rfl rfl (fun hx => nomatch hx) rfl
  have hrecord : ((k'.setState k.currentThread .blocked).record
      (.blocked k.currentThread c)).Identity :=
    hset.same rfl rfl rfl (fun _ _ => .inr ⟨rfl, rfl⟩)
      (fun _ _ hs => hs.later fun heq => nomatch heq)
      (Sound.cons trivial hset.sound)
  refine Identity.dispatch ⟨hrecord, fun p t heq => ?_⟩ (schedule_spec _ _).1
  obtain ⟨hp, hm⟩ := hsaved p t heq
  refine ⟨?_, hm.cons fun heq => nomatch heq⟩
  rw [← hp]
  show (put k'.threads k.currentThread _ t).process = _
  by_cases ht : t = k.currentThread
  · rw [ht, put_same]
  · rw [put_other ht]

/-! ## Exit and termination -/

/-- A thread ends; if it is the main thread of its process, with this event
and this status. -/
theorem Identity.ends (h : k.Identity) {t : ThreadId} {f : Thread → Thread}
    {e : Event}
    (hcontext : (f (k.threads t)).context = (k.threads t).context)
    (hprocess : (f (k.threads t)).process = (k.threads t).process)
    (hne : ∀ u, e ≠ .handed u) (hjustified : e.Justified k.log)
    (hends : ∀ p, (k.threads t).process = some p →
      e.EndsWith p t (f (k.threads t)).exitStatus) :
    ((k.updateThread t f).record e).Identity := by
  have hself : ((k.updateThread t f).record e).threads t = f (k.threads t) :=
    put_same _ _ _
  have hother : ∀ u, u ≠ t →
      ((k.updateThread t f).record e).threads u = k.threads u :=
    fun u hu => put_other hu
  have hprocesses : ∀ u, (((k.updateThread t f).record e).threads u).process =
      (k.threads u).process := by
    intro u
    by_cases hut : u = t
    · rw [hut, hself, hprocess]
    · rw [hother u hut]
  refine
    { record := fun slot hslot u hu => ?_
      waits := fun w hw p u hc => ?_
      ended := fun u p hp hx => ?_
      sound := Sound.cons hjustified h.sound }
  · obtain ⟨hp, hm⟩ := h.record slot hslot u hu
    rw [hprocesses]
    exact ⟨hp, hm.cons (hne u)⟩
  · have hc' : (k.updateThread t f).contextOf w = some (.waiting p u) := hc
    rw [k.contextOf_updateThread t hcontext] at hc'
    obtain ⟨hp, hm⟩ := h.waits w hw p u hc'
    rw [hprocesses]
    exact ⟨hp, hm.cons (hne u)⟩
  · rw [hprocesses] at hp
    by_cases hut : u = t
    · subst hut
      rw [hself]
      exact Since.now (hends p hp)
    · rw [hother u hut] at hx ⊢
      exact Since.later (hne u) (h.ended u p hp hx)

/-- An exit reparents the children of the process whose main thread has
exited. -/
theorem Identity.reparent (h : k.Identity) (t : ThreadId) :
    (k.reparentChildrenOfExitedProcess t).Identity := by
  have hlog := k.minor_reparent t
  have hjustified : ∀ e, (∃ slot child,
      k.findRecord (·.mainThread == some t) = some slot ∧
        e = Event.reparented child (k.processes slot).id t) →
      ∃ p child, Main p t k.log ∧ e = .reparented child p t := by
    rintro e ⟨slot, child, hfind, rfl⟩
    obtain ⟨hlt, hmain⟩ := findRecord_some hfind
    exact ⟨_, child, (h.record slot hlt t (beq_iff_eq.mp hmain)).2, rfl⟩
  have hlog' := hlog.mono hjustified
  have hsince : ∀ good u log, Extends (fun e => ∃ p child, Main p t k.log ∧
      e = .reparented child p t) k.log log →
        Since good (· = .handed u) k.log → Since good (· = .handed u) log := by
    intro good u log hext hs
    refine hext.since (fun e he heq => ?_) hs
    obtain ⟨p, child, -, rfl⟩ := he
    cases heq
  have hsound : Sound Event.Justified (k.reparentChildrenOfExitedProcess t).log := by
    refine h.sound.grow hlog' fun e he log hext => ?_
    obtain ⟨p, child, hm, rfl⟩ := he
    exact hsince _ t log hext hm
  refine h.same ?_ ?_ ?_ ?_ (fun good u => hsince good u _ hlog') hsound
  all_goals
    unfold reparentChildrenOfExitedProcess
    split
  · rfl
  · obtain ⟨log, heq, -⟩ := k.reparentChildren_spec _ t
    rw [heq]
  · rfl
  · obtain ⟨log, heq, -⟩ := k.reparentChildren_spec _ t
    rw [heq]
  · rfl
  · obtain ⟨log, heq, -⟩ := k.reparentChildren_spec _ t
    rw [heq]
  · exact fun _ _ => .inr ⟨rfl, rfl⟩
  · obtain ⟨log, heq, -⟩ := k.reparentChildren_spec _ t
    rw [heq]
    intro slot hslot
    dsimp only
    rw [if_pos hslot, adopt_id, adopt_mainThread]
    exact .inr ⟨rfl, rfl⟩

theorem Identity.exitCurrent (h : k.Identity)
    (hne : k.currentThread ≠ noThread ∧ k.currentThread ≠ idleThread)
    (status : Nat) : (k.exitCurrent status).Identity := by
  unfold Kernel.exitCurrent
  dsimp only
  rw [if_neg (not_or.mpr hne)]
  have hended := h.ends (t := k.currentThread) (f := fun t =>
      { t with
        state := .exited
        entry := none
        exitStatus := status
        reapable := !t.isUser }) (e := .exited k.currentThread status) rfl rfl
    (fun u heq => nomatch heq) trivial fun p _ => .inl rfl
  refine Identity.dispatch (Identity.leave ?_ .finished fun p t heq => nomatch heq)
    (schedule_spec _ _).1
  exact (hended.woken (woken_wakeJoinWaiters _ k.currentThread)).reparent _

theorem Identity.endThread (h : k.Identity) {p : ProcessId} {t : ThreadId}
    {slot : Nat} (hchild : k.Child p t slot) : (k.endThread p t).Identity := by
  obtain ⟨hp, hm⟩ := h.record slot hchild.slot_lt t hchild.main_eq
  rw [hchild.id_eq] at hp hm
  refine h.ends (e := .terminated p t) rfl rfl (fun u heq => nomatch heq) hm
    fun p' hp' => .inr ⟨?_, rfl⟩
  rw [hp] at hp'
  rw [Option.some.inj hp']

/-! ## New threads and processes -/

theorem Identity.handed (h : k.Identity) (hw : k.WellFormed) (hcounted : k.Counted)
    {slot : ThreadId} {entry : Option Nat} {process : Option ProcessId}
    {isUser : Bool}
    (hfree : ∀ i < maxProcesses, (k.processes i).mainThread ≠ some slot)
    (hk' : k.Handed slot entry process isUser k') :
    k'.Identity ∧ (k'.threads slot).process = process := by
  obtain ⟨k₁, userContext, ownsUserStack, hq, hslot, rfl⟩ := hk'
  obtain ⟨hpos, hlt, hexited, hreap⟩ := reusableSlot_some hslot
  have hidle : slot ≠ idleThread := Nat.one_le_iff_ne_zero.mp hpos
  have hcur : slot ≠ k₁.currentThread := by
    rw [hq.currentThread]
    rintro rfl
    rw [hw.current_kept hidle] at hreap
    cases hreap
  have h₁ := h.quiet hq
  -- Nobody is inside a join of the slot, since it could be reused.
  have hnone : k₁.joiners slot = ∅ := by
    have hzero := hcounted.unreaped slot hidle hreap
    have hle := (hcounted.quiet hq).joiners_le slot
    rw [hq.joinWaiterCount, hzero] at hle
    exact Finset.card_eq_zero.mp (Nat.le_zero.mp hle)
  generalize hthread : newThread (k₁.threads slot) entry process userContext isUser
    ownsUserStack = thread
  have hcontext : thread.context = .trampoline := by rw [← hthread]; rfl
  have hstate : thread.state = .ready := by rw [← hthread]; rfl
  have hprocess : thread.process = process := by rw [← hthread]; rfl
  have hctx := k₁.contextOf_install thread hcur
  obtain ⟨hthreads, -, hprocesses, -, -, -⟩ := ((k₁.updateThread slot fun _ =>
    thread).record (.handed slot)).enqueue_fields slot
  have hself : (k₁.install slot thread).threads slot = thread := by
    unfold install
    rw [hthreads]
    exact put_same _ _ _
  have hother : ∀ u, u ≠ slot →
      (k₁.install slot thread).threads u = k₁.threads u := by
    intro u hu
    unfold install
    rw [hthreads]
    exact put_other hu
  have hlog := k₁.minor_install slot thread
  have hsince : ∀ good u, u ≠ slot → Since good (· = .handed u) k₁.log →
      Since good (· = .handed u) (k₁.install slot thread).log := by
    intro good u hu hs
    refine since_minor hlog (hs.later fun heq => hu ?_)
    exact (Event.handed.inj heq).symm
  refine ⟨⟨fun i hi t ht => ?_, fun w hw' p t hc => ?_, fun t p hp hx => ?_, ?_⟩, ?_⟩
  · have hsame : (k₁.install slot thread).processes i = k₁.processes i := by
      unfold install
      rw [hprocesses]
      rfl
    rw [hsame] at ht ⊢
    have hts : t ≠ slot := by
      rintro rfl
      rw [hq.processes] at ht
      exact hfree i hi ht
    obtain ⟨hp, hm⟩ := h₁.record i hi t ht
    rw [hother t hts]
    exact ⟨hp, hsince _ t hts hm⟩
  · rw [hctx] at hc
    split at hc
    · rw [hcontext] at hc
      cases hc
    · have hts : t ≠ slot := by
        rintro rfl
        have hmem := mem_joiners_of_context hw' hc rfl
        rw [hnone] at hmem
        exact absurd hmem (Finset.notMem_empty _)
      obtain ⟨hp, hm⟩ := h₁.waits w hw' p t hc
      rw [hother t hts]
      exact ⟨hp, hsince _ t hts hm⟩
  · have hts : t ≠ slot := by
      rintro rfl
      rw [hself, hstate] at hx
      cases hx
    rw [hother t hts] at hp hx ⊢
    exact hsince _ t hts (h₁.ended t p hp hx)
  · have hsound : Sound Event.Justified (.handed slot :: k₁.log) :=
      Sound.cons trivial h₁.sound
    exact sound_minor hsound hlog
  · rw [hself, hprocess]

theorem Identity.recorded (h : k.Identity) {p : ProcessId}
    (hrec : k.Recorded p k') : k'.Identity := by
  obtain ⟨k₁, k₂, space, h₁, h₂, h₃⟩ := hrec
  obtain ⟨slot, -, -, -, -, rfl⟩ := createProcess_some h₂
  have hk₁ := h.quiet h₁
  have hk₂ : ((k₁.setRecord slot
      { id := p, addressSpace := space, parent := k₁.currentProcess,
        mainThread := none }).record (.created p space)).Identity := by
    refine hk₁.same rfl rfl rfl (fun i _ => ?_)
      (fun _ _ hs => hs.later fun heq => nomatch heq) (Sound.cons trivial hk₁.sound)
    show (put k₁.processes slot _ i).mainThread = none ∨
      (put k₁.processes slot _ i).id = _ ∧ (put k₁.processes slot _ i).mainThread = _
    by_cases hi : i = slot
    · rw [hi, put_same]
      exact .inl rfl
    · rw [put_other hi]
      exact .inr ⟨rfl, rfl⟩
  exact hk₂.quiet h₃

/-- The new thread of a process becomes its main thread. -/
theorem Identity.setProcessMainThread (h : k.Identity) {p : ProcessId}
    {t : ThreadId} (hp : (k.threads t).process = some p) :
    (k.setProcessMainThread p t).Identity := by
  unfold Kernel.setProcessMainThread
  split
  · exact h
  · rename_i slot hfind
    obtain ⟨hlt, hid⟩ := findRecord_some hfind
    have hid' : (k.processes slot).id = p := beq_iff_eq.mp hid
    have hlater : ∀ good u, Since good (· = .handed u) k.log →
        Since good (· = .handed u) (.mainThreadSet p t :: k.log) :=
      fun good u hs => hs.later fun heq => nomatch heq
    refine ⟨fun i hi u hu => ?_, fun w hw q u hc => ?_, fun u q hq hx => ?_,
      Sound.cons trivial h.sound⟩
    · have hu' : (put k.processes slot { k.processes slot with
        mainThread := some t } i).mainThread = some u := hu
      show (k.threads u).process =
          some (put k.processes slot { k.processes slot with
            mainThread := some t } i).id ∧
        Main (put k.processes slot { k.processes slot with
          mainThread := some t } i).id u (.mainThreadSet p t :: k.log)
      by_cases his : i = slot
      · rw [his, put_same] at hu' ⊢
        obtain rfl := Option.some.inj hu'
        rw [hid']
        exact ⟨hp, Since.now rfl⟩
      · rw [put_other his] at hu' ⊢
        obtain ⟨hp', hm⟩ := h.record i hi u hu'
        exact ⟨hp', hlater _ u hm⟩
    · obtain ⟨hp', hm⟩ := h.waits w hw q u hc
      exact ⟨hp', hlater _ u hm⟩
    · exact hlater _ u (h.ended u q hq hx)

/-- The status of an exited main thread is collected. -/
theorem Identity.collect (h : k.Identity) {p : ProcessId} {t : ThreadId}
    {status : Nat} (hm : Main p t k.log)
    (hs : Since (Event.EndsWith p t status) (· = .handed t) k.log) :
    (k.collect p t status).Identity := by
  have hlater : ∀ good u, Since good (· = .handed u) k.log →
      Since good (· = .handed u)
        (.collected k.currentThread p t status :: k.log) :=
    fun good u hs => hs.later fun heq => nomatch heq
  have hsound : Sound Event.Justified (.collected k.currentThread p t status ::
      k.log) := Sound.cons ⟨hm, hs⟩ h.sound
  unfold Kernel.collect
  dsimp only
  split
  · exact h.same rfl rfl rfl (fun _ _ => .inr ⟨rfl, rfl⟩) hlater hsound
  · rename_i slot hfind
    refine h.same rfl rfl rfl (fun i _ => ?_)
      (fun good u hs => (hlater good u hs).later fun heq => nomatch heq)
      (Sound.cons trivial hsound)
    show (put k.processes slot _ i).mainThread = none ∨
      (put k.processes slot _ i).id = _ ∧ (put k.processes slot _ i).mainThread = _
    by_cases hi : i = slot
    · rw [hi, put_same]
      exact .inl rfl
    · rw [put_other hi]
      exact .inr ⟨rfl, rfl⟩

end Step

/-! ## Runs -/

/-- The action is a syscall or an interrupt, and no spawn takes a slot that
the record of a process names. -/
def SparesMainThreads (k : Kernel) (a : Action) : Prop :=
  a.isInternal = false ∧
    (a.spawns → ∀ slot ∈ k.reusableSlot, ∀ i < maxProcesses,
      (k.processes i).mainThread ≠ some slot)

instance (k : Kernel) (a : Action) : Decidable (k.SparesMainThreads a) :=
  inferInstanceAs (Decidable (_ ∧ (_ → _)))

theorem Identity.step {k k' : Kernel} (h : k.Identity) (hw : k.WellFormed)
    (hcounted : k.Counted) {a : Action} (hguard : k.SparesMainThreads a)
    (hstep : k.step a = some k') : k'.Identity := by
  obtain ⟨hsyscall, hspare⟩ := hguard
  cases step_effect hw.idle.1 hstep with
  | quiet hq => exact h.quiet hq
  | woken hr hwakes hq => exact (h.woken hwakes.woken).quiet hq
  | resumed hr hlive hq => exact h.clear.quiet hq
  | joined hr hexited hq => exact (h.leaveJoin _).quiet hq
  | @waited p t _ hr hexited hq =>
    have hcur : k.contextOf k.currentThread = some (.waiting p t) := by
      rw [contextOf, if_pos rfl, hr]
    obtain ⟨hp, hm⟩ := h.waits _ hw.current_lt p t hcur
    have hs := h.ended t p hp hexited
    have hlog := k.log_leaveJoin t
    rw [← hlog] at hm hs
    exact ((h.leaveJoin t).collect hm hs).quiet hq
  | yielded hr => exact h.yieldNow hw
  | exited status hr hidle => exact h.exitCurrent ⟨hw.ne_noThread, hidle⟩ status
  | blocked hr hidle hreg => exact h.blocked hreg ⟨hw.ne_noThread, hidle⟩
  | reaped hr hlt hne hexited hq => exact (h.markReapable _).quiet hq
  | @collected _ p t slot _ hr hchild hlt hne hexited hq =>
    obtain ⟨hp, hm⟩ := h.record slot hchild.slot_lt t hchild.main_eq
    rw [hchild.id_eq] at hp hm
    have hs := h.ended t p hp hexited
    have hlog := k.log_markReapable t
    rw [← hlog] at hm hs
    exact ((h.markReapable t).collect hm hs).quiet hq
  | terminated hr hchild hlookup hlive hq =>
    exact ((h.endThread hchild).woken (woken_wakeJoinWaiters _ _)).quiet hq
  | handed hr hspawns hkind hprocess hhanded hq =>
    exact (h.handed hw hcounted
      (hspare hspawns _ hhanded.reusableSlot) hhanded).1.quiet hq
  | recorded hr huser hrec => exact h.recorded hrec
  | @spawned _ _ _ p slot k₁ k₂ _ hr huser hrec hhanded hq =>
    have hfree : ∀ i < maxProcesses, (k₁.processes i).mainThread ≠ some slot := by
      obtain ⟨i₀, -, -, -, -, space, hprocesses⟩ := hrec.slot
      intro i hi
      rw [hprocesses]
      by_cases h0 : i = i₀
      · rw [h0, put_same]
        intro heq
        cases heq
      · rw [put_other h0]
        refine hspare rfl slot ?_ i hi
        rw [← hrec.reusableSlot, hhanded.reusableSlot]
        rfl
    obtain ⟨hid, hp⟩ := (h.recorded hrec).handed (hw.recorded hrec)
      (hcounted.recorded hrec) hfree hhanded
    exact (hid.setProcessMainThread hp).quiet hq

theorem Booted.identity {k : Kernel} (h : k.Booted) : k.Identity := by
  obtain ⟨userContext, hfirst⟩ := h.first
  obtain ⟨space, before, between, hprocesses, -, -, -⟩ := h.records
  obtain ⟨space', hlog⟩ := h.log
  refine ⟨fun slot hslot t ht => ?_, fun w hw p t hc => ?_, fun t p hp hx => ?_, ?_⟩
  · rw [hprocesses] at ht
    by_cases h0 : slot = 0
    · rw [h0, put_same] at ht
      cases ht
    · rw [put_other h0] at ht
      cases ht
  · rw [h.contextOf] at hc
    cases hc
  · rcases slot_cases t with rfl | rfl | hge
    · rw [h.idle_field Thread.process fun _ => rfl] at hp
      cases hp
    · rw [show (k.threads 1).state = .running from congrArg Thread.state hfirst] at hx
      cases hx
    · rw [h.other hge Thread.process fun _ => rfl] at hp
      cases hp
  · have hall : ∀ log : List Event, (∀ e ∈ log, e.IsMinor ∨ e = .handed 1 ∨
        e = .created userProcessId space') → Sound Event.Justified log := by
      intro log
      induction log with
      | nil => exact fun _ => trivial
      | cons e log ih =>
        intro he
        refine Sound.cons ?_ (ih fun e' he' => he e' (by simp [he']))
        rcases he e (by simp) with hminor | rfl | rfl
        · cases e <;> first | exact hminor.elim | trivial
        · trivial
        · trivial
    exact hall k.log hlog

/-- Main threads are the processes' own, and what the log says of them is
true. -/
structure MainThreadIdentity (k : Kernel) : Prop where
  record : ∀ slot < maxProcesses, ∀ t, (k.processes slot).mainThread = some t →
    (k.threads t).process = some (k.processes slot).id ∧
      Main (k.processes slot).id t k.log
  collected : ∀ later earlier caller p t status,
    k.log = later ++ .collected caller p t status :: earlier →
      Main p t earlier ∧
        Since (Event.EndsWith p t status) (· = .handed t) earlier
  terminated : ∀ later earlier p t, k.log = later ++ .terminated p t :: earlier →
    Main p t earlier
  reparented : ∀ later earlier child p t,
    k.log = later ++ .reparented child p t :: earlier → Main p t earlier

theorem Identity.mainThreads {k : Kernel} (h : k.Identity) :
    k.MainThreadIdentity := by
  have hat : ∀ later earlier e, k.log = later ++ e :: earlier →
      e.Justified earlier := by
    intro later earlier e heq
    have hs := h.sound
    rw [heq] at hs
    exact hs.at
  exact
    { record := h.record
      collected := fun later earlier _ _ _ _ heq => hat later earlier _ heq
      terminated := fun later earlier _ _ heq => hat later earlier _ heq
      reparented := fun later earlier _ _ _ heq => hat later earlier _ heq }

/-- Main threads keep their identity in every run that spares them. -/
theorem mainThreadIdentity {memory : Memory} {k : Kernel}
    (h : ReachedFrom memory SparesMainThreads k) : k.MainThreadIdentity := by
  obtain ⟨-, -, hid⟩ := h.invariant (fun k => k.Counted ∧ k.Identity)
    (fun _ hk => ⟨hk.counted, hk.identity⟩)
    fun _ _ _ hw hk hguard hstep =>
      ⟨hk.1.step hw hguard.1 hstep, hk.2.step hw hk.1 hguard hstep⟩
  exact hid.mainThreads

set_option maxRecDepth 100000 in
/-- A run in which a child exits and its parent takes its status. -/
theorem mainThreadIdentity_wait : ∃ k : Kernel, k.MainThreadIdentity ∧
    Event.collected 1 2 2 7 ∈ k.log := by
  have hrun : ((boot plainMemory smallImage).bind (exec step SparesMainThreads
      [.resume, .spawnSmall, .waitProcess 2, .resume, .yieldNow, .resume,
        .exit 7, .resume])).any
      fun k => decide (Event.collected 1 2 2 7 ∈ k.log) := by
    decide +kernel
  obtain ⟨k, hk, hcollected⟩ := ReachedFrom.of_exec hrun
  exact ⟨k, mainThreadIdentity hk, of_decide_eq_true hcollected⟩

set_option maxRecDepth 100000 in
/-- A join by another process makes the slot of an exited main thread
reusable before its parent has collected it. -/
theorem stolen_main_thread : ∃ k, ReachedFrom plainMemory Always k ∧
    ¬ k.MainThreadIdentity := by
  have hrun : ((boot plainMemory smallImage).bind (exec step Always
      [.resume, .spawnSmall, .spawnSmall, .yieldNow, .resume, .yieldNow, .resume,
        .exit 5, .resume, .join 2, .spawnSmall])).any
      fun k => (k.processes 1).mainThread == some 2 && (k.processes 1).id == 2 &&
        (k.threads 2).process == some 4 := by
    decide +kernel
  obtain ⟨k, hk, hfound⟩ := ReachedFrom.of_exec hrun
  simp only [Bool.and_eq_true, beq_iff_eq] at hfound
  obtain ⟨⟨hmain, hid⟩, hprocess⟩ := hfound
  refine ⟨k, hk, fun h => ?_⟩
  have := (h.record 1 (by decide) 2 hmain).1
  rw [hprocess, hid] at this
  cases this

end Kernel

end OpenKernel
