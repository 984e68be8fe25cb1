import Mathlib.Logic.Relation
import OpenKernel.Kernel.Boot

/-!
# Families of processes

Every process but PID 1 has a parent that runs, and the parents lead to
PID 1.  `Family` is the invariant behind this.  An exit keeps it, because it
hands the children to PID 1; `terminate_process` does not do so.
-/

namespace OpenKernel

open Lib

namespace Kernel

/-- The thread of PID 1 that the boot spawns.  The record of PID 1 does not
name it. -/
def initThread : ThreadId := 1

/-- `p` names a record with the parent `q`. -/
def IsChild (k : Kernel) (p q : ProcessId) : Prop :=
  ∃ slot < maxProcesses, (k.processes slot).id = p ∧
    (k.processes slot).parent = some q

/-- `t` is the main thread of the process in a slot. -/
def IsMain (k : Kernel) (slot : Nat) (t : ThreadId) : Prop :=
  if slot = 0 then t = initThread else (k.processes slot).mainThread = some t

/-- `p` names a record whose main thread is one of its own and has not
exited. -/
def Alive (k : Kernel) (p : ProcessId) : Prop :=
  ∃ slot < maxProcesses, (k.processes slot).id = p ∧
    ∃ t, k.IsMain slot t ∧ (k.threads t).process = some p ∧
      (k.threads t).state ≠ .exited

/-- The process of `t` is PID 1 or has no children. -/
def Leaf (k : Kernel) (t : ThreadId) : Prop :=
  (k.threads t).process = some userProcessId ∨
    ∀ slot < maxProcesses, ∀ p ∈ (k.processes slot).parent,
      (k.threads t).process ≠ some p

/-- The invariant of the process table and the threads. -/
structure Family (k : Kernel) : Prop where
  init : (k.threads initThread).state ≠ .exited ∧
    (k.threads initThread).process = some userProcessId
  spared : ∀ slot < maxProcesses, (k.processes slot).mainThread ≠ some initThread
  owner : ∀ t p, (k.threads t).state ≠ .exited → (k.threads t).process = some p →
    p = userProcessId ∨ ∃ slot, 1 ≤ slot ∧ slot < maxProcesses ∧
      (k.processes slot).id = p ∧ (k.processes slot).mainThread = some t
  parent : ∀ slot, 1 ≤ slot → slot < maxProcesses →
    (k.processes slot).id ≠ noThread → ∃ p, (k.processes slot).parent = some p ∧
      k.Alive p
  rooted : ∀ slot, slot < maxProcesses → (k.processes slot).id ≠ noThread →
    Relation.ReflTransGen k.IsChild (k.processes slot).id userProcessId

section Step

variable {k k' : Kernel}

/-- The same threads have ended, and the records are the same. -/
structure SameEnds (k k' : Kernel) : Prop where
  exited_iff : ∀ t, (k'.threads t).state = .exited ↔ (k.threads t).state = .exited
  process : ∀ t, (k'.threads t).process = (k.threads t).process
  processes : k'.processes = k.processes

theorem SameEnds.trans {k'' : Kernel} (h : SameEnds k k') (h' : SameEnds k' k'') :
    SameEnds k k'' where
  exited_iff t := (h'.exited_iff t).trans (h.exited_iff t)
  process t := (h'.process t).trans (h.process t)
  processes := h'.processes.trans h.processes

theorem sameEnds_quiet (hq : Quiet k k') : SameEnds k k' :=
  ⟨fun t => by rw [hq.state], hq.process, hq.processes⟩

theorem sameEnds_woken (hw : Woken k k') : SameEnds k k' :=
  ⟨hw.exited_iff, hw.process, hw.processes⟩

/-- A change of one thread that does not end it or bring it back. -/
theorem sameEnds_updateThread (k : Kernel) (u : ThreadId) {f : Thread → Thread}
    (hstate : (f (k.threads u)).state = .exited ↔ (k.threads u).state = .exited)
    (hprocess : (f (k.threads u)).process = (k.threads u).process) :
    SameEnds k (k.updateThread u f) := by
  refine ⟨fun t => ?_, fun t => ?_, rfl⟩
  · show (put k.threads u _ t).state = _ ↔ _
    by_cases ht : t = u
    · rw [ht, put_same]
      exact hstate
    · rw [put_other ht]
  · show (put k.threads u _ t).process = _
    by_cases ht : t = u
    · rw [ht, put_same]
      exact hprocess
    · rw [put_other ht]

theorem sameEnds_markReapable (k : Kernel) (t : ThreadId) :
    SameEnds k (k.markReapable t) := by
  unfold Kernel.markReapable
  split
  · exact k.sameEnds_updateThread t Iff.rfl rfl
  · exact ⟨fun _ => Iff.rfl, fun _ => rfl, rfl⟩

theorem sameEnds_leaveJoin (k : Kernel) (t : ThreadId) :
    SameEnds k (k.leaveJoin t) := by
  have hclear : SameEnds k { k with resuming := none } :=
    ⟨fun _ => Iff.rfl, fun _ => rfl, rfl⟩
  unfold Kernel.leaveJoin dropJoinWaiter
  split
  · exact (hclear.trans (sameEnds_updateThread _ t Iff.rfl rfl)).trans
      (sameEnds_markReapable _ t)
  · exact hclear.trans (sameEnds_markReapable _ t)

theorem Alive.congr {p : ProcessId} (h : k.Alive p)
    (hrecord : ∀ slot < maxProcesses, (k'.processes slot).id = (k.processes slot).id ∧
      (k'.processes slot).mainThread = (k.processes slot).mainThread)
    (hthread : ∀ t, (k.threads t).process = some p → (k.threads t).state ≠ .exited →
      (k'.threads t).process = some p ∧ (k'.threads t).state ≠ .exited) :
    k'.Alive p := by
  obtain ⟨slot, hslot, hid, t, hmain, hprocess, hlive⟩ := h
  obtain ⟨hid', hmain'⟩ := hrecord slot hslot
  refine ⟨slot, hslot, hid'.trans hid, t, ?_, hthread t hprocess hlive⟩
  unfold IsMain at hmain ⊢
  rwa [hmain']

/-- Only the ends of threads matter, not the other states. -/
theorem Family.same (h : k.Family) (hs : SameEnds k k') : k'.Family where
  init := by
    rw [ne_eq, hs.exited_iff, hs.process]
    exact h.init
  spared := by
    rw [hs.processes]
    exact h.spared
  owner t p ht hp := by
    rw [ne_eq, hs.exited_iff] at ht
    rw [hs.process] at hp
    rw [hs.processes]
    exact h.owner t p ht hp
  parent slot hpos hlt hid := by
    rw [hs.processes] at hid ⊢
    obtain ⟨p, hp, halive⟩ := h.parent slot hpos hlt hid
    refine ⟨p, hp, halive.congr (fun _ _ => by rw [hs.processes]; exact ⟨rfl, rfl⟩)
      fun t ht hlive => ?_⟩
    rw [hs.process, ne_eq, hs.exited_iff]
    exact ⟨ht, hlive⟩
  rooted slot hlt hid := by
    have hchild : k'.IsChild = k.IsChild := by
      unfold IsChild
      rw [hs.processes]
    rw [hs.processes] at hid ⊢
    rw [hchild]
    exact h.rooted slot hlt hid

theorem Family.quiet (h : k.Family) (hq : Quiet k k') : k'.Family :=
  h.same (sameEnds_quiet hq)

theorem Family.woken (h : k.Family) (hw : Woken k k') : k'.Family :=
  h.same (sameEnds_woken hw)

/-- The processor goes to a thread that has not ended. -/
theorem Family.dispatch (h : k.Family) {saved : Context}
    (hidle : (k.threads idleThread).state ≠ .exited) (hd : Dispatched k saved k') :
    k'.Family := by
  have hnext : (k.threads k'.currentThread).state ≠ .exited := by
    rcases hd.runnable with heq | hne
    · rw [heq]
      exact hidle
    · exact hne
  refine h.same ⟨fun t => ?_, hd.process, hd.processes⟩
  rw [hd.state]
  split
  · rename_i ht
    rw [ht]
    exact ⟨(fun heq => nomatch heq), fun heq => absurd heq hnext⟩
  · exact Iff.rfl

theorem Family.yieldNow (h : k.Family) (hw : k.WellFormed)
    (hcurrent : (k.threads k.currentThread).state ≠ .exited) :
    k.yieldNow.Family := by
  unfold Kernel.yieldNow
  dsimp only
  rw [if_neg hw.ne_noThread]
  split
  · exact h.dispatch hw.idle.2.1 (schedule_spec _ _).1
  · rename_i hidle
    have hready : (k.setState k.currentThread .ready).Family :=
      h.same (k.sameEnds_updateThread k.currentThread
        (f := fun t => { t with state := .ready })
        ⟨(fun heq => nomatch heq), fun heq => absurd heq hcurrent⟩ rfl)
    have hwoken := woken_enqueue (k.setState k.currentThread .ready) k.currentThread
    refine (hready.woken hwoken).dispatch ?_ (schedule_spec _ _).1
    rw [ne_eq, hwoken.exited_iff]
    show (put k.threads k.currentThread _ idleThread).state ≠ _
    rw [put_other (Ne.symm hidle)]
    exact hw.idle.2.1

theorem Family.blocked (h : k.Family) (hw : k.WellFormed)
    (hcurrent : (k.threads k.currentThread).state ≠ .exited) {a : Action}
    {c : Context} (hreg : k.Registers a c k') (hidle : k.currentThread ≠ idleThread) :
    (k'.blockCurrent c).Family := by
  have h' : k'.Family ∧ k'.currentThread = k.currentThread ∧
      ∀ t, (k'.threads t).state = (k.threads t).state := by
    cases hreg with
    | raw | sleep | futex =>
      exact ⟨h.same ⟨fun _ => Iff.rfl, fun _ => rfl, rfl⟩, rfl, fun _ => rfl⟩
    | join t | wait _ t =>
      refine ⟨h.same (k.sameEnds_updateThread t Iff.rfl rfl), rfl, fun u => ?_⟩
      show (put k.threads t _ u).state = _
      by_cases hu : u = t
      · rw [hu, put_same]
      · rw [put_other hu]
  obtain ⟨h', hcur, hstate⟩ := h'
  unfold Kernel.blockCurrent
  dsimp only
  rw [hcur, if_neg (not_or.mpr ⟨hw.ne_noThread, hidle⟩)]
  have hblocked : (k'.setState k.currentThread .blocked).Family := by
    refine h'.same (k'.sameEnds_updateThread k.currentThread
      (f := fun t => { t with state := .blocked })
      ⟨(fun heq => nomatch heq), fun heq => ?_⟩ rfl)
    rw [hstate] at heq
    exact absurd heq hcurrent
  have hrecord : ((k'.setState k.currentThread .blocked).record
      (.blocked k.currentThread c)).Family :=
    hblocked.same ⟨fun _ => Iff.rfl, fun _ => rfl, rfl⟩
  refine hrecord.dispatch ?_ (schedule_spec _ _).1
  show (put k'.threads k.currentThread _ idleThread).state ≠ _
  rw [put_other (Ne.symm hidle), hstate]
  exact hw.idle.2.1

/-! ## Ends of threads -/

/-- PID 1 is alive. -/
theorem Family.aliveInit (h : k.Family) (hw : k.Records) : k.Alive userProcessId :=
  ⟨0, by decide, hw.first.1, initThread, rfl, h.init.2, h.init.1⟩

/-- Children that PID 1 takes over still lead to it. -/
theorem rooted_of_parents {p : ProcessId}
    (hids : ∀ slot < maxProcesses,
      (k'.processes slot).id = (k.processes slot).id)
    (hparents : ∀ slot < maxProcesses, ∀ p, (k.processes slot).parent = some p →
      (k'.processes slot).parent = some userProcessId ∨
        (k'.processes slot).parent = some p)
    (h : Relation.ReflTransGen k.IsChild p userProcessId) :
    Relation.ReflTransGen k'.IsChild p userProcessId := by
  induction h using Relation.ReflTransGen.head_induction_on with
  | refl => exact .refl
  | head hchild _ ih =>
    obtain ⟨slot, hslot, hid, hparent⟩ := hchild
    have hid' := (hids slot hslot).trans hid
    rcases hparents slot hslot _ hparent with hinit | hsame
    · exact .single ⟨slot, hslot, hid', hinit⟩
    · exact .head ⟨slot, hslot, hid', hsame⟩ ih

/-- A thread ends.  The children of its process go to PID 1, or there are
none. -/
theorem Family.ends (h : k.Family) (hw : k.Records) {t : ThreadId} (hinit : t ≠ initThread)
    (hstate : ∀ u, (k'.threads u).state = .exited ↔
      u = t ∨ (k.threads u).state = .exited)
    (hprocess : ∀ u, (k'.threads u).process = (k.threads u).process)
    (hrecords : ∀ slot < maxProcesses,
      (k'.processes slot).id = (k.processes slot).id ∧
        (k'.processes slot).mainThread = (k.processes slot).mainThread)
    (hparents : ∀ slot < maxProcesses, ∀ p, (k.processes slot).parent = some p →
      (k'.processes slot).parent = some userProcessId ∨
        (k'.processes slot).parent = some p ∧
          (p = userProcessId ∨ (k.threads t).process ≠ some p)) :
    k'.Family where
  init := by
    rw [ne_eq, hstate, hprocess]
    exact ⟨fun hx => hx.elim (fun heq => hinit heq.symm) h.init.1, h.init.2⟩
  spared slot hslot := by
    rw [(hrecords slot hslot).2]
    exact h.spared slot hslot
  owner u p hu hp := by
    rw [ne_eq, hstate] at hu
    rw [hprocess] at hp
    rcases h.owner u p (fun hx => hu (.inr hx)) hp with
      rfl | ⟨slot, hpos, hslot, hid, hmain⟩
    · exact .inl rfl
    · refine .inr ⟨slot, hpos, hslot, ?_, ?_⟩
      · rw [(hrecords slot hslot).1, hid]
      · rw [(hrecords slot hslot).2, hmain]
  parent slot hpos hslot hid := by
    rw [(hrecords slot hslot).1] at hid
    have hkeep : ∀ p, (∀ u, (k.threads u).process = some p →
        (k.threads u).state ≠ .exited → u ≠ t) → k.Alive p → k'.Alive p := by
      intro p hne halive
      refine halive.congr hrecords fun u hu hlive => ?_
      rw [hprocess, ne_eq, hstate]
      exact ⟨hu, not_or.mpr ⟨hne u hu hlive, hlive⟩⟩
    have hinit' : k'.Alive userProcessId := by
      refine ⟨0, by decide, ?_, initThread, rfl, ?_, ?_⟩
      · rw [(hrecords 0 (by decide)).1, hw.first.1]
      · rw [hprocess, h.init.2]
      · rw [ne_eq, hstate]
        exact fun hx => hx.elim (fun heq => hinit heq.symm) h.init.1
    obtain ⟨p, hp, halive⟩ := h.parent slot hpos hslot hid
    rcases hparents slot hslot p hp with hp' | ⟨hp', rfl | hne⟩
    · exact ⟨_, hp', hinit'⟩
    · exact ⟨_, hp', hinit'⟩
    · refine ⟨p, hp', hkeep p (fun u hu _ heq => hne ?_) halive⟩
      rw [← heq, hu]
  rooted slot hslot hid := by
    rw [(hrecords slot hslot).1] at hid ⊢
    exact rooted_of_parents (fun slot hslot => (hrecords slot hslot).1)
      (fun slot hslot p hp => (hparents slot hslot p hp).imp_right And.left)
      (h.rooted slot hslot hid)

/-- A thread that ends and whose process has no children. -/
theorem Family.leafEnds (h : k.Family) (hw : k.Records) {t : ThreadId}
    (hinit : t ≠ initThread) (hleaf : k.Leaf t)
    (hstate : ∀ u, (k'.threads u).state = .exited ↔
      u = t ∨ (k.threads u).state = .exited)
    (hprocess : ∀ u, (k'.threads u).process = (k.threads u).process)
    (hrecords : k'.processes = k.processes) : k'.Family := by
  refine h.ends hw hinit hstate hprocess
    (fun slot _ => by rw [hrecords]; exact ⟨rfl, rfl⟩) fun slot hslot p hp => .inr ?_
  rw [hrecords]
  refine ⟨hp, ?_⟩
  rcases hleaf with huser | hnone
  · by_cases hone : p = userProcessId
    · exact .inl hone
    · rw [huser]
      exact .inr fun heq => hone (Option.some.inj heq).symm
  · exact .inr (hnone slot hslot p hp)

/-- An exit hands the children of the process that it finds to PID 1. -/
theorem Family.exitCurrent (h : k.Family) (hw : k.WellFormed)
    (hcurrent : (k.threads k.currentThread).state ≠ .exited)
    (hinit : k.currentThread ≠ initThread) (hidle : k.currentThread ≠ idleThread)
    (hown : k.Leaf k.currentThread ∨
      ∀ slot ∈ k.findRecord (·.mainThread == some k.currentThread),
        (k.threads k.currentThread).process = some (k.processes slot).id)
    (status : Nat) : (k.exitCurrent status).Family := by
  unfold Kernel.exitCurrent
  dsimp only
  rw [if_neg (not_or.mpr ⟨hw.ne_noThread, hidle⟩)]
  generalize hk₁ : (k.updateThread k.currentThread fun t =>
      { t with
        state := .exited
        entry := none
        exitStatus := status
        reapable := !t.isUser }).record (.exited k.currentThread status) = k₁
  have hended : ∀ u, (k₁.threads u).process = (k.threads u).process ∧
      ((k₁.threads u).state = .exited ↔
        u = k.currentThread ∨ (k.threads u).state = .exited) := by
    intro u
    rw [← hk₁]
    show (put k.threads k.currentThread _ u).process = _ ∧
      ((put k.threads k.currentThread _ u).state = _ ↔ _)
    by_cases hu : u = k.currentThread
    · rw [hu, put_same]
      exact ⟨rfl, ⟨fun _ => .inl rfl, fun _ => rfl⟩⟩
    · rw [put_other hu]
      exact ⟨rfl, (or_iff_right hu).symm⟩
  have hrecords₁ : k₁.processes = k.processes := by rw [← hk₁]; rfl
  have hwoken := k₁.woken_wakeJoinWaiters k.currentThread
  generalize k₁.wakeJoinWaiters k.currentThread = k₂ at hwoken
  have hrecords₂ : k₂.processes = k.processes := hwoken.processes.trans hrecords₁
  -- Only the process of the thread has the thread as its main thread.
  have hfound : ∀ slot < maxProcesses, ∀ p, (k.processes slot).parent = some p →
      p = userProcessId ∨ (k.threads k.currentThread).process ≠ some p ∨
        ∃ s, k.findRecord (·.mainThread == some k.currentThread) = some s ∧
          (k.processes s).id = p := by
    intro slot hslot p hp
    by_cases hone : p = userProcessId
    · exact .inl hone
    by_cases hprocess : (k.threads k.currentThread).process = some p
    · refine .inr (.inr ?_)
      obtain ⟨s, -, hs, -, hmain⟩ :=
        (h.owner _ p hcurrent hprocess).resolve_left hone
      have hsome : (k.findRecord (·.mainThread == some k.currentThread)).isSome := by
        unfold findRecord
        rw [List.find?_isSome]
        exact ⟨s, List.mem_range.mpr hs, beq_iff_eq.mpr hmain⟩
      obtain ⟨s', hs'⟩ := Option.isSome_iff_exists.mp hsome
      refine ⟨s', hs', ?_⟩
      rcases hown with hleaf | hsame
      · rcases hleaf with huser | hnone
        · rw [huser] at hprocess
          exact absurd (Option.some.inj hprocess).symm hone
        · exact absurd hprocess (hnone slot hslot p hp)
      · have := hsame s' hs'
        rw [hprocess] at this
        exact (Option.some.inj this).symm
    · exact .inr (.inl hprocess)
  have hfamily : (k₂.reparentChildrenOfExitedProcess k.currentThread).Family := by
    have hfind : k₂.findRecord (·.mainThread == some k.currentThread) =
        k.findRecord (·.mainThread == some k.currentThread) := by
      unfold findRecord
      rw [hrecords₂]
    have hstate : ∀ u, (k₂.threads u).state = .exited ↔
        u = k.currentThread ∨ (k.threads u).state = .exited :=
      fun u => (hwoken.exited_iff u).trans (hended u).2
    have hprocess : ∀ u, (k₂.threads u).process = (k.threads u).process :=
      fun u => (hwoken.process u).trans (hended u).1
    unfold reparentChildrenOfExitedProcess
    rw [hfind]
    cases hs : k.findRecord (·.mainThread == some k.currentThread) with
    | none =>
      refine h.ends hw.toRecords hinit hstate hprocess
        (fun slot _ => by rw [hrecords₂]; exact ⟨rfl, rfl⟩) fun slot hslot p hp => ?_
      rw [hrecords₂]
      refine .inr ⟨hp, (hfound slot hslot p hp).imp_right fun hx => ?_⟩
      refine hx.resolve_right ?_
      rintro ⟨s, hs', -⟩
      rw [hs] at hs'
      cases hs'
    | some s =>
      obtain ⟨log, heq, -⟩ := k₂.reparentChildren_spec (k₂.processes s).id
        k.currentThread
      dsimp only
      rw [heq, hrecords₂]
      refine h.ends hw.toRecords hinit hstate hprocess
        (fun slot hslot => ?_) fun slot hslot p hp => ?_
      · dsimp only
        rw [if_pos hslot, adopt_id, adopt_mainThread]
        exact ⟨rfl, rfl⟩
      · dsimp only
        rw [if_pos hslot]
        unfold adopt
        rw [hp]
        by_cases hps : p = (k.processes s).id
        · rw [if_pos (congrArg some hps)]
          exact .inl rfl
        · rw [if_neg fun heq => hps (Option.some.inj heq)]
          refine .inr ⟨hp, (hfound slot hslot p hp).imp_right fun hx => ?_⟩
          refine hx.resolve_right ?_
          rintro ⟨s', hs', hid⟩
          rw [hs] at hs'
          rw [← Option.some.inj hs'] at hid
          exact hps hid.symm
  refine hfamily.dispatch ?_ (schedule_spec _ _).1
  have hthreads : (k₂.reparentChildrenOfExitedProcess k.currentThread).threads =
      k₂.threads := by
    unfold reparentChildrenOfExitedProcess
    split
    · rfl
    · obtain ⟨log, heq, -⟩ := k₂.reparentChildren_spec _ k.currentThread
      rw [heq]
  rw [hthreads, ne_eq, hwoken.exited_iff, (hended idleThread).2]
  exact not_or.mpr ⟨Ne.symm hidle, hw.idle.2.1⟩

/-! ## New threads and processes -/

/-- The pid of a slot is not the mark of an empty record. -/
theorem pid_ne_noThread {slot : Nat} (hslot : slot < maxProcesses) :
    slot + 1 ≠ noThread := by
  unfold noThread
  unfold maxProcesses maxThreads at hslot
  omega

theorem Records.empty_of_free (h : k.Records) {slot : Nat}
    (hslot : slot < maxProcesses) (hfree : (k.processes slot).id = noThread) :
    k.processes slot = .empty := by
  rcases h.shape slot hslot with hempty | hshape
  · exact hempty
  · rw [hfree] at hshape
    exact absurd hshape.symm (pid_ne_noThread hslot)


theorem Records.slot_unique (h : k.Records) {i j : Nat} (hi : i < maxProcesses)
    (hj : j < maxProcesses) (hid : (k.processes i).id = (k.processes j).id)
    (hne : (k.processes i).id ≠ noThread) : i = j := by
  have hshape : ∀ s < maxProcesses, (k.processes s).id ≠ noThread →
      (k.processes s).id = s + 1 := by
    intro s hs hused
    rcases h.shape s hs with hempty | hs'
    · rw [hempty] at hused
      exact absurd rfl hused
    · exact hs'
  have hi' := hshape i hi hne
  have hj' := hshape j hj (by rwa [← hid])
  rw [hi', hj'] at hid
  exact Nat.succ.inj hid

/-- The lookup by pid finds the record of the process. -/
theorem Records.findRecord_pid (h : k.Records) {slot : Nat}
    (hslot : slot < maxProcesses) (hused : (k.processes slot).id ≠ noThread) :
    k.findRecord (·.id == (k.processes slot).id) = some slot := by
  have hsome : (k.findRecord (·.id == (k.processes slot).id)).isSome := by
    unfold findRecord
    rw [List.find?_isSome]
    exact ⟨slot, List.mem_range.mpr hslot, beq_iff_eq.mpr rfl⟩
  obtain ⟨i, hi⟩ := Option.isSome_iff_exists.mp hsome
  obtain ⟨hlt, hid⟩ := findRecord_some hi
  have hid' := beq_iff_eq.mp hid
  rw [hi, h.slot_unique hlt hslot hid' (by rwa [hid'])]

/-- A thread of PID 1 or the main thread of a process starts in a slot whose
thread has ended. -/
theorem Family.handed (h : k.Family) {slot : ThreadId}
    (hexited : (k.threads slot).state = .exited)
    (hother : ∀ t, t ≠ slot → k'.threads t = k.threads t)
    (hrecords : k'.processes = k.processes)
    (hnew : ∀ p, (k'.threads slot).process = some p → p = userProcessId ∨
      ∃ s, 1 ≤ s ∧ s < maxProcesses ∧ (k.processes s).id = p ∧
        (k.processes s).mainThread = some slot) : k'.Family where
  init := by
    have hne : initThread ≠ slot := by
      rintro rfl
      exact h.init.1 hexited
    rw [hother _ hne]
    exact h.init
  spared := by
    rw [hrecords]
    exact h.spared
  owner t p ht hp := by
    rw [hrecords]
    by_cases hslot : t = slot
    · rw [hslot] at hp ⊢
      exact hnew p hp
    · rw [hother t hslot] at ht hp
      exact h.owner t p ht hp
  parent i hpos hi hid := by
    rw [hrecords] at hid ⊢
    obtain ⟨p, hp, halive⟩ := h.parent i hpos hi hid
    refine ⟨p, hp, halive.congr (fun _ _ => by rw [hrecords]; exact ⟨rfl, rfl⟩)
      fun t ht hlive => ?_⟩
    have hne : t ≠ slot := by
      rintro rfl
      exact hlive hexited
    rw [hother t hne]
    exact ⟨ht, hlive⟩
  rooted i hi hid := by
    have hchild : k'.IsChild = k.IsChild := by
      unfold IsChild
      rw [hrecords]
    rw [hrecords] at hid ⊢
    rw [hchild]
    exact h.rooted i hi hid

/-- No thread of the process runs. -/
def Idle (k : Kernel) (p : ProcessId) : Prop :=
  ∀ t, (k.threads t).process = some p → (k.threads t).state = .exited

theorem Idle.same {p : ProcessId} (h : k.Idle p) (hs : SameEnds k k') :
    k'.Idle p := by
  intro t ht
  rw [hs.process] at ht
  rw [hs.exited_iff]
  exact h t ht

theorem Idle.not_alive {p : ProcessId} (h : k.Idle p) : ¬ k.Alive p := by
  rintro ⟨_, _, _, t, _, hprocess, hlive⟩
  exact hlive (h t hprocess)

/-- A process gets its main thread. -/
theorem Family.setProcessMainThread (h : k.Family) {p : ProcessId} {t : ThreadId}
    (hp : p ≠ userProcessId) (ht : t ≠ initThread) (hnone : k.Idle p) :
    (k.setProcessMainThread p t).Family := by
  unfold Kernel.setProcessMainThread
  split
  · exact h
  rename_i s hfind
  obtain ⟨hs, hid⟩ := findRecord_some hfind
  have hid' : (k.processes s).id = p := beq_iff_eq.mp hid
  have hself : ∀ i, (put k.processes s
      { k.processes s with mainThread := some t } i).id = (k.processes i).id ∧
      (put k.processes s
        { k.processes s with mainThread := some t } i).parent =
          (k.processes i).parent := by
    intro i
    by_cases his : i = s
    · rw [his, put_same]
      exact ⟨rfl, rfl⟩
    · rw [put_other his]
      exact ⟨rfl, rfl⟩
  have hmain : ∀ i, (k.processes i).id ≠ p → (put k.processes s
      { k.processes s with mainThread := some t } i).mainThread =
        (k.processes i).mainThread := by
    intro i hi
    rw [put_other]
    rintro rfl
    exact hi hid'
  refine
    { init := h.init
      spared := fun i hi => ?_
      owner := fun u q hu hq => ?_
      parent := fun i hpos hi hid => ?_
      rooted := fun i hi hid => ?_ }
  · show (put k.processes s _ i).mainThread ≠ _
    by_cases his : i = s
    · rw [his, put_same]
      exact fun heq => ht (Option.some.inj heq)
    · rw [put_other his]
      exact h.spared i hi
  · rcases h.owner u q hu hq with heq | ⟨i, hpos, hi, hidi, hmaini⟩
    · exact .inl heq
    · refine .inr ⟨i, hpos, hi, (hself i).1.trans hidi, ?_⟩
      refine (hmain i ?_).trans hmaini
      rw [hidi]
      rintro rfl
      exact hu (hnone u hq)
  · have hidi : (k.processes i).id ≠ noThread := by rwa [← (hself i).1]
    obtain ⟨q, hq, slot, hslot, hidq, m, hm, hprocess, hlive⟩ :=
      h.parent i hpos hi hidi
    refine ⟨q, (hself i).2.trans hq, slot, hslot, (hself slot).1.trans hidq, m, ?_,
      hprocess, hlive⟩
    have hne : (k.processes slot).id ≠ p := by
      rw [hidq]
      rintro rfl
      exact hlive (hnone m hprocess)
    unfold IsMain at hm ⊢
    show if slot = 0 then _ else (put k.processes s _ slot).mainThread = _
    rw [hmain slot hne]
    exact hm
  · have hidi : (k.processes i).id ≠ noThread := by rwa [← (hself i).1]
    refine rooted_of_parents (fun i _ => (hself i).1)
      (fun i _ q hq => .inr ((hself i).2.trans hq)) ?_
    show Relation.ReflTransGen _ (put k.processes s _ i).id _
    rw [(hself i).1]
    exact h.rooted i hi hidi

/-- A new record is a child of the current process. -/
theorem Family.recorded (h : k.Family) (hw : k.WellFormed)
    (hcurrent : (k.threads k.currentThread).state ≠ .exited)
    (huser : (k.threads k.currentThread).isUser) {p : ProcessId}
    (hrec : k.Recorded p k') : k'.Family ∧ k'.Idle p ∧ p ≠ userProcessId := by
  obtain ⟨k₁, k₂, space, h₁, h₂, h₃⟩ := hrec
  obtain ⟨slot, hpos, hslot, rfl, hfree, rfl⟩ := createProcess_some h₂
  have hf := h.quiet h₁
  have hrecords := (hw.toSlots.quiet h₁).toRecords
  have hcurrent₁ : (k₁.threads k₁.currentThread).state ≠ .exited := by
    rw [h₁.currentThread, h₁.state]
    exact hcurrent
  obtain ⟨i₀, hi₀, hprocess⟩ := hrecords.userProcess k₁.currentThread (by
    rw [h₁.currentThread, h₁.isUser, huser])
  have hne : slot + 1 ≠ userProcessId := by
    unfold userProcessId
    omega
  have hempty := hrecords.empty_of_free hslot hfree
  have hidle : k₁.Idle (slot + 1) := by
    intro t ht
    by_contra hlive
    obtain ⟨s, -, hs, hid, hmain⟩ := (hf.owner t _ hlive ht).resolve_left hne
    rcases hrecords.shape s hs with hempty' | hshape
    · rw [hempty'] at hmain
      cases hmain
    · rw [hshape] at hid
      obtain rfl : s = slot := Nat.succ.inj hid
      rw [hempty] at hmain
      cases hmain
  have hparent : k₁.currentProcess = some (i₀ + 1) := by
    unfold currentProcess
    have hlt := (hw.toSlots.quiet h₁).current_lt
    rw [if_neg, hprocess]
    refine not_or.mpr ⟨?_, Nat.not_le_of_lt hlt⟩
    unfold noThread
    unfold maxThreads at hlt
    omega
  rw [hparent] at h₃
  generalize hk₂ : (k₁.setRecord slot
      { id := slot + 1, addressSpace := space, parent := some (i₀ + 1),
        mainThread := none }).record (.created (slot + 1) space) = k₂ at h₃
  have hthreads : k₂.threads = k₁.threads := by rw [← hk₂]; rfl
  have hself : k₂.processes slot =
      { id := slot + 1, addressSpace := space, parent := some (i₀ + 1),
        mainThread := none } := by
    rw [← hk₂]
    exact put_same _ _ _
  have hother : ∀ i, i ≠ slot → k₂.processes i = k₁.processes i := by
    intro i hi
    rw [← hk₂]
    exact put_other hi
  have hnamed : ∀ i, (k₁.processes i).mainThread ≠ none ∨
      (k₁.processes i).parent ≠ none → i ≠ slot := by
    rintro i hi rfl
    rw [hempty] at hi
    exact hi.elim (fun hx => hx rfl) fun hx => hx rfl
  have hlive : ∀ q, k₁.Alive q → k₂.Alive q := by
    rintro q ⟨i, hi, hid, t, hmain, ht⟩
    have his : i ≠ slot := by
      unfold IsMain at hmain
      split at hmain
      · rename_i hzero
        rw [hzero]
        exact Nat.ne_of_lt hpos
      · exact hnamed i (.inl (by rw [hmain]; exact Option.some_ne_none t))
    refine ⟨i, hi, ?_, t, ?_, ?_⟩
    · rw [hother i his, hid]
    · unfold IsMain at hmain ⊢
      rwa [hother i his]
    · rw [hthreads]
      exact ht
  have hchild : ∀ q q', k₁.IsChild q q' → k₂.IsChild q q' := by
    rintro q q' ⟨i, hi, hid, hq'⟩
    have his := hnamed i (.inr (by rw [hq']; exact Option.some_ne_none q'))
    exact ⟨i, hi, by rw [hother i his, hid], by rw [hother i his, hq']⟩
  -- The creator is alive, and it leads to PID 1.
  have hcreator : k₁.Alive (i₀ + 1) ∧
      Relation.ReflTransGen k₁.IsChild (i₀ + 1) userProcessId := by
    rcases hf.owner _ _ hcurrent₁ hprocess with heq | ⟨i, hpos', hi, hid, hmain⟩
    · rw [heq]
      exact ⟨hf.aliveInit hrecords, .refl⟩
    · refine ⟨⟨i, hi, hid, _, ?_, hprocess, hcurrent₁⟩, ?_⟩
      · unfold IsMain
        rw [if_neg (Nat.one_le_iff_ne_zero.mp hpos')]
        exact hmain
      · have hlive := hf.rooted i hi (by rw [hid]; exact pid_ne_noThread hi₀)
        rwa [hid] at hlive
  have hfamily : k₂.Family := by
    refine
      { init := by rw [hthreads]; exact hf.init
        spared := fun i hi => ?_
        owner := fun t q ht hq => ?_
        parent := fun i hpos' hi hid => ?_
        rooted := fun i hi hid => ?_ }
    · by_cases his : i = slot
      · rw [his, hself]
        exact fun heq => nomatch heq
      · rw [hother i his]
        exact hf.spared i hi
    · rw [hthreads] at ht hq
      rcases hf.owner t q ht hq with heq | ⟨i, hpos', hi, hid, hmain⟩
      · exact .inl heq
      · have his := hnamed i (.inl (by rw [hmain]; exact Option.some_ne_none t))
        exact .inr ⟨i, hpos', hi, by rw [hother i his, hid],
          by rw [hother i his, hmain]⟩
    · by_cases his : i = slot
      · rw [his, hself]
        exact ⟨_, rfl, hlive _ hcreator.1⟩
      · rw [hother i his] at hid ⊢
        obtain ⟨q, hq, halive⟩ := hf.parent i hpos' hi hid
        exact ⟨q, hq, hlive q halive⟩
    · by_cases his : i = slot
      · rw [his, hself]
        refine .head ⟨slot, hslot, by rw [hself], by rw [hself]⟩
          (Relation.ReflTransGen.mono hchild _ _ hcreator.2)
      · rw [hother i his] at hid ⊢
        exact Relation.ReflTransGen.mono hchild _ _ (hf.rooted i hi hid)
  refine ⟨hfamily.quiet h₃, fun t ht => ?_, hne⟩
  rw [h₃.process, hthreads] at ht
  rw [h₃.state, hthreads]
  exact hidle t ht

/-- The record of a process that no longer runs is taken out. -/
theorem Family.collect (h : k.Family) (hw : k.Records) {p : ProcessId}
    (hp : p ≠ userProcessId) (hnone : k.Idle p) (t : ThreadId) (status : Nat) :
    (k.collect p t status).Family := by
  unfold Kernel.collect
  dsimp only
  split
  · exact h.same ⟨fun _ => Iff.rfl, fun _ => rfl, rfl⟩
  rename_i s hfind
  obtain ⟨hs, hid⟩ := findRecord_some hfind
  have hid' : (k.processes s).id = p := beq_iff_eq.mp hid
  have hzero : s ≠ 0 := by
    rintro rfl
    exact hp (hid'.symm.trans hw.first.1)
  -- Nobody is a child of a process that does not run.
  have hparent : ∀ q q', k.IsChild q q' → q' ≠ p := by
    rintro q q' ⟨i, hi, hidi, hq'⟩ rfl
    have hpos : 1 ≤ i := by
      refine Nat.one_le_iff_ne_zero.mpr ?_
      rintro rfl
      rw [hw.first.2.1] at hq'
      cases hq'
    have hused : (k.processes i).id ≠ noThread := by
      intro hfree
      rw [hw.empty_of_free hi hfree] at hq'
      cases hq'
    obtain ⟨q'', hq'', halive⟩ := h.parent i hpos hi hused
    rw [hq'] at hq''
    rw [← Option.some.inj hq''] at halive
    exact hnone.not_alive halive
  have hother : ∀ i, (k.processes i).id ≠ p →
      put k.processes s Process.empty i = k.processes i := by
    intro i hi
    refine put_other ?_
    rintro rfl
    exact hi hid'
  have hused : ∀ i, (put k.processes s Process.empty i).id ≠ noThread →
      put k.processes s Process.empty i = k.processes i ∧ i ≠ s := by
    intro i hi
    by_cases his : i = s
    · rw [his, put_same] at hi
      exact absurd rfl hi
    · exact ⟨put_other his, his⟩
  have hlive : ∀ q, k.Alive q → ∃ slot < maxProcesses,
      (put k.processes s Process.empty slot).id = q ∧ ∃ u,
        (if slot = 0 then u = initThread
          else (put k.processes s Process.empty slot).mainThread = some u) ∧
        (k.threads u).process = some q ∧ (k.threads u).state ≠ .exited := by
    rintro q ⟨slot, hslot, hidq, u, hmain, hprocess, hu⟩
    have hne : (k.processes slot).id ≠ p := by
      rw [hidq]
      rintro rfl
      exact hu (hnone u hprocess)
    refine ⟨slot, hslot, ?_, u, ?_, hprocess, hu⟩
    · rw [hother slot hne, hidq]
    · rw [hother slot hne]
      exact hmain
  have hrooted : ∀ q, Relation.ReflTransGen k.IsChild q userProcessId → q ≠ p →
      Relation.ReflTransGen (fun q q' => ∃ slot < maxProcesses,
        (put k.processes s Process.empty slot).id = q ∧
          (put k.processes s Process.empty slot).parent = some q')
        q userProcessId := by
    intro q hq
    induction hq using Relation.ReflTransGen.head_induction_on with
    | refl => exact fun _ => .refl
    | head hchild _ ih =>
      intro hne
      have hne' := hparent _ _ hchild
      obtain ⟨i, hi, hidi, hq'⟩ := hchild
      refine .head ⟨i, hi, ?_, ?_⟩ (ih hne')
      · rw [hother i (by rw [hidi]; exact hne), hidi]
      · rw [hother i (by rw [hidi]; exact hne), hq']
  refine
    { init := h.init
      spared := fun i hi => ?_
      owner := fun u q hu hq => ?_
      parent := fun i hpos hi hidi => ?_
      rooted := fun i hi hidi => ?_ }
  · show (put k.processes s Process.empty i).mainThread ≠ _
    by_cases his : i = s
    · rw [his, put_same]
      exact fun heq => nomatch heq
    · rw [put_other his]
      exact h.spared i hi
  · rcases h.owner u q hu hq with heq | ⟨i, hpos, hi, hidi, hmain⟩
    · exact .inl heq
    · have hne : (k.processes i).id ≠ p := by
        rw [hidi]
        rintro rfl
        exact hu (hnone u hq)
      refine .inr ⟨i, hpos, hi, ?_, ?_⟩
      · exact (congrArg Process.id (hother i hne)).trans hidi
      · exact (congrArg Process.mainThread (hother i hne)).trans hmain
  · obtain ⟨hsame, -⟩ := hused i hidi
    have hidi' : (put k.processes s Process.empty i).id ≠ noThread := hidi
    rw [hsame] at hidi'
    obtain ⟨q, hq, halive⟩ := h.parent i hpos hi hidi'
    exact ⟨q, (congrArg Process.parent hsame).trans hq, hlive q halive⟩
  · obtain ⟨hsame, his⟩ := hused i hidi
    have hidi' : (put k.processes s Process.empty i).id ≠ noThread := hidi
    have hne : (k.processes i).id ≠ p := by
      rw [hsame] at hidi'
      rcases hw.shape i hi with hempty | hshape
      · rw [hempty] at hidi'
        exact absurd rfl hidi'
      · rcases hw.shape s hs with hempty' | hshape'
        · rw [hempty'] at hid'
          rw [hshape, ← hid']
          exact pid_ne_noThread hi
        · rw [hshape, ← hid', hshape']
          exact fun heq => his (Nat.succ.inj heq)
    show Relation.ReflTransGen _ (put k.processes s Process.empty i).id _
    rw [hsame] at hidi' ⊢
    exact hrooted _ (h.rooted i hi hidi') hne

end Step

/-! ## The current thread -/

/-- The current thread has not ended. -/
def Running (k : Kernel) : Prop :=
  (k.threads k.currentThread).state ≠ .exited

section Running

variable {k k' : Kernel}

theorem Running.same (h : k.Running) (hs : SameEnds k k')
    (hcurrent : k'.currentThread = k.currentThread) : k'.Running := by
  unfold Running
  rw [hcurrent, ne_eq, hs.exited_iff]
  exact h

theorem Running.quiet (h : k.Running) (hq : Quiet k k') : k'.Running :=
  h.same (sameEnds_quiet hq) hq.currentThread

theorem Running.woken (h : k.Running) (hw : Woken k k') : k'.Running :=
  h.same (sameEnds_woken hw) hw.currentThread

theorem running_dispatch {saved : Context} (hd : Dispatched k saved k') :
    k'.Running := by
  unfold Running
  rw [hd.state, if_pos rfl]
  exact fun heq => nomatch heq

/-- Another thread changes. -/
theorem Running.updateOther (h : k.Running) {u : ThreadId} (f : Thread → Thread)
    (hu : u ≠ k.currentThread) : (k.updateThread u f).Running := by
  show (put k.threads u _ k.currentThread).state ≠ _
  rw [put_other (Ne.symm hu)]
  exact h

theorem Running.markReapable (h : k.Running) (t : ThreadId) :
    (k.markReapable t).Running := by
  refine h.same (k.sameEnds_markReapable t) ?_
  unfold Kernel.markReapable
  split <;> rfl

theorem Running.leaveJoin (h : k.Running) (t : ThreadId) :
    (k.leaveJoin t).Running := by
  refine h.same (k.sameEnds_leaveJoin t) ?_
  unfold Kernel.leaveJoin dropJoinWaiter Kernel.markReapable
  split <;> split <;> rfl

theorem Running.collect (h : k.Running) (p : ProcessId) (t : ThreadId)
    (status : Nat) : (k.collect p t status).Running := by
  unfold Kernel.collect
  dsimp only
  split <;> exact h

theorem Running.handed (h : k.Running) {slot : ThreadId} {entry : Option Nat}
    {process : Option ProcessId} {isUser : Bool}
    (hk' : k.Handed slot entry process isUser k') : k'.Running := by
  obtain ⟨k₁, userContext, ownsUserStack, hq, hslot, rfl⟩ := hk'
  have hexited := (reusableSlot_some hslot).2.2.1
  have hnew := (h.quiet hq).updateOther (fun _ => newThread (k₁.threads slot) entry
    process userContext isUser ownsUserStack) (u := slot) fun heq => by
      rw [heq, hq.currentThread] at hexited
      exact h hexited
  have hrecord : ((k₁.updateThread slot fun _ => newThread (k₁.threads slot) entry
      process userContext isUser ownsUserStack).record (.handed slot)).Running := hnew
  exact hrecord.woken (woken_enqueue _ slot)

theorem Running.recorded (h : k.Running) {p : ProcessId}
    (hrec : k.Recorded p k') : k'.Running := by
  obtain ⟨k₁, k₂, space, h₁, h₂, h₃⟩ := hrec
  obtain ⟨slot, -, -, -, -, rfl⟩ := createProcess_some h₂
  have hrunning := h.quiet h₁
  exact Running.quiet (show ((k₁.setRecord slot _).record _).Running from hrunning) h₃

theorem Running.setProcessMainThread (h : k.Running) (p : ProcessId)
    (t : ThreadId) : (k.setProcessMainThread p t).Running := by
  unfold Kernel.setProcessMainThread
  split <;> exact h

end Running

/-! ## Runs -/

/-- A `wait_process` that goes on finds no running process under its pid. -/
def FindsEnded (k : Kernel) : Context → Prop
  | .waiting p t => (k.threads t).state = .exited →
      ∀ slot < maxProcesses, (k.processes slot).id = p →
        ∀ u ∈ (k.processes slot).mainThread, (k.threads u).state = .exited
  | _ => True

/-- The action is a syscall or an interrupt; PID 1 does not exit; an exit
finds the record of its own process, unless that has no children; a process
is terminated only while it has no children, and not by its own thread; and
what a `wait_process` finds under its pid, when it goes on, does not run. -/
def KeepsFamilies (k : Kernel) : Action → Prop
  | .exit _ => k.currentThread ≠ initThread ∧ (k.Leaf k.currentThread ∨
      ∀ slot ∈ k.findRecord (·.mainThread == some k.currentThread),
        (k.threads k.currentThread).process = some (k.processes slot).id)
  | .terminateProcess p => ∀ t ∈ k.currentProcess.bind (k.childMainThread p),
      (k.threads t).state ≠ .exited → t ≠ k.currentThread ∧ k.Leaf t
  | .resume => ∀ c ∈ k.resuming, k.FindsEnded c
  | a => a.isInternal = false

section Runs

variable {k k' : Kernel}

/-- A process does not run when its main thread has ended or is not set. -/
theorem Family.idle (h : k.Family) {p : ProcessId} (hp : p ≠ userProcessId)
    (hmain : ∀ slot < maxProcesses, (k.processes slot).id = p →
      ∀ u, (k.processes slot).mainThread = some u →
        (k.threads u).state = .exited) : k.Idle p := by
  intro t ht
  by_contra hlive
  obtain ⟨slot, -, hslot, hid, hm⟩ := (h.owner t p hlive ht).resolve_left hp
  exact hlive (hmain slot hslot hid t hm)

/-- The children of the current process have their own slots. -/
theorem Family.idle_child (h : k.Family) (hw : k.WellFormed) {p : ProcessId}
    {t : ThreadId} {slot : Nat} (hchild : k.Child p t slot)
    (hexited : (k.threads t).state = .exited) :
    p ≠ userProcessId ∧ k.Idle p := by
  obtain ⟨hpos, rfl⟩ := hw.child_ne hchild
  have hp : slot + 1 ≠ userProcessId := by unfold userProcessId; omega
  have hpid := pid_ne_noThread hchild.slot_lt
  refine ⟨hp, h.idle hp fun i hi hid u hu => ?_⟩
  obtain rfl : i = slot := hw.toRecords.slot_unique hi hchild.slot_lt
    (hid.trans hchild.id_eq.symm) (by rw [hid]; exact hpid)
  rw [hchild.main_eq] at hu
  rw [← Option.some.inj hu]
  exact hexited

/-- What every step does to the current thread. -/
theorem Running.step (h : k.Running) (hw : k.WellFormed) {a : Action}
    (hguard : k.KeepsFamilies a) (hstep : k.step a = some k') : k'.Running := by
  cases step_effect hw.idle.1 hstep with
  | quiet hq => exact h.quiet hq
  | woken hr hwakes hq => exact (h.woken hwakes.woken).quiet hq
  | resumed hr hlive hq =>
    have hclear : { k with resuming := none }.Running := h
    exact hclear.quiet hq
  | joined hr hexited hq => exact (h.leaveJoin _).quiet hq
  | waited hr hexited hq => exact ((h.leaveJoin _).collect _ _ _).quiet hq
  | yielded hr =>
    unfold Kernel.yieldNow
    dsimp only
    rw [if_neg hw.ne_noThread]
    split
    · exact running_dispatch (schedule_spec _ _).1
    · exact running_dispatch (schedule_spec _ _).1
  | exited status hr hidle =>
    unfold Kernel.exitCurrent
    dsimp only
    rw [if_neg (not_or.mpr ⟨hw.ne_noThread, hidle⟩)]
    exact running_dispatch (schedule_spec _ _).1
  | @blocked _ c k₁ hr hidle hreg =>
    have hcur : k₁.currentThread = k.currentThread := by
      cases hreg <;> rfl
    unfold Kernel.blockCurrent
    dsimp only
    rw [hcur, if_neg (not_or.mpr ⟨hw.ne_noThread, hidle⟩)]
    exact running_dispatch (schedule_spec _ _).1
  | reaped hr hlt hne hexited hq => exact (h.markReapable _).quiet hq
  | collected hr hchild hlt hne hexited hq =>
    exact ((h.markReapable _).collect _ _ _).quiet hq
  | @terminated p t slot _ hr hchild hlookup hlive hq =>
    have hne := (hguard t hlookup hlive).1
    have hended : (k.endThread p t).Running := h.updateOther (fun t =>
        { t with
          state := .exited
          entry := none
          exitStatus := terminatedStatus }) hne
    exact (hended.woken (woken_wakeJoinWaiters _ t)).quiet hq
  | handed hr hspawns hkind hprocess hhanded hq => exact (h.handed hhanded).quiet hq
  | recorded hr huser hrec => exact h.recorded hrec
  | spawned hr huser hrec hhanded hq =>
    exact (((h.recorded hrec).handed hhanded).setProcessMainThread _ _).quiet hq

/-- The new thread of a spawn, and what stays as it was. -/
theorem Handed.threads {slot : ThreadId} {entry : Option Nat}
    {process : Option ProcessId} {isUser : Bool}
    (h : k.Handed slot entry process isUser k') :
    ∃ k₁, Quiet k k₁ ∧ (k₁.threads slot).state = .exited ∧
      (∀ t, t ≠ slot → k'.threads t = k₁.threads t) ∧
      (k'.threads slot).process = process ∧ k'.processes = k₁.processes := by
  obtain ⟨k₁, userContext, ownsUserStack, hq, hslot, rfl⟩ := h
  have hexited := (reusableSlot_some hslot).2.2.1
  obtain ⟨hthreads, -, hprocesses, -, -, -⟩ := ((k₁.updateThread slot fun _ =>
    newThread (k₁.threads slot) entry process userContext isUser
      ownsUserStack).record (.handed slot)).enqueue_fields slot
  refine ⟨k₁, hq, by rw [hq.state, hexited], fun t ht => ?_, ?_, hprocesses⟩
  · unfold install
    rw [hthreads]
    exact put_other ht
  · unfold install
    rw [hthreads]
    show (put k₁.threads slot _ slot).process = _
    rw [put_same]
    rfl

theorem Family.step (h : k.Family) (hrunning : k.Running) (hw : k.WellFormed)
    {a : Action} (hguard : k.KeepsFamilies a) (hstep : k.step a = some k') :
    k'.Family := by
  cases step_effect hw.idle.1 hstep with
  | quiet hq => exact h.quiet hq
  | woken hr hwakes hq => exact (h.woken hwakes.woken).quiet hq
  | resumed hr hlive hq =>
    have hclear : SameEnds k { k with resuming := none } :=
      ⟨fun _ => Iff.rfl, fun _ => rfl, rfl⟩
    exact (h.same hclear).quiet hq
  | joined hr hexited hq => exact (h.same (k.sameEnds_leaveJoin _)).quiet hq
  | @waited p t _ hr hexited hq =>
    have hcur : k.contextOf k.currentThread = some (.waiting p t) := by
      rw [contextOf, if_pos rfl, hr]
    obtain ⟨slot, hpos, hslot, rfl⟩ := hw.waits _ _ _ hcur
    have hp : slot + 1 ≠ userProcessId := by unfold userProcessId; omega
    have hnone := h.idle hp (hguard _ hr hexited)
    have hleft := k.sameEnds_leaveJoin t
    exact ((h.same hleft).collect (hw.leaveJoin hr rfl hexited).toRecords hp
      (hnone.same hleft) _ _).quiet hq
  | yielded hr => exact h.yieldNow hw hrunning
  | exited status hr hidle =>
    exact h.exitCurrent hw hrunning hguard.1 hidle hguard.2 status
  | blocked hr hidle hreg => exact h.blocked hw hrunning hreg hidle
  | reaped hr hlt hne hexited hq => exact (h.same (k.sameEnds_markReapable _)).quiet hq
  | @collected _ p t slot _ hr hchild hlt hne hexited hq =>
    obtain ⟨hp, hnone⟩ := h.idle_child hw hchild hexited
    have hmark := k.sameEnds_markReapable t
    exact ((h.same hmark).collect (hw.markReapable hlt hne hexited).toRecords hp
      (hnone.same hmark) _ _).quiet hq
  | @terminated p t slot _ hr hchild hlookup hlive hq =>
    obtain ⟨-, hleaf⟩ := hguard t hlookup hlive
    have hinit : t ≠ initThread := by
      rintro rfl
      exact h.spared slot hchild.slot_lt hchild.main_eq
    have hended : (k.endThread p t).Family := by
      refine h.leafEnds hw.toRecords hinit hleaf (fun u => ?_) (fun u => ?_) rfl
      · show (put k.threads t _ u).state = _ ↔ _
        by_cases hu : u = t
        · rw [hu, put_same]
          exact ⟨fun _ => .inl rfl, fun _ => rfl⟩
        · rw [put_other hu]
          exact (or_iff_right hu).symm
      · show (put k.threads t _ u).process = _
        by_cases hu : u = t
        · rw [hu, put_same]
        · rw [put_other hu]
    exact (hended.woken (woken_wakeJoinWaiters _ t)).quiet hq
  | @handed _ slot entry process isUser k₁ _ hr hspawns hkind hprocess hhanded hq =>
    obtain ⟨k₀, hq₀, hexited, hother, hnew, hrecords⟩ := hhanded.threads
    have hfamily : k₁.Family := by
      refine (h.quiet hq₀).handed hexited hother hrecords fun p hp => .inl ?_
      rw [hnew, hprocess] at hp
      split at hp
      · exact (Option.some.inj hp).symm
      · cases hp
    exact hfamily.quiet hq
  | recorded hr huser hrec => exact (h.recorded hw hrunning huser hrec).1
  | @spawned _ _ _ p slot k₁ k₂ _ hr huser hrec hhanded hq =>
    obtain ⟨h₁, hnone, hp⟩ := h.recorded hw hrunning huser hrec
    obtain ⟨i, hpos, hi, hpi, -, space, hprocesses⟩ := hrec.slot
    obtain ⟨k₀, hq₀, hexited, hother, hnew, hrecords⟩ := hhanded.threads
    have h₀ := h₁.quiet hq₀
    have hinit : slot ≠ initThread := by
      rintro rfl
      exact h₀.init.1 hexited
    have hid : (k₀.processes i).id = p := by
      rw [hq₀.processes, hprocesses, put_same]
    have hused : (k₀.processes i).id ≠ noThread := by
      rw [hid, hpi]
      exact pid_ne_noThread hi
    have hfind := ((hw.recorded hrec).quiet hq₀).toRecords.findRecord_pid hi hused
    rw [hid] at hfind
    have hset := h₀.setProcessMainThread hp hinit (hnone.same (sameEnds_quiet hq₀))
    have hfind' : k₂.findRecord (·.id == p) = some i := by
      unfold findRecord at hfind ⊢
      rwa [hrecords]
    have hmain₀ : k₀.setProcessMainThread p slot = (k₀.setRecord i
        { k₀.processes i with mainThread := some slot }).record
          (.mainThreadSet p slot) := by
      unfold Kernel.setProcessMainThread
      rw [hfind]
    have hmain₂ : k₂.setProcessMainThread p slot = (k₂.setRecord i
        { k₂.processes i with mainThread := some slot }).record
          (.mainThreadSet p slot) := by
      unfold Kernel.setProcessMainThread
      rw [hfind']
    rw [hmain₀] at hset
    rw [hmain₂] at hq
    generalize hk₃ : (k₂.setRecord i
        { k₂.processes i with mainThread := some slot }).record
          (.mainThreadSet p slot) = k₃ at hq
    have hthreads : k₃.threads = k₂.threads := by rw [← hk₃]; rfl
    have hfinal : k₃.Family := by
      refine hset.handed hexited (fun t ht => ?_) ?_ fun p' hp' => .inr ?_
      · rw [hthreads]
        exact hother t ht
      · rw [← hk₃]
        show put k₂.processes i _ = put k₀.processes i _
        rw [hrecords]
      · rw [hthreads, hnew] at hp'
        obtain rfl := Option.some.inj hp'
        refine ⟨i, hpos, hi, ?_, ?_⟩
        · show (put k₀.processes i _ i).id = _
          rw [put_same]
          exact hid
        · show (put k₀.processes i _ i).mainThread = _
          rw [put_same]
    exact hfinal.quiet hq

theorem Booted.family {k : Kernel} (h : k.Booted) : k.Family ∧ k.Running := by
  obtain ⟨userContext, hfirst⟩ := h.first
  obtain ⟨space, before, between, hprocesses, -, -, -⟩ := h.records
  have hstate : (k.threads 1).state = .running := congrArg Thread.state hfirst
  have hprocess : (k.threads 1).process = some userProcessId :=
    congrArg Thread.process hfirst
  have hother : ∀ i, i ≠ 0 → k.processes i = .empty := by
    intro i hi
    rw [hprocesses, put_other hi]
  have hmain : ∀ i, (k.processes i).mainThread = none := by
    intro i
    by_cases h0 : i = 0
    · rw [h0, hprocesses, put_same]
    · rw [hother i h0]
      rfl
  refine ⟨⟨⟨?_, hprocess⟩, fun i _ => ?_, fun t p _ hp => ?_, fun i hpos _ hid => ?_,
    fun i _ hid => ?_⟩, ?_⟩
  · exact fun heq => nomatch hstate.symm.trans heq
  · rw [hmain]
    exact fun heq => nomatch heq
  · rcases slot_cases t with rfl | rfl | hge
    · rw [h.idle_field Thread.process fun _ => rfl] at hp
      cases hp
    · rw [hprocess] at hp
      exact .inl (Option.some.inj hp).symm
    · rw [h.other hge Thread.process fun _ => rfl] at hp
      cases hp
  · rw [hother i (Nat.one_le_iff_ne_zero.mp hpos)] at hid
    exact absurd rfl hid
  · by_cases h0 : i = 0
    · rw [h0, hprocesses, put_same]
    · rw [hother i h0] at hid
      exact absurd rfl hid
  · unfold Running
    rw [h.currentThread]
    exact fun heq => nomatch hstate.symm.trans heq

/-- There are no orphans and no parent cycles. -/
structure NoOrphans (k : Kernel) : Prop where
  /-- the parent is a live process whose main thread has not exited -/
  parent : ∀ slot, 1 ≤ slot → slot < maxProcesses →
    (k.processes slot).id ≠ noThread → ∃ p, (k.processes slot).parent = some p ∧
      k.Alive p
  /-- the parents lead to PID 1 -/
  rooted : ∀ slot, slot < maxProcesses → (k.processes slot).id ≠ noThread →
    Relation.ReflTransGen k.IsChild (k.processes slot).id userProcessId
  /-- the parent finds the main thread of an exited child when it waits -/
  collectable : ∀ slot, 1 ≤ slot → slot < maxProcesses →
    (k.processes slot).id ≠ noThread → ∃ p, k.Alive p ∧
      k.childMainThread (k.processes slot).id p = (k.processes slot).mainThread
  /-- a pid that is free is nobody's parent -/
  fresh : ∀ slot < maxProcesses, (k.processes slot).id = noThread →
    ∀ p, ¬ k.IsChild p (slot + 1)

theorem Family.withoutOrphans (h : k.Family) (hw : k.Records) : k.NoOrphans where
  parent := h.parent
  rooted := h.rooted
  collectable slot hpos hslot hused := by
    obtain ⟨p, hp, halive⟩ := h.parent slot hpos hslot hused
    refine ⟨p, halive, ?_⟩
    have hsome : (k.findRecord fun record =>
        record.id == (k.processes slot).id && record.parent == some p).isSome := by
      unfold findRecord
      rw [List.find?_isSome]
      refine ⟨slot, List.mem_range.mpr hslot, ?_⟩
      rw [Bool.and_eq_true, beq_iff_eq, beq_iff_eq]
      exact ⟨rfl, hp⟩
    obtain ⟨i, hi⟩ := Option.isSome_iff_exists.mp hsome
    obtain ⟨hlt, htest⟩ := findRecord_some hi
    rw [Bool.and_eq_true, beq_iff_eq, beq_iff_eq] at htest
    obtain rfl := hw.slot_unique hlt hslot htest.1 (by rwa [htest.1])
    unfold childMainThread
    rw [hi]
    rfl
  fresh slot hslot hfree p hchild := by
    obtain ⟨i, hi, -, hparent⟩ := hchild
    have hpos : 1 ≤ i := by
      refine Nat.one_le_iff_ne_zero.mpr ?_
      rintro rfl
      rw [hw.first.2.1] at hparent
      cases hparent
    have hused : (k.processes i).id ≠ noThread := by
      intro hfree'
      rw [hw.empty_of_free hi hfree'] at hparent
      cases hparent
    obtain ⟨q, hq, s, hs, hid, t, hmain, -⟩ := h.parent i hpos hi hused
    rw [hparent] at hq
    obtain rfl := Option.some.inj hq
    rcases hw.shape s hs with hempty | hshape
    · rw [hempty] at hid
      exact pid_ne_noThread hslot hid.symm
    · rw [hshape] at hid
      obtain rfl : s = slot := Nat.succ.inj hid
      rw [hfree] at hshape
      exact pid_ne_noThread hslot hshape.symm

end Runs

/-- Processes have parents in every run that keeps families. -/
theorem noOrphans {memory : Memory} {k : Kernel}
    (h : ReachedFrom memory KeepsFamilies k) : k.NoOrphans := by
  obtain ⟨hw, hfamily, -⟩ := h.invariant (fun k => k.Family ∧ k.Running)
    (fun _ hk => hk.family) fun _ _ _ hw hk hguard hstep =>
      ⟨hk.1.step hk.2 hw hguard hstep, hk.2.step hw hguard hstep⟩
  exact hfamily.withoutOrphans hw.toRecords

instance (k : Kernel) (t : ThreadId) : Decidable (k.Leaf t) :=
  inferInstanceAs (Decidable (_ ∨ ∀ slot < maxProcesses, ∀ p ∈ _, _))

instance (k : Kernel) : DecidablePred k.FindsEnded := fun c =>
  match c with
  | .waiting _ _ =>
    inferInstanceAs (Decidable (_ → ∀ slot < maxProcesses, _ → ∀ u ∈ _, _))
  | .trampoline | .yielded | .blocked | .sleeping _ | .futexWaiting _ _
  | .joining _ | .finished => inferInstanceAs (Decidable True)

instance (k : Kernel) : DecidablePred k.KeepsFamilies := fun a =>
  match a with
  | .exit _ => inferInstanceAs (Decidable (_ ∧ (_ ∨ ∀ slot ∈ _, _)))
  | .terminateProcess _ => inferInstanceAs (Decidable (∀ t ∈ _, _))
  | .resume => inferInstanceAs (Decidable (∀ c ∈ _, _))
  | .tick | .yieldNow | .join _ | .sleep _ | .threadCreate _ _ _ | .brk _
  | .futexWait _ _ _ _ | .futexWake _ _ | .processSpawn _ _ _ | .waitProcess _
  | .tryWaitProcess _ | .reapAnyChild _ | .spawn _ | .blockCurrent | .wake _ =>
    inferInstanceAs (Decidable (_ = false))

set_option maxRecDepth 100000 in
/-- A run in which a child exits before its own child does. -/
theorem noOrphans_adopted : ∃ k : Kernel, k.NoOrphans ∧
    k.IsChild 3 userProcessId := by
  have hrun : ((boot plainMemory smallImage).bind (exec step KeepsFamilies
      [.resume, .spawnSmall, .yieldNow, .resume, .yieldNow, .resume, .spawnSmall,
        .exit 0])).any
      fun k => (k.processes 2).id == 3 &&
        (k.processes 2).parent == some userProcessId := by
    decide +kernel
  obtain ⟨k, hk, hfound⟩ := ReachedFrom.of_exec hrun
  rw [Bool.and_eq_true, beq_iff_eq, beq_iff_eq] at hfound
  exact ⟨k, noOrphans hk, 2, by decide, hfound⟩

/-- PID 1 does not exit. -/
def InitStays (k : Kernel) : Action → Prop
  | .exit _ => k.currentThread ≠ initThread
  | _ => True

instance (k : Kernel) : DecidablePred k.InitStays := fun a =>
  match a with
  | .exit _ => inferInstanceAs (Decidable (_ ≠ _))
  | .resume | .tick | .yieldNow | .join _ | .sleep _ | .threadCreate _ _ _
  | .brk _ | .futexWait _ _ _ _ | .futexWake _ _ | .processSpawn _ _ _
  | .waitProcess _ | .tryWaitProcess _ | .reapAnyChild _ | .terminateProcess _
  | .spawn _ | .blockCurrent | .wake _ => inferInstanceAs (Decidable True)

set_option maxRecDepth 100000 in
/-- PID 1 terminates a child that has a child of its own. -/
theorem orphan : ∃ k, ReachedFrom plainMemory InitStays k ∧ ¬ k.NoOrphans := by
  have hrun : ((boot plainMemory smallImage).bind (exec step InitStays
      [.resume, .spawnSmall, .yieldNow, .resume, .yieldNow, .resume, .spawnSmall,
        .yieldNow, .resume, .terminateProcess 2])).any
      fun k => (k.processes 2).id == 3 && (k.processes 2).parent == some 2 &&
        (k.processes 1).mainThread == some 2 && (k.threads 2).state == .exited &&
        (List.range maxProcesses).all fun slot =>
          slot == 1 || (k.processes slot).id != 2 := by
    decide +kernel
  obtain ⟨k, hk, hfound⟩ := ReachedFrom.of_exec hrun
  simp only [Bool.and_eq_true, beq_iff_eq, List.all_eq_true, List.mem_range,
    Bool.or_eq_true, bne_iff_ne] at hfound
  obtain ⟨⟨⟨⟨hid, hparent⟩, hmain⟩, hexited⟩, hslot⟩ := hfound
  refine ⟨k, hk, fun h => ?_⟩
  obtain ⟨p, hp, slot, hlt, hpid, t, ht, -, hlive⟩ :=
    h.parent 2 (by decide) (by decide) (by rw [hid]; decide)
  rw [hparent] at hp
  obtain rfl := Option.some.inj hp
  rcases hslot slot hlt with rfl | hne
  · unfold IsMain at ht
    rw [if_neg (by decide), hmain] at ht
    obtain rfl := Option.some.inj ht
    exact hlive hexited
  · exact hne hpid

end Kernel

end OpenKernel
