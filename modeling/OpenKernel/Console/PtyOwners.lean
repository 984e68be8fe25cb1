import OpenKernel.Console.PtySessions

/-!
# Owners of a pseudo-terminal

The owner of a pair is the pid of the process that opened it.  The master
calls compare pids, so a pair is controlled by its opener as long as no process
is collected that owns a pair or still runs: nothing closes the pairs of a
process that is gone.
-/

namespace OpenKernel

open Lib Kernel

namespace Traced

/-- The pair is controlled by the process that opened it, and this process has
not been collected. -/
structure OpenersOnly (s : Traced) (id : Nat) : Prop where
  read : ∀ buffer length, (s.readMaster id buffer length).1.isSome →
    s.caller = (s.history id).opener
  write : ∀ buffer input, (s.writeMaster id buffer input).1.isSome →
    s.caller = (s.history id).opener
  close : (s.closePty id).1 = true → s.caller = (s.history id).opener
  alive : (s.ptys id).allocated = true → ∃ p,
    (s.history id).opener = some (s.kernel.presentInstance p) ∧
      s.kernel.HasRecord p

/-- A process that is collected owns no pair, and none of its threads can
run. -/
def CollectsOwnerless (s : Traced) : TerminalAction → Prop
  | .kernel a => ∀ slot < maxProcesses, s.kernel.Clears a slot →
    s.kernel.Quiescent (slot + 1) ∧ ∀ id < ptyCount,
      (s.ptys id).allocated = true → (s.ptys id).owner ≠ some (slot + 1)
  | _ => True

instance (k : Kernel) : DecidablePred k.Quiescent := fun p =>
  inferInstanceAs (Decidable (∀ t < maxThreads, (k.threads t).process = some p →
    ¬ (t = k.currentThread ∨ (k.threads t).state ≠ .exited)))

instance (s : Traced) : DecidablePred s.CollectsOwnerless := fun a =>
  match a with
  | .kernel a =>
    inferInstanceAs (Decidable (∀ slot < maxProcesses, s.kernel.Clears a slot →
      s.kernel.Quiescent (slot + 1) ∧ ∀ id < ptyCount,
        (s.ptys id).allocated = true → (s.ptys id).owner ≠ some (slot + 1)))
  | .openPty | .closePty _ | .readMaster _ _ _ | .writeMaster _ _ _
  | .attachSlave _ | .bindTty _ | .consoleWrite _ | .pollKey =>
    inferInstanceAs (Decidable True)

/-- The invariant: threads that can run belong to processes that have a
record, and so do the owners of open pairs, who opened them. -/
structure Owned (s : Traced) : Prop where
  settled : s.kernel.Settled
  owner : ∀ id, (s.ptys id).allocated = true → id < ptyCount ∧
    ∃ p, (s.ptys id).owner = some p ∧
      (s.history id).opener = some (s.kernel.presentInstance p) ∧
      s.kernel.HasRecord p

variable {s s' : Traced}

/-- The current thread belongs to the process that has its pid now. -/
theorem Owned.caller (h : s.Owned) {p : ProcessId}
    (hcurrent : s.ownerProcess = some p) :
    s.caller = some (s.kernel.presentInstance p) ∧ s.kernel.HasRecord p := by
  have hprocess : (s.kernel.threads s.kernel.currentThread).process = some p := by
    unfold Terminals.ownerProcess Kernel.currentProcess at hcurrent
    split at hcurrent
    · cases hcurrent
    · exact hcurrent
  obtain ⟨hrecord, hinstance⟩ := h.settled _ p hprocess (.inl rfl)
  exact ⟨hinstance, hrecord⟩

theorem Owned.booted {k : Kernel} (hk : k.Booted) : (booted k).Owned where
  settled := hk.settled
  owner _ hopen := by cases hopen

theorem Owned.kernel (h : s.Owned) (hw : s.kernel.WellFormed) {a : Action}
    {k : Kernel} (hguard : s.CollectsOwnerless (.kernel a))
    (hstep : s.kernel.step a = some k) (consoles : Nat → ConsoleTarget) :
    Owned { s with kernel := k, consoles := consoles } := by
  refine ⟨h.settled.step hw (fun slot hslot hclears =>
    (hguard slot hslot hclears).1) hstep, fun id hopen => ?_⟩
  obtain ⟨hid, p, howner, hopener, hrecord⟩ := h.owner id hopen
  have hkept : ∀ slot < maxProcesses, p = slot + 1 →
      ¬ s.kernel.Clears a slot := by
    intro slot hslot hp hclears
    exact (hguard slot hslot hclears).2 id hid hopen (hp ▸ howner)
  obtain ⟨hrecord', hpresent⟩ := hrecord.step hw hstep hkept
  exact ⟨hid, p, howner, hpresent ▸ hopener, hrecord'⟩

theorem Owned.attached (h : s.Owned) (id : Nat) :
    Owned { s with
      toTerminals := s.bindPty id
      history := put s.history id
        { s.history id with
          attached := s.caller :: (s.history id).attached } } := by
  refine ⟨h.settled, fun other hopen => ?_⟩
  obtain ⟨hid, p, howner, hopener, hrecord⟩ := h.owner other hopen
  refine ⟨hid, p, howner, ?_, hrecord⟩
  refine Eq.trans ?_ hopener
  by_cases hother : other = id
  · subst hother
    show (put s.history other _ other).opener = _
    rw [put_same]
  · exact congrArg PtyHistory.opener (put_other hother)

theorem Owned.bound (h : s.Owned) (tty : Nat) :
    Owned { s with toTerminals := s.bindTty tty } :=
  ⟨h.settled, h.owner⟩

theorem Owned.made (h : s.Owned) {a : TerminalAction} {call : PtyCall}
    (hpool : s.poolCall a = some call) : (s.make call).Owned := by
  refine ⟨h.settled, fun id hopen => ?_⟩
  cases hopens : s.opens call id with
  | true =>
    obtain ⟨⟨caller, rfl⟩, -⟩ := opens_spec hopens
    have hcaller : caller = s.ownerProcess := by
      cases a with
      | openPty => exact (PtyCall.openPty.inj (Option.some.inj hpool)).symm
      | closePty | kernel | attachSlave | bindTty => cases hpool
      | readMaster | writeMaster | consoleWrite | pollKey =>
        simp only [poolCall] at hpool
        split at hpool <;> cases hpool
    have hnew : (s.ptys.openPty caller).1 = some id := by
      simpa [opens] using hopens
    obtain ⟨hid, -, -, howner, -⟩ := Ptys.openPty_of_some (Prod.ext hnew rfl)
    obtain ⟨p, hp⟩ : ∃ p, caller = some p := by
      cases caller with
      | none => cases hnew
      | some p => exact ⟨p, rfl⟩
    obtain ⟨hopener, hrecord⟩ := h.caller (hcaller ▸ hp)
    refine ⟨hid, p, howner.trans hp, ?_, hrecord⟩
    simp [make, hopens, PtyHistory.start, hopener]
  | false =>
    obtain ⟨hopen', -, hsame⟩ := allocated_make hopens hopen
    obtain ⟨hid, p, howner, hopener, hrecord⟩ := h.owner id hopen'
    refine ⟨hid, p, hsame.trans howner, ?_, hrecord⟩
    rw [history_make hopens]
    exact hopener

theorem Owned.step (h : s.Owned) (hw : s.kernel.WellFormed)
    {a : TerminalAction} (hguard : s.CollectsOwnerless a)
    (heffect : s.Effect a s') : s'.Owned := by
  cases heffect with
  | kernel hstep => exact h.kernel hw hguard hstep _
  | attached => exact h.attached _
  | bound => exact h.bound _
  | made hcall hpool => exact h.made hpool
  | same => exact h

/-- Who passes the owner check of a pair has opened it. -/
theorem Owned.opener (h : s.Owned) {id : Nat}
    (howns : s.ptys.owns s.ownerProcess id = true) :
    s.caller = (s.history id).opener := by
  simp only [Ptys.owns, Bool.and_eq_true, beq_iff_eq] at howns
  obtain ⟨⟨⟨hsome, -⟩, hopen⟩, howner⟩ := howns
  obtain ⟨-, p, hp, hopener, -⟩ := h.owner id hopen
  rw [hopener]
  exact (h.caller (howner.symm.trans hp)).1

theorem Owned.openersOnly (h : s.Owned) (id : Nat) : s.OpenersOnly id where
  read buffer length hread := by
    apply h.opener
    unfold Terminals.readMaster Ptys.readMaster at hread
    split at hread
    · by_contra howns
      simp [howns] at hread
    · cases hread
  write buffer input hwrite := by
    apply h.opener
    unfold Terminals.writeMaster Ptys.writeMaster at hwrite
    split at hwrite
    · by_contra howns
      simp [howns] at hwrite
    · cases hwrite
  close hclose := by
    apply h.opener
    unfold Terminals.closePty Ptys.close at hclose
    by_contra howns
    simp [howns] at hclose
  alive hopen := by
    obtain ⟨-, p, -, hopener, hrecord⟩ := h.owner id hopen
    exact ⟨p, hopener, hrecord⟩

end Traced

/-- While no process is collected that owns a pair or can still run, only the
process that opened a pair controls it, and no pair is left to a process that
is gone. -/
theorem pty_master_opener_only {memory : Memory} {s : Traced}
    (h : Traced.ReachedFrom memory Traced.CollectsOwnerless s) (id : Nat) :
    s.OpenersOnly id := by
  obtain ⟨-, howned⟩ := h.invariant Traced.Owned
    (fun _ hk => Traced.Owned.booted hk)
    fun _ _ _ hw hs hguard heffect => hs.step hw hguard heffect
  exact howned.openersOnly id

set_option maxRecDepth 100000 in
/-- PID 1 reads a pair that it has opened. -/
theorem pty_master_opener_only_read : ∃ s : Traced, s.OpenersOnly 0 ∧
    (s.readMaster 0 futureUserSpaceBase 1).1.isSome := by
  have hrun : (((Kernel.boot plainMemory smallImage).map Traced.booted).bind
      (exec Traced.step Traced.CollectsOwnerless
        [.kernel .resume, .openPty])).any
      fun s => (s.readMaster 0 futureUserSpaceBase 1).1.isSome := by
    decide +kernel
  obtain ⟨s, hs, hread⟩ := Traced.ReachedFrom.of_exec hrun
  exact ⟨s, pty_master_opener_only hs 0, hread⟩

set_option maxRecDepth 100000 in
/-- A child opens a pair and exits, its parent collects it, and the next child
gets its pid, and with it the pair. -/
theorem pty_inherited : ∃ s, Traced.ReachedFrom plainMemory Always s ∧
    ¬ s.OpenersOnly 0 := by
  have hrun : (((Kernel.boot plainMemory smallImage).map Traced.booted).bind
      (exec Traced.step Always [.kernel .resume, .kernel .spawnSmall,
        .kernel .yieldNow, .kernel .resume, .kernel .yieldNow, .kernel .resume,
        .openPty, .kernel (.exit 0), .kernel .resume,
        .kernel (.tryWaitProcess 2), .kernel .spawnSmall,
        .kernel .yieldNow, .kernel .resume])).any
      fun s => (s.readMaster 0 futureUserSpaceBase 1).1.isSome &&
        s.caller == some ⟨2, 2⟩ && (s.history 0).opener == some ⟨2, 1⟩ := by
    decide +kernel
  obtain ⟨s, hs, hfound⟩ := Traced.ReachedFrom.of_exec hrun
  simp only [Bool.and_eq_true, beq_iff_eq] at hfound
  obtain ⟨⟨hread, hcaller⟩, hopener⟩ := hfound
  refine ⟨s, hs, fun h => ?_⟩
  have hsame := h.read _ _ hread
  rw [hcaller, hopener] at hsame
  cases hsame

end OpenKernel
