import OpenKernel.Console.Terminals
import OpenKernel.Kernel.Instances

/-!
# Sessions of a pseudo-terminal

The kernel and its pseudo-terminals run together here.  A session of a pair
goes from the `open` that returns it to its `close`; `PtyHistory` records who
opened it, who has attached to it since, and which bytes have passed through
it.

A console binding is a bare index, which stays when the pair is closed and
opened again: a session is sealed off from the ones before it as long as no
process has its console bound to a pair that is opened
(`pty_sessions_isolated`).
-/

namespace OpenKernel

open Lib Kernel

/-- A party is the process instance of a thread. -/
abbrev Party := Option ProcessInstance

/-- The session that a pair is in, or the last one that it was in. -/
structure PtyHistory where
  opener : Party
  attached : List Party
  written : List (Party × UInt8)
  read : List UInt8
  injected : List UInt8
  polled : List (Party × UInt8)

namespace PtyHistory

/-- A session that has just begun. -/
def start (opener : Party) : PtyHistory :=
  { opener
    attached := []
    written := []
    read := []
    injected := []
    polled := [] }

/-- The bytes that a call of `caller` moves. -/
def extend (h : PtyHistory) (caller : Party) (ptys : Ptys) (id : Nat)
    (call : PtyCall) : PtyHistory :=
  { h with
    written := h.written ++ (call.sentToMaster ptys id).map (caller, ·)
    read := h.read ++ call.readFrom ptys id
    injected := h.injected ++ call.sentToSlave ptys id
    polled := h.polled ++ (call.polledFrom ptys id).map (caller, ·) }

/-- Only parties that have attached in this session are on the slave side. -/
structure Isolated (h : PtyHistory) : Prop where
  /-- the bytes read are the first of those written -/
  read : h.read <+: h.written.map Prod.snd
  /-- the bytes polled are the first of those injected -/
  polled : h.polled.map Prod.snd <+: h.injected
  writers : ∀ byte ∈ h.written, byte.1 ∈ h.attached
  pollers : ∀ byte ∈ h.polled, byte.1 ∈ h.attached

end PtyHistory

/-- The terminals with the history of every pair. -/
structure Traced extends Terminals where
  history : Nat → PtyHistory

/-- What happens next: a step of the kernel, or a call of the current
thread. -/
inductive TerminalAction
  | kernel (a : Action)
  | openPty
  | closePty (id : Nat)
  | readMaster (id buffer length : Nat)
  | writeMaster (id buffer : Nat) (input : List UInt8)
  | attachSlave (id : Nat)
  | bindTty (tty : Nat)
  | consoleWrite (bytes : List UInt8)
  | pollKey

namespace Traced

/-- The party of the current thread. -/
def caller (s : Traced) : Party := s.kernel.instanceOf s.kernel.currentThread

/-- Whether the current thread is in user mode. -/
def canCall (s : Traced) : Bool :=
  s.kernel.resuming.isNone && (s.kernel.threads s.kernel.currentThread).isUser

/-- The call on the pool that a syscall makes. -/
def poolCall (s : Traced) : TerminalAction → Option PtyCall
  | .openPty => some (.openPty s.ownerProcess)
  | .closePty id => some (.close s.ownerProcess id)
  | .readMaster id buffer length =>
    if Kernel.userBytes buffer length 256 then
      some (.readMaster s.ownerProcess id length)
    else none
  | .writeMaster id buffer input =>
    if Kernel.userBytes buffer input.length 256 then
      some (.writeMaster s.ownerProcess id input)
    else none
  | .consoleWrite bytes =>
    match s.consoleTarget with
    | .pty id => some (.slaveWrite id bytes)
    | .tty _ => none
  | .pollKey =>
    match s.consoleTarget with
    | .pty id => some (.slavePollKey id)
    | .tty _ => none
  | .kernel _ | .attachSlave _ | .bindTty _ => none

/-- Whether the call is the `open` that returns this pair. -/
def opens (s : Traced) (call : PtyCall) (id : Nat) : Bool :=
  match call with
  | .openPty caller => (s.ptys.openPty caller).1 == some id
  | _ => false

/-- Make a call on the pool. -/
def make (s : Traced) (call : PtyCall) : Traced :=
  { s with
    ptys := call.apply s.ptys
    history := fun id =>
      if s.opens call id then .start s.caller
      else (s.history id).extend s.caller s.ptys id call }

/-- `user::spawn` resets the console of a process as soon as it has its
record. -/
def consolesAfter (s : Traced) (k : Kernel) (slot : Nat) : ConsoleTarget :=
  if k.presentInstance (slot + 1) = s.kernel.presentInstance (slot + 1) then
    s.consoles slot
  else .tty 0

/-- `syscall_pty_attach_slave`. -/
def attach (s : Traced) (id : Nat) : Traced :=
  if s.ptys.isOpen id then
    { s with
      toTerminals := s.bindPty id
      history := put s.history id
        { s.history id with attached := s.caller :: (s.history id).attached } }
  else s

/-- One step. -/
def step (s : Traced) : TerminalAction → Option Traced
  | .kernel a =>
    (s.kernel.step a).map fun k =>
      { s with kernel := k, consoles := s.consolesAfter k }
  | .attachSlave id => if s.canCall then some (s.attach id) else none
  | .bindTty tty =>
    if s.canCall then some { s with toTerminals := s.bindTty tty } else none
  | a =>
    if s.canCall then some ((s.poolCall a).elim s s.make) else none

/-- The terminals when the kernel has booted. -/
def booted (k : Kernel) : Traced :=
  { kernel := k
    ptys := .empty
    consoles := fun _ => .tty 0
    history := fun _ => .start none }

/-- The states that a machine with this memory at boot can reach when each
action meets `guard` in the state before it. -/
def ReachedFrom (memory : Memory) (guard : Traced → TerminalAction → Prop)
    (s : Traced) : Prop :=
  ∃ image k, Kernel.boot memory image = some k ∧
    Run step guard (booted k) s

end Traced

namespace Traced

/-- The ways in which a step can change the terminals. -/
inductive Effect (s : Traced) : TerminalAction → Traced → Prop
  | kernel {a : Action} {k : Kernel} (hstep : s.kernel.step a = some k) :
      Effect s (.kernel a) { s with kernel := k, consoles := s.consolesAfter k }
  | attached {id : Nat} (hcall : s.canCall = true)
      (hopen : s.ptys.isOpen id = true) :
      Effect s (.attachSlave id)
        { s with
          toTerminals := s.bindPty id
          history := put s.history id
            { s.history id with
              attached := s.caller :: (s.history id).attached } }
  | bound {tty : Nat} (hcall : s.canCall = true) :
      Effect s (.bindTty tty) { s with toTerminals := s.bindTty tty }
  | made {a : TerminalAction} {call : PtyCall} (hcall : s.canCall = true)
      (hpool : s.poolCall a = some call) : Effect s a (s.make call)
  | same {a : TerminalAction} : Effect s a s

/-- The inversion lemma of `step`. -/
theorem step_effect {s s' : Traced} {a : TerminalAction}
    (h : s.step a = some s') : s.Effect a s' := by
  have hmade : ∀ {a : TerminalAction},
      (if s.canCall then some ((s.poolCall a).elim s s.make) else none) =
        some s' → s.Effect a s' := by
    intro a h
    split at h
    · rename_i hcall
      obtain rfl := Option.some.inj h
      cases hpool : s.poolCall a with
      | none => exact .same
      | some call => exact .made hcall hpool
    · cases h
  cases a with
  | kernel a =>
    obtain ⟨k, hstep, rfl⟩ := Option.map_eq_some_iff.mp h
    exact .kernel hstep
  | attachSlave id =>
    simp only [step] at h
    split at h
    · rename_i hcall
      obtain rfl := Option.some.inj h
      unfold attach
      split
      · rename_i hopen
        exact .attached hcall hopen
      · exact .same
    · cases h
  | bindTty tty =>
    simp only [step] at h
    split at h
    · rename_i hcall
      obtain rfl := Option.some.inj h
      exact .bound hcall
    · cases h
  | openPty => exact hmade h
  | closePty id => exact hmade h
  | readMaster id buffer length => exact hmade h
  | writeMaster id buffer input => exact hmade h
  | consoleWrite bytes => exact hmade h
  | pollKey => exact hmade h

/-- The invariant rule. -/
theorem ReachedFrom.invariant {memory : Memory}
    {guard : Traced → TerminalAction → Prop} {s : Traced} (Inv : Traced → Prop)
    (h : ReachedFrom memory guard s)
    (hboot : ∀ k, k.Booted → Inv (booted k))
    (hstep : ∀ s a s', s.kernel.WellFormed → Inv s → guard s a →
      s.Effect a s' → Inv s') : s.kernel.WellFormed ∧ Inv s := by
  obtain ⟨image, k, hk, hrun⟩ := h
  have hbooted := Kernel.boot_booted hk
  have hkeeps : ∀ s a s', s.kernel.WellFormed ∧ Inv s → guard s a →
      s.step a = some s' → s'.kernel.WellFormed ∧ Inv s' := by
    rintro s a s' ⟨hw, hinv⟩ hguard hnext
    have heffect := step_effect hnext
    refine ⟨?_, hstep s a s' hw hinv hguard heffect⟩
    cases heffect with
    | kernel hkernel => exact hw.step hkernel
    | attached | bound | made | same => exact hw
  exact hrun.invariant (fun s => s.kernel.WellFormed ∧ Inv s) hkeeps
    ⟨hbooted.wellFormed, hboot k hbooted⟩

/-- A run on a given list of actions. -/
theorem ReachedFrom.of_exec {memory : Memory}
    {guard : Traced → TerminalAction → Prop} [∀ s a, Decidable (guard s a)]
    {image : List UInt8} {actions : List TerminalAction} {p : Traced → Bool}
    (h : (((Kernel.boot memory image).map booted).bind
      (exec step guard actions)).any p) :
    ∃ s, ReachedFrom memory guard s ∧ p s = true := by
  obtain ⟨s, hs, hp⟩ := (Option.any_eq_true _ _).mp h
  obtain ⟨s₀, hs₀, hexec⟩ := Option.bind_eq_some_iff.mp hs
  obtain ⟨k, hk, rfl⟩ := Option.map_eq_some_iff.mp hs₀
  exact ⟨s, ⟨image, k, hk, run_of_exec hexec⟩, hp⟩

end Traced

/-! ## Calls on a pair -/

namespace PtyCall

variable {ptys : Ptys} {id : Nat} {call : PtyCall}

/-- Nothing passes through a pair that is closed. -/
theorem moves_nothing (h : (ptys id).allocated = false) :
    call.sentToMaster ptys id = [] ∧ call.readFrom ptys id = [] ∧
      call.sentToSlave ptys id = [] ∧ call.polledFrom ptys id = [] := by
  have howns : ∀ caller, ptys.owns caller id = false := by
    intro caller
    simp [Ptys.owns, h]
  have hisOpen : ptys.isOpen id = false := by
    simp [Ptys.isOpen, h]
  cases call <;>
    simp [sentToMaster, readFrom, sentToSlave, polledFrom, Ptys.readMaster,
      Ptys.writeMaster, Ptys.slaveWrite, Ptys.slavePollKey, howns, hisOpen]

/-- Only an `open` allocates a pair and gives it an owner. -/
theorem allocated_apply (h : (call.apply ptys id).allocated = true) :
    ((ptys id).allocated = true ∧ call.KeepsOpen id ptys ∧
        (call.apply ptys id).owner = (ptys id).owner) ∨
      ∃ caller, call = .openPty caller ∧
        (ptys.openPty caller).1 = some id := by
  -- The other calls write a ring of one pair.
  have hring : ∀ {i : Nat} {pty : Pty},
      (put ptys i pty id).allocated = true →
      pty.allocated = (ptys i).allocated → pty.owner = (ptys i).owner →
      (ptys id).allocated = true ∧ (put ptys i pty id).owner = (ptys id).owner := by
    intro i pty hput hpty howner
    by_cases hi : id = i
    · rw [hi, put_same, hpty] at hput
      rw [hi, put_same]
      exact ⟨hput, howner⟩
    · rw [put_other hi] at hput ⊢
      exact ⟨hput, rfl⟩
  cases call with
  | openPty caller =>
    simp only [apply] at h ⊢
    cases hnew : ptys.openPty caller with
    | mk result opened =>
      rw [hnew] at h
      cases result with
      | none =>
        have hsame : opened = ptys := by
          unfold Ptys.openPty at hnew
          split at hnew
          · cases hnew
          · exact (Prod.mk.inj hnew).2.symm
        rw [hsame] at h ⊢
        exact .inl ⟨h, trivial, rfl⟩
      | some new =>
        by_cases hid : new = id
        · exact .inr ⟨caller, rfl, by rw [hnew, hid]⟩
        · obtain ⟨-, -, -, -, -, -, hother⟩ := Ptys.openPty_of_some hnew
          dsimp only at h ⊢
          rw [hother id (Ne.symm hid)] at h ⊢
          exact .inl ⟨h, trivial, rfl⟩
  | close caller i =>
    simp only [apply, Ptys.close] at h ⊢
    by_cases howns : ptys.owns caller i = true
    · rw [if_pos howns] at h ⊢
      dsimp only at h ⊢
      have hi : id ≠ i := by
        rintro rfl
        simp at h
      rw [put_other hi] at h ⊢
      exact .inl ⟨h, fun heq => absurd heq.symm hi, rfl⟩
    · rw [if_neg howns] at h ⊢
      refine .inl ⟨h, fun heq => ?_, rfl⟩
      subst heq
      rw [Ptys.close, if_neg howns]
  | readMaster caller i length =>
    simp only [apply, Ptys.readMaster] at h ⊢
    split at h
    · rename_i howns
      rw [if_pos howns]
      have hkept := hring h rfl rfl
      exact .inl ⟨hkept.1, trivial, hkept.2⟩
    · rename_i howns
      rw [if_neg howns]
      exact .inl ⟨h, trivial, rfl⟩
  | writeMaster caller i input =>
    simp only [apply, Ptys.writeMaster] at h ⊢
    split at h
    · rename_i howns
      rw [if_pos howns]
      have hkept := hring h rfl rfl
      exact .inl ⟨hkept.1, trivial, hkept.2⟩
    · rename_i howns
      rw [if_neg howns]
      exact .inl ⟨h, trivial, rfl⟩
  | slaveWrite i bytes =>
    simp only [apply, Ptys.slaveWrite] at h ⊢
    split at h
    · rename_i hopen
      rw [if_pos hopen]
      have hkept := hring h rfl rfl
      exact .inl ⟨hkept.1, trivial, hkept.2⟩
    · rename_i hopen
      rw [if_neg hopen]
      exact .inl ⟨h, trivial, rfl⟩
  | slavePollKey i =>
    simp only [apply, Ptys.slavePollKey] at h ⊢
    split at h
    · rename_i hopen
      rw [if_pos hopen]
      have hkept := hring h rfl rfl
      exact .inl ⟨hkept.1, trivial, hkept.2⟩
    · rename_i hopen
      rw [if_neg hopen]
      exact .inl ⟨h, trivial, rfl⟩

end PtyCall

/-! ## Sessions do not leak into one another -/

namespace Traced

variable {s s' : Traced}

/-- The current thread in user mode has a pid, and its console is that of
the pid. -/
theorem caller_slot (hw : s.kernel.WellFormed) (hcall : s.canCall = true) :
    ∃ slot < maxProcesses, s.kernel.currentProcess = some (slot + 1) ∧
      s.kernel.currentStateSlot = slot := by
  have huser := (Bool.and_eq_true_iff.mp hcall).2
  obtain ⟨slot, hslot, hprocess⟩ := hw.userProcess _ huser
  have hcurrent : s.kernel.currentProcess = some (slot + 1) := by
    have hlt := hw.current_lt
    rw [Kernel.currentProcess, if_neg, hprocess]
    exact not_or.mpr ⟨hw.ne_noThread, Nat.not_le.mpr hlt⟩
  refine ⟨slot, hslot, hcurrent, ?_⟩
  rw [Kernel.currentStateSlot, hcurrent]
  unfold maxProcesses maxThreads at hslot
  simp only [Option.getD_some]
  omega

/-- The process of the current thread still holds its pid. -/
def HoldsPid (s : Traced) : Prop :=
  ∃ slot < maxProcesses, s.kernel.currentProcess = some (slot + 1) ∧
    s.kernel.HasRecord (slot + 1) ∧ s.caller = some (s.kernel.presentInstance (slot + 1))

instance (s : Traced) : Decidable s.HoldsPid :=
  inferInstanceAs (Decidable (∃ slot < maxProcesses, _))

/-- A pair is opened while the console of no process is bound to it, and who
attaches to a pair, or reads or writes a console, belongs to the process that has
its pid now.  What a process that is gone has left in its slot does not matter. -/
def BindsAfresh (s : Traced) : TerminalAction → Prop
  | .openPty => ∀ id ∈ s.ptys.freeEntry, ∀ slot < maxProcesses,
      s.kernel.HasRecord (slot + 1) → s.consoles slot ≠ .pty id
  | .attachSlave _ | .consoleWrite _ | .pollKey => s.HoldsPid
  | _ => True

instance (s : Traced) : DecidablePred s.BindsAfresh := fun a =>
  match a with
  | .openPty =>
    inferInstanceAs (Decidable (∀ id ∈ s.ptys.freeEntry, ∀ slot < maxProcesses,
      s.kernel.HasRecord (slot + 1) → s.consoles slot ≠ .pty id))
  | .attachSlave _ | .consoleWrite _ | .pollKey =>
    inferInstanceAs (Decidable s.HoldsPid)
  | .kernel _ | .closePty _ | .readMaster _ _ _ | .writeMaster _ _ _
  | .bindTty _ => inferInstanceAs (Decidable True)

/-- The invariant: each process that is bound to an open pair has attached to it,
and the history of an open pair accounts for its rings. -/
structure Sealed (s : Traced) : Prop where
  bound : ∀ slot < maxProcesses, s.kernel.HasRecord (slot + 1) → ∀ id,
    s.consoles slot = .pty id → (s.ptys id).allocated = true →
      some (s.kernel.presentInstance (slot + 1)) ∈ (s.history id).attached
  toMaster : ∀ id, (s.ptys id).allocated = true →
    (s.history id).written.map Prod.snd =
      (s.history id).read ++ (s.ptys id).toMaster.contents
  toSlave : ∀ id, (s.ptys id).allocated = true →
    (s.history id).injected =
      (s.history id).polled.map Prod.snd ++ (s.ptys id).toSlave.contents
  isolated : ∀ id, (s.history id).Isolated

theorem HoldsPid.caller (h : s.HoldsPid) {slot : Nat}
    (hcurrent : s.kernel.currentProcess = some (slot + 1)) :
    s.kernel.HasRecord (slot + 1) ∧
      s.caller = some (s.kernel.presentInstance (slot + 1)) := by
  obtain ⟨own, -, hown, hrecord, hcaller⟩ := h
  obtain rfl := Nat.succ.inj (Option.some.inj (hcurrent.symm.trans hown))
  exact ⟨hrecord, hcaller⟩

theorem isolated_start (opener : Party) : (PtyHistory.start opener).Isolated :=
  ⟨⟨[], rfl⟩, ⟨[], rfl⟩, by simp [PtyHistory.start],
    by simp [PtyHistory.start]⟩

theorem Sealed.booted (k : Kernel) : (booted k).Sealed where
  bound slot _ _ id hbound := by cases hbound
  toMaster id hopen := by cases hopen
  toSlave id hopen := by cases hopen
  isolated id := isolated_start none

/-- A step of the kernel unbinds the processes that it creates. -/
theorem Sealed.kernel (h : s.Sealed) (hw : s.kernel.WellFormed) {a : Action} {k : Kernel}
    (hstep : s.kernel.step a = some k) :
    { s with kernel := k, consoles := s.consolesAfter k }.Sealed where
  bound slot hslot hrecord id hbound hopen := by
    dsimp only at hrecord hbound hopen ⊢
    unfold consolesAfter at hbound
    split at hbound
    · rename_i hpresent
      rw [hpresent]
      exact h.bound slot hslot (hasRecord_before hw hstep hrecord hpresent) id hbound hopen
    · cases hbound
  toMaster := h.toMaster
  toSlave := h.toSlave
  isolated := h.isolated

theorem Sealed.attached (h : s.Sealed) (hw : s.kernel.WellFormed)
    (hcall : s.canCall = true) {id : Nat} (hholds : s.HoldsPid) :
    { s with
      toTerminals := s.bindPty id
      history := put s.history id
        { s.history id with
          attached := s.caller :: (s.history id).attached } }.Sealed := by
  obtain ⟨own, -, hcurrent, hown⟩ := caller_slot hw hcall
  have hcaller := hholds.caller hcurrent
  have hhistory : ∀ i, ∃ parties, put s.history id
      { s.history id with
        attached := s.caller :: (s.history id).attached } i =
      { s.history i with attached := parties ++ (s.history i).attached } ∧
        (i = id → s.caller ∈ parties) := by
    intro i
    by_cases hi : i = id
    · subst hi
      exact ⟨[s.caller], put_same _ _ _, fun _ => List.mem_singleton_self _⟩
    · exact ⟨[], put_other hi, fun heq => absurd heq hi⟩
  refine ⟨fun slot hslot hrecord i hbound hopen => ?_, fun i hopen => ?_,
    fun i hopen => ?_, fun i => ?_⟩
  · obtain ⟨parties, heq, hmem⟩ := hhistory i
    dsimp only
    rw [heq]
    have hbound' : put s.consoles s.kernel.currentStateSlot (.pty id) slot =
        .pty i := hbound
    by_cases hslot' : slot = own
    · rw [hslot', hown, put_same] at hbound'
      have hi : i = id := (ConsoleTarget.pty.inj hbound').symm
      have hparty := hmem hi
      rw [hcaller.2] at hparty
      rw [hslot']
      exact List.mem_append_left _ hparty
    · rw [hown, put_other hslot'] at hbound'
      exact List.mem_append_right _ (h.bound slot hslot hrecord i hbound' hopen)
  · obtain ⟨parties, heq, -⟩ := hhistory i
    dsimp only
    rw [heq]
    exact h.toMaster i hopen
  · obtain ⟨parties, heq, -⟩ := hhistory i
    dsimp only
    rw [heq]
    exact h.toSlave i hopen
  · obtain ⟨parties, heq, -⟩ := hhistory i
    dsimp only
    rw [heq]
    have hold := h.isolated i
    exact ⟨hold.read, hold.polled,
      fun byte hbyte => List.mem_append_right _ (hold.writers byte hbyte),
      fun byte hbyte => List.mem_append_right _ (hold.pollers byte hbyte)⟩

theorem Sealed.boundTty (h : s.Sealed) (tty : Nat) :
    { s with toTerminals := s.bindTty tty }.Sealed where
  bound slot hslot hrecord id hbound hopen := by
    have hbound' : put s.consoles s.kernel.currentStateSlot
        (.tty (min tty (ttyCount - 1))) slot = .pty id := hbound
    by_cases hslot' : slot = s.kernel.currentStateSlot
    · rw [hslot', put_same] at hbound'
      cases hbound'
    · rw [put_other hslot'] at hbound'
      exact h.bound slot hslot hrecord id hbound' hopen
  toMaster := h.toMaster
  toSlave := h.toSlave
  isolated := h.isolated

theorem isolated_extend_nothing {h : PtyHistory} (hold : h.Isolated)
    {caller : Party} {ptys : Ptys} {id : Nat} {call : PtyCall}
    (hnothing : call.sentToMaster ptys id = [] ∧ call.readFrom ptys id = [] ∧
      call.sentToSlave ptys id = [] ∧ call.polledFrom ptys id = []) :
    (h.extend caller ptys id call).Isolated := by
  obtain ⟨hsent, hread, hsent', hpolled⟩ := hnothing
  simpa [PtyHistory.extend, hsent, hread, hsent', hpolled] using hold

/-- A call that moves bytes on the slave side comes from a console that is
bound to the pair. -/
theorem console_of_moves {a : TerminalAction} {call : PtyCall} {id : Nat}
    (hpool : s.poolCall a = some call)
    (hmoves : call.sentToMaster s.ptys id ≠ [] ∨
      call.polledFrom s.ptys id ≠ []) :
    s.consoleTarget = .pty id ∧
      ((∃ bytes, a = .consoleWrite bytes) ∨ a = .pollKey) := by
  cases a with
  | consoleWrite bytes =>
    simp only [poolCall] at hpool
    split at hpool
    · rename_i id' htarget
      obtain rfl := Option.some.inj hpool
      have hid : id' = id := by
        by_contra hne
        simp [PtyCall.sentToMaster, PtyCall.polledFrom, hne] at hmoves
      exact ⟨htarget.trans (by rw [hid]), .inl ⟨bytes, rfl⟩⟩
    · cases hpool
  | pollKey =>
    simp only [poolCall] at hpool
    split at hpool
    · rename_i id' htarget
      obtain rfl := Option.some.inj hpool
      have hid : id' = id := by
        by_contra hne
        simp [PtyCall.sentToMaster, PtyCall.polledFrom, hne] at hmoves
      exact ⟨htarget.trans (by rw [hid]), .inr rfl⟩
    · cases hpool
  | openPty | closePty =>
    obtain rfl := Option.some.inj hpool
    simp [PtyCall.sentToMaster, PtyCall.polledFrom] at hmoves
  | readMaster | writeMaster =>
    simp only [poolCall] at hpool
    split at hpool
    · obtain rfl := Option.some.inj hpool
      simp [PtyCall.sentToMaster, PtyCall.polledFrom] at hmoves
    · cases hpool
  | kernel | attachSlave | bindTty => cases hpool

/-- Whoever moves bytes on the slave side of an open pair has attached to
it. -/
theorem Sealed.caller_attached (h : s.Sealed) (hw : s.kernel.WellFormed)
    (hcall : s.canCall = true) {a : TerminalAction} (hguard : s.BindsAfresh a)
    {call : PtyCall} (hpool : s.poolCall a = some call) {id : Nat}
    (hopen : (s.ptys id).allocated = true)
    (hmoves : call.sentToMaster s.ptys id ≠ [] ∨
      call.polledFrom s.ptys id ≠ []) :
    s.caller ∈ (s.history id).attached := by
  obtain ⟨htarget, haction⟩ := console_of_moves hpool hmoves
  obtain ⟨own, hown, hcurrent, hslot⟩ := caller_slot hw hcall
  have hholds : s.HoldsPid := by
    rcases haction with ⟨bytes, rfl⟩ | rfl
    · exact hguard
    · exact hguard
  obtain ⟨hrecord, hcaller⟩ := hholds.caller hcurrent
  have hbound : s.consoles own = .pty id := by
    rw [← hslot]
    exact htarget
  rw [hcaller]
  exact h.bound own hown hrecord id hbound hopen

/-- A call does not open a pair unless it says so. -/
theorem allocated_make {call : PtyCall} {id : Nat}
    (hopens : s.opens call id = false)
    (hopen : ((s.make call).ptys id).allocated = true) :
    (s.ptys id).allocated = true ∧ call.KeepsOpen id s.ptys ∧
      ((s.make call).ptys id).owner = (s.ptys id).owner := by
  rcases PtyCall.allocated_apply hopen with hkept | ⟨caller, rfl, hnew⟩
  · exact hkept
  · simp [opens, hnew] at hopens

theorem history_make {call : PtyCall} {id : Nat}
    (hopens : s.opens call id = false) :
    (s.make call).history id =
      (s.history id).extend s.caller s.ptys id call := by
  simp [make, hopens]

/-- The pair that an `open` returns was the free one, and its rings are
empty. -/
theorem opens_spec {call : PtyCall} {id : Nat}
    (hopens : s.opens call id = true) :
    (∃ caller, call = .openPty caller) ∧ s.ptys.freeEntry = some id ∧
      ((s.make call).ptys id).toMaster.contents = [] ∧
      ((s.make call).ptys id).toSlave.contents = [] := by
  cases call with
  | openPty caller =>
    have hnew : (s.ptys.openPty caller).1 = some id := by
      simpa [opens] using hopens
    obtain ⟨-, -, -, -, hmaster, hslave, -⟩ :=
      Ptys.openPty_of_some (Prod.ext hnew rfl)
    refine ⟨⟨caller, rfl⟩, ?_, hmaster, hslave⟩
    unfold Ptys.openPty at hnew
    split at hnew
    · rename_i hfree
      rw [hfree]
      exact hnew
    · cases hnew
  | close | readMaster | writeMaster | slaveWrite | slavePollKey => cases hopens

theorem Sealed.made (h : s.Sealed) (hw : s.kernel.WellFormed)
    (hcall : s.canCall = true) {a : TerminalAction} (hguard : s.BindsAfresh a)
    {call : PtyCall} (hpool : s.poolCall a = some call) :
    (s.make call).Sealed := by
  have hstart : ∀ {id}, s.opens call id = true →
      (s.make call).history id = .start s.caller := by
    intro id hopens
    simp [make, hopens]
  have hmaster : ∀ id, ((s.make call).ptys id).allocated = true →
      ((s.make call).history id).written.map Prod.snd =
        ((s.make call).history id).read ++
          ((s.make call).ptys id).toMaster.contents := by
    intro id hopen
    cases hopens : s.opens call id with
    | true =>
      rw [hstart hopens, (opens_spec hopens).2.2.1]
      rfl
    | false =>
      obtain ⟨hopen', hkeeps, -⟩ := allocated_make hopens hopen
      have hbalance := (PtyCall.balanced hopen' hkeeps).toMaster
      rw [history_make hopens]
      simp only [PtyHistory.extend, List.map_append, List.map_map,
        h.toMaster id hopen', List.append_assoc]
      rw [show (make s call).ptys = call.apply s.ptys from rfl, ← hbalance]
      simp [Function.comp_def]
  have hslave : ∀ id, ((s.make call).ptys id).allocated = true →
      ((s.make call).history id).injected =
        ((s.make call).history id).polled.map Prod.snd ++
          ((s.make call).ptys id).toSlave.contents := by
    intro id hopen
    cases hopens : s.opens call id with
    | true =>
      rw [hstart hopens, (opens_spec hopens).2.2.2]
      rfl
    | false =>
      obtain ⟨hopen', hkeeps, -⟩ := allocated_make hopens hopen
      have hbalance := (PtyCall.balanced hopen' hkeeps).toSlave
      rw [history_make hopens]
      simp only [PtyHistory.extend, List.map_append, List.map_map,
        h.toSlave id hopen', List.append_assoc]
      rw [show (make s call).ptys = call.apply s.ptys from rfl, hbalance]
      simp [Function.comp_def]
  refine ⟨fun slot hslot hrecord id hbound hopen => ?_, hmaster, hslave,
    fun id => ?_⟩
  · cases hopens : s.opens call id with
    | true =>
      -- The guard: no process is bound to the pair that is opened.
      obtain ⟨⟨caller, rfl⟩, hfree, -, -⟩ := opens_spec hopens
      cases a with
      | openPty => exact absurd hbound (hguard id hfree slot hslot hrecord)
      | closePty | kernel | attachSlave | bindTty => cases hpool
      | readMaster | writeMaster | consoleWrite | pollKey =>
        simp only [poolCall] at hpool
        split at hpool <;> cases hpool
    | false =>
      obtain ⟨hopen', -⟩ := allocated_make hopens hopen
      rw [history_make hopens]
      exact h.bound slot hslot hrecord id hbound hopen'
  · cases hopens : s.opens call id with
    | true =>
      rw [hstart hopens]
      exact isolated_start _
    | false =>
      rw [history_make hopens]
      have hold := h.isolated id
      cases hopen : (s.ptys id).allocated with
      | false => exact isolated_extend_nothing hold (PtyCall.moves_nothing hopen)
      | true =>
        by_cases hkeeps : call.KeepsOpen id s.ptys
        · have hbalance := PtyCall.balanced hopen hkeeps
          have hattached := h.caller_attached hw hcall hguard hpool hopen
          refine ⟨⟨(call.apply s.ptys id).toMaster.contents, ?_⟩,
            ⟨(call.apply s.ptys id).toSlave.contents, ?_⟩,
            fun byte hbyte => ?_, fun byte hbyte => ?_⟩
          · simp only [PtyHistory.extend, List.map_append, List.map_map,
              h.toMaster id hopen, List.append_assoc, ← hbalance.toMaster]
            simp [Function.comp_def]
          · simp only [PtyHistory.extend, List.map_append, List.map_map,
              h.toSlave id hopen, List.append_assoc, hbalance.toSlave]
            simp [Function.comp_def]
          · rcases List.mem_append.mp hbyte with hbyte | hbyte
            · exact hold.writers byte hbyte
            · obtain ⟨value, hvalue, rfl⟩ := List.mem_map.mp hbyte
              exact hattached (.inl (List.ne_nil_of_mem hvalue))
          · rcases List.mem_append.mp hbyte with hbyte | hbyte
            · exact hold.pollers byte hbyte
            · obtain ⟨value, hvalue, rfl⟩ := List.mem_map.mp hbyte
              exact hattached (.inr (List.ne_nil_of_mem hvalue))
        · cases call with
          | close => exact isolated_extend_nothing hold ⟨rfl, rfl, rfl, rfl⟩
          | openPty | readMaster | writeMaster | slaveWrite | slavePollKey =>
            exact absurd trivial hkeeps

theorem Sealed.step (h : s.Sealed) (hw : s.kernel.WellFormed)
    {a : TerminalAction} (hguard : s.BindsAfresh a) (heffect : s.Effect a s') :
    s'.Sealed := by
  cases heffect with
  | kernel hstep => exact h.kernel hw hstep
  | attached hcall hopen => exact h.attached hw hcall hguard
  | bound hcall => exact h.boundTty _
  | made hcall hpool => exact h.made hw hcall hguard hpool
  | same => exact h

end Traced

/-- While no pair is opened that the console of a process is bound to, and threads
that outlive their process do not use its console, the parties on the slave side of
every session have attached in it. -/
theorem pty_sessions_isolated {memory : Memory} {s : Traced}
    (h : Traced.ReachedFrom memory Traced.BindsAfresh s) (id : Nat) :
    (s.history id).Isolated := by
  have hsealed := h.invariant Traced.Sealed
    (fun k _ => Traced.Sealed.booted k)
    fun _ _ _ hw hs hguard heffect => hs.step hw hguard heffect
  exact hsealed.2.isolated id

set_option maxRecDepth 100000 in
/-- A child attaches to a pair, writes and exits, and PID 1 collects it and closes
the pair.  In the next session PID 1 attaches and reads what it has written,
though the slot of the child is still bound to the pair. -/
theorem pty_sessions_isolated_read : ∃ s : Traced, (s.history 0).Isolated ∧
    (s.history 0).read = [104] ∧ s.consoles 1 = .pty 0 := by
  have hrun : (((Kernel.boot plainMemory smallImage).map Traced.booted).bind
      (exec Traced.step Traced.BindsAfresh [.kernel .resume, .kernel .spawnSmall, .openPty,
        .kernel (.waitProcess 2), .kernel .resume, .kernel .yieldNow, .kernel .resume,
        .attachSlave 0, .consoleWrite [1], .kernel (.exit 7), .kernel .resume, .closePty 0,
        .openPty, .attachSlave 0, .consoleWrite [104, 105],
        .readMaster 0 futureUserSpaceBase 1])).any
      fun s => (s.history 0).read == [104] && decide (s.consoles 1 = .pty 0) := by
    decide +kernel
  obtain ⟨s, hs, hfound⟩ := Traced.ReachedFrom.of_exec hrun
  simp only [Bool.and_eq_true, beq_iff_eq, decide_eq_true_iff] at hfound
  exact ⟨s, pty_sessions_isolated hs 0, hfound⟩

set_option maxRecDepth 100000 in
/-- PID 1 closes a pair and opens it again; the child that had attached to it
writes into the new session. -/
theorem pty_binding_survives : ∃ s, Traced.ReachedFrom plainMemory Always s ∧
    ¬ (s.history 0).Isolated := by
  have hrun : (((Kernel.boot plainMemory smallImage).map Traced.booted).bind
      (exec Traced.step Always [.kernel .resume, .kernel .spawnSmall, .openPty,
        .kernel .yieldNow, .kernel .resume, .kernel .yieldNow, .kernel .resume,
        .attachSlave 0, .kernel .yieldNow, .kernel .resume, .closePty 0,
        .openPty, .kernel .yieldNow, .kernel .resume,
        .consoleWrite [104]])).any
      fun s => (s.history 0).attached == [] &&
        (s.history 0).written == [(some ⟨2, 1⟩, 104)] := by
    decide +kernel
  obtain ⟨s, hs, hfound⟩ := Traced.ReachedFrom.of_exec hrun
  simp only [Bool.and_eq_true, beq_iff_eq] at hfound
  obtain ⟨hattached, hwritten⟩ := hfound
  refine ⟨s, hs, fun h => ?_⟩
  have hparty := h.writers (some ⟨2, 1⟩, 104) (by simp [hwritten])
  rw [hattached] at hparty
  cases hparty

end OpenKernel
