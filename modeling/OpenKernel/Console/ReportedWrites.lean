import OpenKernel.Console.PtySessions

/-!
# What a write reports

`syscall_write` returns the length that it was asked for.  The ring of a
pseudo-terminal takes the bytes that it has room for, and `slave_write` says
nothing about the others.  Over any run, the returned lengths add up to the
bytes in the stream exactly when every write has found room
(`writes_report_delivered`).

The serial line and the virtual terminals, which get the same bytes, are left
out.
-/

namespace OpenKernel

open Lib Kernel

namespace Traced

/-- `syscall_write`. -/
def syscallWrite (s : Traced) (pointer : Nat) (bytes : List UInt8) : Option Nat × Traced :=
  if Kernel.userBytes pointer bytes.length 256 then
    (some bytes.length, (s.poolCall (.consoleWrite bytes)).elim s s.make)
  else (none, s)

/-- The bytes that the stream to the master of `id` has room for. -/
def room (s : Traced) (id : Nat) : Nat :=
  if s.ptys.isOpen id then ringCapacity - (s.ptys id).toMaster.count else 0

end Traced

/-- The terminals, with the sum of what the writes of one process on one
pseudo-terminal have returned, failures apart, and of the bytes by which they
have made its stream grow. -/
structure WriteTotals extends Traced where
  reported : Nat
  placed : Nat

inductive WriteAction
  | write (pointer : Nat) (bytes : List UInt8)
  | other (a : TerminalAction)

namespace WriteTotals

def start (s : Traced) : WriteTotals := { s with reported := 0, placed := 0 }

/-- The current thread is the writer, bound to the slave of `id`. -/
def Writes (writer : Party) (id : Nat) (s : WriteTotals) : Prop :=
  s.caller = writer ∧ s.consoleTarget = .pty id

instance (writer : Party) (id : Nat) (s : WriteTotals) : Decidable (s.Writes writer id) :=
  inferInstanceAs (Decidable (_ ∧ _))

/-- One step, with the totals of `writer` on `id` kept up. -/
def step (writer : Party) (id : Nat) (s : WriteTotals) : WriteAction → Option WriteTotals
  | .write pointer bytes =>
    if s.canCall then
      let (result, t) := s.syscallWrite pointer bytes
      if s.Writes writer id then
        some { t with
          reported := s.reported + result.getD 0
          placed := s.placed + ((t.ptys id).toMaster.count - (s.ptys id).toMaster.count) }
      else some { s with toTraced := t }
    else none
  | .other a => (s.toTraced.step a).map fun t => { s with toTraced := t }

/-- A write of the writer that passes the check of its range finds room. -/
def Fits (writer : Party) (id : Nat) (s : WriteTotals) : WriteAction → Prop
  | .write pointer bytes =>
    s.Writes writer id → Kernel.userBytes pointer bytes.length 256 → bytes.length ≤ s.room id
  | .other _ => True

instance (writer : Party) (id : Nat) (s : WriteTotals) : DecidablePred (Fits writer id s)
  | .write pointer bytes =>
    inferInstanceAs (Decidable (s.Writes writer id →
      Kernel.userBytes pointer bytes.length 256 → bytes.length ≤ s.room id))
  | .other _ => inferInstanceAs (Decidable True)

section Step

variable {writer : Party} {id : Nat} {s s' : WriteTotals} {a : WriteAction}

/-- The stream grows by the bytes that it has room for. -/
theorem count_make (s : Traced) (id : Nat) (bytes : List UInt8) :
    ((s.make (.slaveWrite id bytes)).ptys id).toMaster.count =
      (s.ptys id).toMaster.count + min bytes.length (s.room id) := by
  show ((s.ptys.slaveWrite id bytes).2 id).toMaster.count = _
  unfold Ptys.slaveWrite Traced.room
  by_cases hopen : s.ptys.isOpen id = true
  · rw [if_pos hopen, if_pos hopen]
    show (put s.ptys id _ id).toMaster.count = _
    rw [put_same]
    show (Ring.fill bytes (s.ptys id).toMaster).2.count = _
    rw [← Ring.length_contents, Ring.contents_fill, List.length_append, Ring.length_contents,
      List.length_take, Ring.fill_fst]
    omega
  · rw [if_neg hopen, if_neg hopen]
    simp

/-- What one step adds to the totals. -/
theorem step_totals (h : s.step writer id a = some s') :
    ∃ reported placed, s'.reported = s.reported + reported ∧ s'.placed = s.placed + placed ∧
      placed ≤ reported ∧ (placed = reported ↔ s.Fits writer id a) := by
  cases a with
  | other a =>
    obtain ⟨t, -, rfl⟩ := Option.map_eq_some_iff.mp h
    exact ⟨0, 0, rfl, rfl, Nat.le_refl _, iff_of_true rfl trivial⟩
  | write pointer bytes =>
    rw [step] at h
    split at h
    · dsimp only at h
      split at h
      · rename_i hwrites
        obtain rfl := Option.some.inj h
        refine ⟨_, _, rfl, rfl, ?_⟩
        unfold Traced.syscallWrite
        by_cases hbytes : Kernel.userBytes pointer bytes.length 256 = true
        · have hpool : s.poolCall (.consoleWrite bytes) = some (.slaveWrite id bytes) := by
            unfold Traced.poolCall
            dsimp only
            rw [hwrites.2]
          rw [if_pos hbytes, hpool]
          show _ - _ ≤ bytes.length ∧ (_ = bytes.length ↔ _)
          rw [show ((Option.elim (some (PtyCall.slaveWrite id bytes)) s.toTraced s.make).ptys id) =
            (s.make (.slaveWrite id bytes)).ptys id from rfl, count_make, Nat.add_sub_cancel_left]
          refine ⟨Nat.min_le_left _ _, ?_⟩
          unfold Fits
          rw [min_eq_left_iff]
          exact ⟨fun hle _ _ => hle, fun hfits => hfits hwrites hbytes⟩
        · rw [if_neg hbytes]
          show _ - _ ≤ 0 ∧ (_ = 0 ↔ _)
          rw [Nat.sub_self]
          exact ⟨Nat.le_refl _, iff_of_true rfl fun _ hbytes' => absurd hbytes' hbytes⟩
      · rename_i hwrites
        obtain rfl := Option.some.inj h
        exact ⟨0, 0, rfl, rfl, Nat.le_refl _, iff_of_true rfl fun hw => absurd hw hwrites⟩
    · cases h

/-- Nothing is placed that has not been reported. -/
theorem placed_le {s₀ : Traced} (h : Run (step writer id) Always (start s₀) s) :
    s.placed ≤ s.reported := by
  refine h.invariant (fun s => s.placed ≤ s.reported) (fun s a s' hs _ hstep => ?_) (Nat.le_refl _)
  obtain ⟨reported, placed, hreported, hplaced, hle, -⟩ := step_totals hstep
  rw [hreported, hplaced]
  exact Nat.add_le_add hs hle

/-- What the writes have returned is what they have put into the stream
exactly when each of them has found room. -/
theorem writes_report_delivered {s₀ : Traced}
    (h : Run (step writer id) Always (start s₀) s) :
    s.reported = s.placed ↔ Run (step writer id) (Fits writer id) (start s₀) s := by
  constructor
  · intro heq
    induction h with
    | refl => exact .refl
    | step a hrun _ hnext ih =>
      obtain ⟨reported, placed, hreported, hplaced, hle, hiff⟩ := step_totals hnext
      have hbefore := placed_le hrun
      exact .step a (ih (by omega)) (hiff.mp (by omega)) hnext
  · intro hfits
    refine hfits.invariant (fun s => s.reported = s.placed) (fun s a s' hs hguard hstep => ?_) rfl
    obtain ⟨reported, placed, hreported, hplaced, -, hiff⟩ := step_totals hstep
    rw [hreported, hplaced, hs, hiff.mpr hguard]

end Step

/-- PID 1, from its boot on. -/
def bootedWrites (actions : List WriteAction) : Option WriteTotals :=
  ((Kernel.boot plainMemory smallImage).map fun k => start (Traced.booted k)).bind
    (exec (step (some ⟨1, 1⟩) 0) Always actions)

set_option maxRecDepth 100000 in
/-- Two bytes are written, read and reported. -/
theorem writes_report_delivered_two : ∃ s : WriteTotals, s.reported = 2 ∧ s.placed = 2 := by
  have hrun : ((((Kernel.boot plainMemory smallImage).map fun k => start (Traced.booted k)).bind
      (exec (step (some ⟨1, 1⟩) 0) (Fits (some ⟨1, 1⟩) 0) [.other (.kernel .resume),
        .other .openPty, .other (.attachSlave 0), .write futureUserSpaceBase [104, 105],
        .other (.readMaster 0 futureUserSpaceBase 1)])).any fun s => s.reported == 2) = true := by
    decide +kernel
  obtain ⟨s, hs, hreported⟩ := (Option.any_eq_true _ _).mp hrun
  obtain ⟨s₀, hs₀, hexec⟩ := Option.bind_eq_some_iff.mp hs
  obtain ⟨k, -, rfl⟩ := Option.map_eq_some_iff.mp hs₀
  have hfits := run_of_exec hexec
  have heq := (writes_report_delivered (hfits.mono fun _ _ _ => trivial)).mpr hfits
  have htwo : s.reported = 2 := eq_of_beq hreported
  exact ⟨s, htwo, heq ▸ htwo⟩

set_option maxRecDepth 100000 in
/-- The stream is full after 256 bytes, and a write of one more is reported as
delivered. -/
theorem write_reports_lost_byte : ∃ s₀ s,
    Run (step (some ⟨1, 1⟩) 0) Always (start s₀) s ∧ s.reported ≠ s.placed := by
  have hrun : (bootedWrites [.other (.kernel .resume), .other .openPty, .other (.attachSlave 0),
      .write futureUserSpaceBase (List.replicate 256 104),
      .write futureUserSpaceBase [105]]).any fun s => s.reported == 257 && s.placed == 256 := by
    decide +kernel
  obtain ⟨s, hs, htotals⟩ := (Option.any_eq_true _ _).mp hrun
  obtain ⟨s₀, hs₀, hexec⟩ := Option.bind_eq_some_iff.mp hs
  obtain ⟨k, -, rfl⟩ := Option.map_eq_some_iff.mp hs₀
  obtain ⟨hreported, hplaced⟩ := Bool.and_eq_true_iff.mp htotals
  refine ⟨Traced.booted k, s, run_of_exec hexec, ?_⟩
  rw [eq_of_beq hreported, eq_of_beq hplaced]
  decide

end WriteTotals

end OpenKernel
