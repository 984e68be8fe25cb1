import OpenKernel.Kernel.State
import OpenKernel.Lib.Runs

/-!
# Pseudo-terminals

The model of `pty.rs`: a pool of master/slave pairs, each with one ring of
bytes for either direction.  `caller` is what `owner_process` returns, the
process of the current thread.

The second half follows one pair through a session, from the `open` that
hands it out until it is closed.  A `Stream` is the ghost record of one
direction: the bytes that went into its ring and the bytes that came out.
-/

namespace OpenKernel

open Lib

def ptyCount : Nat := 4
def ringCapacity : Nat := 256

/-- `Ring` of `pty.rs`. -/
abbrev ByteRing := Ring UInt8 ringCapacity

/-- `Ring::EMPTY`. -/
def ByteRing.empty : ByteRing :=
  { slots := fun _ => 0
    head := 0
    count := 0
    head_lt := by decide
    count_le := by decide }

/-- `Ring::reset`, which leaves the buffer as it is. -/
def ByteRing.reset (r : ByteRing) : ByteRing :=
  { r with
    head := 0
    count := 0
    head_lt := by decide
    count_le := by decide }

@[simp] theorem ByteRing.contents_reset (r : ByteRing) :
    r.reset.contents = [] := rfl

@[simp] theorem ByteRing.contents_empty : ByteRing.empty.contents = [] := rfl

structure Pty where
  allocated : Bool
  owner : Option ProcessId
  toMaster : ByteRing
  toSlave : ByteRing

def Pty.empty : Pty :=
  { allocated := false
    owner := none
    toMaster := .empty
    toSlave := .empty }

/-- `PTYS`.  Only the first `ptyCount` entries exist. -/
abbrev Ptys := Nat → Pty

namespace Ptys

def empty : Ptys := fun _ => .empty

/-- Whether `caller` may use the master side of `id`. -/
def owns (ptys : Ptys) (caller : Option ProcessId) (id : Nat) : Bool :=
  caller.isSome && id < ptyCount && (ptys id).allocated &&
    (ptys id).owner == caller

/-- The entry that `open` hands out. -/
def freeEntry (ptys : Ptys) : Option Nat :=
  (List.range ptyCount).find? fun id => !(ptys id).allocated

/-- `open`. -/
def openPty (ptys : Ptys) (caller : Option ProcessId) : Option Nat × Ptys :=
  match caller, ptys.freeEntry with
  | some owner, some id =>
    (some id,
      put ptys id
        { allocated := true
          owner := some owner
          toMaster := (ptys id).toMaster.reset
          toSlave := (ptys id).toSlave.reset })
  | _, _ => (none, ptys)

/-- `exists`. -/
def isOpen (ptys : Ptys) (id : Nat) : Bool :=
  id < ptyCount && (ptys id).allocated

/-- `close`. -/
def close (ptys : Ptys) (caller : Option ProcessId) (id : Nat) : Bool × Ptys :=
  if ptys.owns caller id then
    (true,
      put ptys id
        { allocated := false
          owner := none
          toMaster := (ptys id).toMaster.reset
          toSlave := (ptys id).toSlave.reset })
  else (false, ptys)

/-- `read_master`.  The bytes are what it leaves in `output`, whose length is
`length`; the count it returns is theirs. -/
def readMaster (ptys : Ptys) (caller : Option ProcessId) (id length : Nat) :
    Option (List UInt8) × Ptys :=
  if ptys.owns caller id then
    let (bytes, ring) := Ring.drain length (ptys id).toMaster
    (some bytes, put ptys id { ptys id with toMaster := ring })
  else (none, ptys)

/-- `write_master`. -/
def writeMaster (ptys : Ptys) (caller : Option ProcessId) (id : Nat)
    (input : List UInt8) : Option Nat × Ptys :=
  if ptys.owns caller id then
    let (count, ring) := Ring.fill input (ptys id).toSlave
    (some count, put ptys id { ptys id with toSlave := ring })
  else (none, ptys)

/-- `slave_write`.  The code returns nothing; the number counts the bytes
that found room. -/
def slaveWrite (ptys : Ptys) (id : Nat) (bytes : List UInt8) : Nat × Ptys :=
  if ptys.isOpen id then
    let (count, ring) := Ring.fill bytes (ptys id).toMaster
    (count, put ptys id { ptys id with toMaster := ring })
  else (0, ptys)

/-- `slave_poll_key`. -/
def slavePollKey (ptys : Ptys) (id : Nat) : Option UInt8 × Ptys :=
  if ptys.isOpen id then
    let (byte, ring) := (ptys id).toSlave.pop
    (byte, put ptys id { ptys id with toSlave := ring })
  else (none, ptys)

/-- `open` hands out an entry that was free. -/
theorem freeEntry_spec {ptys : Ptys} {id : Nat}
    (h : ptys.freeEntry = some id) :
    id < ptyCount ∧ (ptys id).allocated = false := by
  constructor
  · exact List.mem_range.mp (List.mem_of_find?_eq_some h)
  · simpa using List.find?_some h

theorem openPty_of_some {ptys opened : Ptys} {caller : Option ProcessId}
    {id : Nat} (h : ptys.openPty caller = (some id, opened)) :
    id < ptyCount ∧ (ptys id).allocated = false ∧
      (opened id).allocated = true ∧ (opened id).owner = caller ∧
      (opened id).toMaster.contents = [] ∧
      (opened id).toSlave.contents = [] ∧
      ∀ other, other ≠ id → opened other = ptys other := by
  unfold openPty at h
  split at h
  · rename_i owner id' hfree
    obtain ⟨hid, rfl⟩ := Prod.mk.inj h
    obtain rfl := Option.some.inj hid
    obtain ⟨hlt, hunused⟩ := freeEntry_spec hfree
    refine ⟨hlt, hunused, ?_⟩
    simp only [put_same, ByteRing.contents_reset, true_and]
    intro other hother
    exact put_other hother
  · cases h

end Ptys

/-! ## The calls on the pool -/

/-- A call of one of the functions above.  The callers of the slave side are
the console syscalls. -/
inductive PtyCall
  | openPty (caller : Option ProcessId)
  | close (caller : Option ProcessId) (id : Nat)
  | readMaster (caller : Option ProcessId) (id length : Nat)
  | writeMaster (caller : Option ProcessId) (id : Nat) (input : List UInt8)
  | slaveWrite (id : Nat) (bytes : List UInt8)
  | slavePollKey (id : Nat)

namespace PtyCall

/-- The pair that the call works on. -/
def target : PtyCall → Option Nat
  | openPty _ => none
  | close _ id | readMaster _ id _ | writeMaster _ id _ | slaveWrite id _
  | slavePollKey id => some id

/-- The pool after the call. -/
def apply (ptys : Ptys) : PtyCall → Ptys
  | openPty caller => (ptys.openPty caller).2
  | close caller id => (ptys.close caller id).2
  | readMaster caller id length => (ptys.readMaster caller id length).2
  | writeMaster caller id input => (ptys.writeMaster caller id input).2
  | slaveWrite id bytes => (ptys.slaveWrite id bytes).2
  | slavePollKey id => (ptys.slavePollKey id).2

/-- The bytes that the call has put into the ring towards the slave of
`id`. -/
def sentToSlave (ptys : Ptys) (id : Nat) : PtyCall → List UInt8
  | writeMaster caller id' input =>
    if id' = id then
      input.take ((ptys.writeMaster caller id input).1.getD 0)
    else []
  | _ => []

/-- The bytes that the call has taken from the ring towards the slave of
`id`. -/
def polledFrom (ptys : Ptys) (id : Nat) : PtyCall → List UInt8
  | slavePollKey id' =>
    if id' = id then (ptys.slavePollKey id).1.toList else []
  | _ => []

/-- The bytes that the call has put into the ring towards the master of
`id`. -/
def sentToMaster (ptys : Ptys) (id : Nat) : PtyCall → List UInt8
  | slaveWrite id' bytes =>
    if id' = id then bytes.take (ptys.slaveWrite id bytes).1 else []
  | _ => []

/-- The bytes that the call has taken from the ring towards the master of
`id`. -/
def readFrom (ptys : Ptys) (id : Nat) : PtyCall → List UInt8
  | readMaster caller id' length =>
    if id' = id then (ptys.readMaster caller id length).1.getD [] else []
  | _ => []

/-- The call does not close `id`. -/
def KeepsOpen (id : Nat) (ptys : Ptys) : PtyCall → Prop
  | close caller id' => id' = id → (ptys.close caller id).1 = false
  | _ => True

instance (id : Nat) (ptys : Ptys) : DecidablePred (KeepsOpen id ptys)
  | close caller id' =>
    inferInstanceAs (Decidable (id' = id → (ptys.close caller id).1 = false))
  | openPty _ | readMaster _ _ _ | writeMaster _ _ _ | slaveWrite _ _
  | slavePollKey _ => inferInstanceAs (Decidable True)

/-- What one call does to the rings of an open pair: what was there and what
was sent is what was taken and what is left. -/
structure Balanced (id : Nat) (ptys : Ptys) (call : PtyCall) : Prop where
  allocated : (call.apply ptys id).allocated = true
  toMaster :
    (ptys id).toMaster.contents ++ call.sentToMaster ptys id =
      call.readFrom ptys id ++ (call.apply ptys id).toMaster.contents
  toSlave :
    (ptys id).toSlave.contents ++ call.sentToSlave ptys id =
      call.polledFrom ptys id ++ (call.apply ptys id).toSlave.contents

/-- A call that leaves the pair as it is and moves none of its bytes. -/
theorem Balanced.of_same {id : Nat} {ptys : Ptys} {call : PtyCall}
    (hopen : (ptys id).allocated = true) (hsame : call.apply ptys id = ptys id)
    (hsent : call.sentToMaster ptys id = [])
    (hread : call.readFrom ptys id = [])
    (hsent' : call.sentToSlave ptys id = [])
    (hpolled : call.polledFrom ptys id = []) : Balanced id ptys call := by
  refine ⟨?_, ?_, ?_⟩
  · rw [hsame]
    exact hopen
  · rw [hsame, hsent, hread, List.append_nil, List.nil_append]
  · rw [hsame, hsent', hpolled, List.append_nil, List.nil_append]

theorem apply_openPty_same {id : Nat} {ptys : Ptys}
    {caller : Option ProcessId} (hopen : (ptys id).allocated = true) :
    (ptys.openPty caller).2 id = ptys id := by
  cases hnew : ptys.openPty caller with
  | mk result opened =>
    cases result with
    | none =>
      unfold Ptys.openPty at hnew
      split at hnew
      · cases hnew
      · rw [← (Prod.mk.inj hnew).2]
    | some new =>
      obtain ⟨-, hfree, -, -, -, -, hother⟩ := Ptys.openPty_of_some hnew
      apply hother
      rintro rfl
      rw [hopen] at hfree
      cases hfree

/-- The two rings of `id` are untouched by a call on another pair. -/
theorem Balanced.of_other {id id' : Nat} {ptys : Ptys} {call : PtyCall}
    (hopen : (ptys id).allocated = true) (htarget : call.target = some id')
    (hne : id' ≠ id) : Balanced id ptys call := by
  have hne' : id ≠ id' := hne.symm
  apply Balanced.of_same hopen
  · cases call with
    | openPty caller => cases htarget
    | close caller i =>
      obtain rfl := Option.some.inj htarget
      simp only [apply, Ptys.close]
      split
      · exact put_other hne'
      · rfl
    | readMaster caller i length =>
      obtain rfl := Option.some.inj htarget
      simp only [apply, Ptys.readMaster]
      split
      · exact put_other hne'
      · rfl
    | writeMaster caller i input =>
      obtain rfl := Option.some.inj htarget
      simp only [apply, Ptys.writeMaster]
      split
      · exact put_other hne'
      · rfl
    | slaveWrite i bytes =>
      obtain rfl := Option.some.inj htarget
      simp only [apply, Ptys.slaveWrite]
      split
      · exact put_other hne'
      · rfl
    | slavePollKey i =>
      obtain rfl := Option.some.inj htarget
      simp only [apply, Ptys.slavePollKey]
      split
      · exact put_other hne'
      · rfl
  all_goals
    cases call <;> simp_all [sentToMaster, readFrom, sentToSlave, polledFrom,
      target]

/-- A pop takes the oldest byte, if there is one. -/
theorem pop_balance (ring : ByteRing) :
    ring.contents = ring.pop.1.toList ++ ring.pop.2.contents := by
  cases hring : ring.contents with
  | nil => simp [Ring.pop_of_empty ring hring, hring]
  | cons byte rest =>
    obtain ⟨hbyte, hrest⟩ := Ring.contents_pop ring hring
    rw [hbyte, hrest]
    rfl

/-- Every call that does not close the pair balances. -/
theorem balanced {id : Nat} {ptys : Ptys} {call : PtyCall}
    (hopen : (ptys id).allocated = true) (hkeeps : call.KeepsOpen id ptys) :
    Balanced id ptys call := by
  cases call with
  | openPty caller =>
    exact .of_same hopen (apply_openPty_same hopen) rfl rfl rfl rfl
  | close caller i =>
    by_cases hi : i = id
    · subst hi
      have hfails : (ptys.close caller i).1 = false := hkeeps rfl
      refine .of_same hopen ?_ rfl rfl rfl rfl
      simp only [Ptys.close, apply] at hfails ⊢
      split at hfails
      · cases hfails
      · rename_i howns
        rw [if_neg howns]
    · exact .of_other hopen rfl hi
  | readMaster caller i length =>
    by_cases hi : i = id
    · subst hi
      by_cases howns : ptys.owns caller i
      · refine ⟨?_, ?_, ?_⟩
        · simpa [apply, Ptys.readMaster, howns] using hopen
        · simp [apply, sentToMaster, readFrom, Ptys.readMaster, howns,
            Ring.drain_fst, Ring.contents_drain]
        · simp [apply, sentToSlave, polledFrom, Ptys.readMaster, howns]
      · apply Balanced.of_same hopen <;>
          simp [apply, Ptys.readMaster, howns, sentToMaster, readFrom,
            sentToSlave, polledFrom]
    · exact .of_other hopen rfl hi
  | writeMaster caller i input =>
    by_cases hi : i = id
    · subst hi
      by_cases howns : ptys.owns caller i
      · refine ⟨?_, ?_, ?_⟩
        · simpa [apply, Ptys.writeMaster, howns] using hopen
        · simp [apply, sentToMaster, readFrom, Ptys.writeMaster, howns]
        · simp [apply, sentToSlave, polledFrom, Ptys.writeMaster, howns,
            Ring.contents_fill]
      · apply Balanced.of_same hopen <;>
          simp [apply, Ptys.writeMaster, howns, sentToMaster, readFrom,
            sentToSlave, polledFrom]
    · exact .of_other hopen rfl hi
  | slaveWrite i bytes =>
    by_cases hi : i = id
    · subst hi
      by_cases hisOpen : ptys.isOpen i
      · refine ⟨?_, ?_, ?_⟩
        · simpa [apply, Ptys.slaveWrite, hisOpen] using hopen
        · simp [apply, sentToMaster, readFrom, Ptys.slaveWrite, hisOpen,
            Ring.contents_fill]
        · simp [apply, sentToSlave, polledFrom, Ptys.slaveWrite, hisOpen]
      · apply Balanced.of_same hopen <;>
          simp [apply, Ptys.slaveWrite, hisOpen, sentToMaster, readFrom,
            sentToSlave, polledFrom]
    · exact .of_other hopen rfl hi
  | slavePollKey i =>
    by_cases hi : i = id
    · subst hi
      by_cases hisOpen : ptys.isOpen i
      · refine ⟨?_, ?_, ?_⟩
        · simpa [apply, Ptys.slavePollKey, hisOpen] using hopen
        · simp [apply, sentToMaster, readFrom, Ptys.slavePollKey, hisOpen]
        · simpa [apply, sentToSlave, polledFrom, Ptys.slavePollKey, hisOpen]
            using pop_balance (ptys i).toSlave
      · apply Balanced.of_same hopen <;>
          simp [apply, Ptys.slavePollKey, hisOpen, sentToMaster, readFrom,
            sentToSlave, polledFrom]
    · exact .of_other hopen rfl hi

end PtyCall

/-! ## One session of a pair -/

/-- What went into a ring and what came out of it, oldest first. -/
structure Stream where
  accepted : List UInt8
  delivered : List UInt8
  deriving DecidableEq

/-- What came out is the beginning of what went in, and the rest is what the
ring holds. -/
def Stream.Accounts (stream : Stream) (ring : ByteRing) : Prop :=
  stream.accepted = stream.delivered ++ ring.contents

/-- The bytes that are accepted and not yet delivered. -/
def Stream.pending (stream : Stream) : List UInt8 :=
  stream.accepted.drop stream.delivered.length

/-- The pool with the streams of one pair since it was opened. -/
structure Session where
  ptys : Ptys
  toMaster : Stream
  toSlave : Stream

namespace Session

def start (ptys : Ptys) : Session :=
  { ptys
    toMaster := ⟨[], []⟩
    toSlave := ⟨[], []⟩ }

/-- One call, with the streams of `id` kept up. -/
def step (id : Nat) (s : Session) (call : PtyCall) : Option Session :=
  some
    { ptys := call.apply s.ptys
      toMaster :=
        { accepted := s.toMaster.accepted ++ call.sentToMaster s.ptys id
          delivered := s.toMaster.delivered ++ call.readFrom s.ptys id }
      toSlave :=
        { accepted := s.toSlave.accepted ++ call.sentToSlave s.ptys id
          delivered := s.toSlave.delivered ++ call.polledFrom s.ptys id } }

/-- The pair is open and both its streams account for its rings. -/
structure Lossless (id : Nat) (s : Session) : Prop where
  exists_id : id < ptyCount
  allocated : (s.ptys id).allocated = true
  toMaster : s.toMaster.Accounts (s.ptys id).toMaster
  toSlave : s.toSlave.Accounts (s.ptys id).toSlave

theorem Lossless.step {id : Nat} {s t : Session} {call : PtyCall}
    (h : s.Lossless id) (hkeeps : call.KeepsOpen id s.ptys)
    (hstep : s.step id call = some t) : t.Lossless id := by
  obtain rfl := Option.some.inj hstep
  have hcall := PtyCall.balanced h.allocated hkeeps
  refine ⟨h.exists_id, hcall.allocated, ?_, ?_⟩
  · show _ ++ _ = _ ++ _ ++ _
    rw [h.toMaster, List.append_assoc, hcall.toMaster, List.append_assoc]
  · show _ ++ _ = _ ++ _ ++ _
    rw [h.toSlave, List.append_assoc, hcall.toSlave, List.append_assoc]

theorem Lossless.opened {ptys opened : Ptys} {caller : Option ProcessId}
    {id : Nat} (h : ptys.openPty caller = (some id, opened)) :
    (start opened).Lossless id := by
  obtain ⟨hid, -, halloc, -, hm, hs, -⟩ := Ptys.openPty_of_some h
  exact ⟨hid, halloc, by simp [Stream.Accounts, start, hm],
    by simp [Stream.Accounts, start, hs]⟩

end Session

end OpenKernel
