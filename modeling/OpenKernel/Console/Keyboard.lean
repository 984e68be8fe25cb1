import OpenKernel.Console.Terminals

/-!
# The keyboard

`handle_scancode`, which the keyboard interrupt calls for every byte, and
`poll_user_key`.  Every terminal has room for one key that has not been polled
yet; a key goes to the terminal that is active when it arrives.  The redraw of
the screen that follows a switch is left out.

The history of bytes and polls alone tells what a poll returns
(`keys_reach_their_tty`).
-/

namespace OpenKernel

open Lib

def scancodeAltMake : UInt8 := 0x38
def scancodeAltBreak : UInt8 := 0xB8
def scancodeF1 : UInt8 := 0x3B

/-- `ACTIVE_TTY`, `ALT_HELD` and the `pending_key` of every `TtyState`. -/
structure Keyboard where
  pendingKey : Nat → UInt8
  activeTty : Nat
  altHeld : Bool

/-- `decode_scancode`. -/
def decodeScancode (scancode : UInt8) : Option UInt8 :=
  if scancode &&& 0x80 ≠ 0 then none
  else if 0x02 ≤ scancode ∧ scancode ≤ 0x0B then some (0x31 + scancode - 0x02)
  else
    match scancode.toNat with
    | 0x0E => some 8
    | 0x0F => some 0x09
    | 0x10 => some 0x71
    | 0x11 => some 0x77
    | 0x12 => some 0x65
    | 0x13 => some 0x72
    | 0x14 => some 0x74
    | 0x15 => some 0x79
    | 0x16 => some 0x75
    | 0x17 => some 0x69
    | 0x18 => some 0x6F
    | 0x19 => some 0x70
    | 0x1C => some 0x0A
    | 0x1E => some 0x61
    | 0x1F => some 0x73
    | 0x20 => some 0x64
    | 0x21 => some 0x66
    | 0x22 => some 0x67
    | 0x23 => some 0x68
    | 0x24 => some 0x6A
    | 0x25 => some 0x6B
    | 0x26 => some 0x6C
    | 0x2C => some 0x7A
    | 0x2D => some 0x78
    | 0x2E => some 0x63
    | 0x2F => some 0x76
    | 0x30 => some 0x62
    | 0x31 => some 0x6E
    | 0x32 => some 0x6D
    | 0x39 => some 0x20
    | _ => none

/-- Whether the byte is that of F1 to F3. -/
def isFunctionKey (byte : UInt8) : Bool :=
  scancodeF1 ≤ byte ∧ byte < scancodeF1 + UInt8.ofNat ttyCount

namespace Keyboard

/-- The statics before the boot. -/
def initial : Keyboard :=
  { pendingKey := fun _ => 0
    activeTty := 0
    altHeld := false }

/-- `switch_tty`. -/
def switchTty (s : Keyboard) (tty : Nat) : Keyboard :=
  if ttyCount ≤ tty then s else { s with activeTty := tty }

/-- `handle_scancode`. -/
def handleScancode (s : Keyboard) (byte : UInt8) : Keyboard :=
  if byte = scancodeAltMake then { s with altHeld := true }
  else if byte = scancodeAltBreak then { s with altHeld := false }
  else if s.altHeld && isFunctionKey byte then s.switchTty (byte - scancodeF1).toNat
  else if byte &&& 0x80 = 0 then { s with pendingKey := put s.pendingKey s.activeTty byte }
  else s

/-- `poll_user_key`. -/
def pollUserKey (s : Keyboard) (tty : Nat) : Option UInt8 × Keyboard :=
  if ttyCount ≤ tty then (none, s)
  else
    let byte := s.pendingKey tty
    let s := { s with pendingKey := put s.pendingKey tty 0 }
    if byte = 0 then (none, s) else (decodeScancode byte, s)

end Keyboard

/-! ## The history -/

inductive KeyEvent
  | scancode (byte : UInt8)
  | poll (tty : Nat)
  deriving DecidableEq

/-- The keyboard after a history, the newest event first. -/
def keyboardAfter : List KeyEvent → Keyboard
  | [] => .initial
  | .scancode byte :: before => (keyboardAfter before).handleScancode byte
  | .poll tty :: before => ((keyboardAfter before).pollUserKey tty).2

/-- The last code of the Alt key says that it is down. -/
def altDown (h : List KeyEvent) : Bool :=
  h.find? (fun e => e = .scancode scancodeAltMake || e = .scancode scancodeAltBreak) =
    some (.scancode scancodeAltMake)

/-- The terminal that the last Alt+Fn has selected. -/
def selectedTty : List KeyEvent → Nat
  | [] => 0
  | .scancode byte :: before =>
    if altDown before && isFunctionKey byte then (byte - scancodeF1).toNat else selectedTty before
  | .poll _ :: before => selectedTty before

/-- The byte, which arrives after this history, is a make code that is meant
for a program: not Alt, and not F1 to F3 while Alt is held. -/
def IsKey (before : List KeyEvent) (byte : UInt8) : Prop :=
  byte &&& 0x80 = 0 ∧ byte ≠ scancodeAltMake ∧ ¬ (altDown before ∧ isFunctionKey byte)

/-- The byte is a key that is typed while `tty` is active. -/
def TypedOn (tty : Nat) (before : List KeyEvent) (byte : UInt8) : Prop :=
  IsKey before byte ∧ selectedTty before = tty

/-- The byte is the last key that has been typed on `tty` since the last poll
there. -/
def LastKey (tty : Nat) (h : List KeyEvent) (byte : UInt8) : Prop :=
  ∃ after before, h = after ++ .scancode byte :: before ∧ TypedOn tty before byte ∧
    .poll tty ∉ after ∧
    ∀ newer later older, after = newer ++ .scancode later :: older →
      ¬ TypedOn tty (older ++ .scancode byte :: before) later

/-- What the terminals promise after a history. -/
structure KeysReachTty (h : List KeyEvent) (s : Keyboard) : Prop where
  polled : ∀ tty character, (s.pollUserKey tty).1 = some character ↔
    ∃ byte, LastKey tty h byte ∧ decodeScancode byte = some character
  selected : s.activeTty = selectedTty h
  active : s.activeTty < ttyCount

section History

variable {h before : List KeyEvent} {tty : Nat} {byte : UInt8} {e : KeyEvent}

theorem LastKey.cons_iff : LastKey tty (e :: h) byte ↔
    (e = .scancode byte ∧ TypedOn tty h byte) ∨
      (LastKey tty h byte ∧ e ≠ .poll tty ∧ ∀ later, e = .scancode later → ¬ TypedOn tty h later) := by
  constructor
  · rintro ⟨after, before, heq, htyped, hpoll, hlater⟩
    cases after with
    | nil =>
      obtain ⟨rfl, rfl⟩ := List.cons.inj heq
      exact .inl ⟨rfl, htyped⟩
    | cons first after =>
      obtain ⟨rfl, rfl⟩ := List.cons.inj heq
      refine .inr ⟨⟨after, before, rfl, htyped, fun hmem => hpoll (by simp [hmem]), ?_⟩, ?_, ?_⟩
      · rintro newer later older rfl
        exact hlater (e :: newer) later older rfl
      · rintro rfl
        exact hpoll (by simp)
      · rintro later rfl
        exact hlater [] later after rfl
  · rintro (⟨rfl, htyped⟩ | ⟨⟨after, before, rfl, htyped, hpoll, hlater⟩, hother, hnew⟩)
    · refine ⟨[], h, rfl, htyped, by simp, fun newer later older heq => ?_⟩
      cases newer <;> cases heq
    · refine ⟨e :: after, before, rfl, htyped, ?_, ?_⟩
      · rw [List.mem_cons, not_or]
        exact ⟨fun heq => hother heq.symm, hpoll⟩
      · intro newer later older heq
        cases newer with
        | nil =>
          obtain ⟨rfl, rfl⟩ := List.cons.inj heq
          exact hnew later rfl
        | cons first newer =>
          obtain ⟨-, rfl⟩ := List.cons.inj heq
          exact hlater newer later older rfl

theorem not_lastKey_nil : ¬ LastKey tty [] byte := by
  rintro ⟨after, before, heq, -⟩
  cases after <;> cases heq

theorem functionKey_lt (hkey : isFunctionKey byte = true) : (byte - scancodeF1).toNat < ttyCount := by
  unfold isFunctionKey at hkey
  obtain ⟨hlow, hhigh⟩ := of_decide_eq_true hkey
  have hlow' : 0x3B ≤ byte.toNat := UInt8.le_iff_toNat_le.mp hlow
  have hhigh' : byte.toNat < 0x3E := UInt8.lt_iff_toNat_lt.mp hhigh
  rw [UInt8.toNat_sub_of_le _ _ hlow]
  show byte.toNat - 0x3B < 3
  omega

theorem altDown_scancode (byte : UInt8) (h : List KeyEvent) :
    altDown (.scancode byte :: h) =
      if byte = scancodeAltMake then true
      else if byte = scancodeAltBreak then false else altDown h := by
  unfold altDown
  by_cases hmake : byte = scancodeAltMake
  · subst hmake
    rw [List.find?_cons_of_pos (by decide), if_pos rfl]
    exact decide_eq_true rfl
  · rw [if_neg hmake]
    by_cases hbreak : byte = scancodeAltBreak
    · subst hbreak
      rw [List.find?_cons_of_pos (by decide), if_pos rfl]
      decide
    · rw [if_neg hbreak, List.find?_cons_of_neg (by simp [hmake, hbreak])]

theorem altDown_poll (tty : Nat) (h : List KeyEvent) : altDown (.poll tty :: h) = altDown h := by
  unfold altDown
  rw [List.find?_cons_of_neg (by simp)]

theorem selectedTty_scancode (byte : UInt8) (h : List KeyEvent) :
    selectedTty (.scancode byte :: h) =
      if altDown h && isFunctionKey byte then (byte - scancodeF1).toNat else selectedTty h := rfl

theorem selectedTty_lt (h : List KeyEvent) : selectedTty h < ttyCount := by
  induction h with
  | nil => exact (by decide : 0 < ttyCount)
  | cons e h ih =>
    cases e with
    | scancode byte =>
      rw [selectedTty_scancode]
      split
      · rename_i hswitch
        exact functionKey_lt (Bool.and_eq_true_iff.mp hswitch).2
      · exact ih
    | poll tty => exact ih

/-- The Alt codes select nothing. -/
theorem altMake_not_function : isFunctionKey scancodeAltMake = false := by decide

theorem altBreak_not_function : isFunctionKey scancodeAltBreak = false := by decide

end History

/-! ## The invariant -/

/-- The keyboard knows what the history tells. -/
structure Keyboard.Follows (s : Keyboard) (h : List KeyEvent) : Prop where
  alt : s.altHeld = altDown h
  active : s.activeTty = selectedTty h
  pending : ∀ tty byte, LastKey tty h byte → s.pendingKey tty = byte
  last : ∀ tty, s.pendingKey tty ≠ 0 → LastKey tty h (s.pendingKey tty)

namespace Keyboard

variable {s : Keyboard} {h : List KeyEvent} {byte : UInt8} {tty : Nat}

theorem Follows.initial : initial.Follows [] :=
  ⟨rfl, rfl, fun _ _ hkey => absurd hkey not_lastKey_nil, fun _ hne => absurd rfl hne⟩

/-- A byte that is no key leaves the pending keys. -/
theorem Follows.noKey {s' : Keyboard} (hs : s.Follows h) (hpending : s'.pendingKey = s.pendingKey)
    (halt : s'.altHeld = altDown (.scancode byte :: h))
    (hactive : s'.activeTty = selectedTty (.scancode byte :: h)) (hkey : ¬ IsKey h byte) :
    s'.Follows (.scancode byte :: h) := by
  have hsame : ∀ tty other, LastKey tty (.scancode byte :: h) other ↔ LastKey tty h other := by
    intro tty other
    rw [LastKey.cons_iff]
    constructor
    · rintro (⟨heq, htyped⟩ | ⟨hlast, -⟩)
      · obtain rfl := KeyEvent.scancode.inj heq
        exact absurd htyped.1 hkey
      · exact hlast
    · intro hlast
      refine .inr ⟨hlast, by simp, fun later heq htyped => ?_⟩
      obtain rfl := KeyEvent.scancode.inj heq
      exact hkey htyped.1
  refine ⟨halt, hactive, fun tty other hlast => ?_, fun tty hne => ?_⟩
  · rw [hpending]
    exact hs.pending tty other ((hsame tty other).mp hlast)
  · rw [hpending] at hne ⊢
    exact (hsame tty _).mpr (hs.last tty hne)

/-- A key replaces the one that is pending on the active terminal. -/
theorem Follows.key (hs : s.Follows h) (hkey : IsKey h byte)
    (halt : altDown (.scancode byte :: h) = altDown h)
    (hactive : selectedTty (.scancode byte :: h) = selectedTty h) :
    Follows { s with pendingKey := put s.pendingKey s.activeTty byte } (.scancode byte :: h) := by
  have hcases : ∀ tty other, LastKey tty (.scancode byte :: h) other ↔
      (selectedTty h = tty ∧ other = byte) ∨ (selectedTty h ≠ tty ∧ LastKey tty h other) := by
    intro tty other
    rw [LastKey.cons_iff]
    constructor
    · rintro (⟨heq, htyped⟩ | ⟨hlast, -, hnew⟩)
      · exact .inl ⟨htyped.2, (KeyEvent.scancode.inj heq).symm⟩
      · exact .inr ⟨fun hsame => hnew byte rfl ⟨hkey, hsame⟩, hlast⟩
    · rintro (⟨hsame, rfl⟩ | ⟨hother, hlast⟩)
      · exact .inl ⟨rfl, hkey, hsame⟩
      · refine .inr ⟨hlast, by simp, fun later heq htyped => ?_⟩
        exact hother htyped.2
  refine ⟨hs.alt.trans halt.symm, hs.active.trans hactive.symm, fun tty other hlast => ?_,
    fun tty hne => ?_⟩
  · show put _ _ _ _ = _
    rw [hs.active]
    rcases (hcases tty other).mp hlast with ⟨rfl, rfl⟩ | ⟨hother, hlast⟩
    · exact put_same _ _ _
    · rw [put_other (Ne.symm hother)]
      exact hs.pending tty other hlast
  · change put _ _ _ _ ≠ 0 at hne
    show LastKey tty _ (put _ _ _ _)
    rw [hs.active] at hne ⊢
    by_cases hsame : selectedTty h = tty
    · rw [hsame, put_same]
      exact (hcases tty byte).mpr (.inl ⟨hsame, rfl⟩)
    · rw [put_other (Ne.symm hsame)] at hne ⊢
      exact (hcases tty _).mpr (.inr ⟨hsame, hs.last tty hne⟩)

theorem Follows.scancode (hs : s.Follows h) (byte : UInt8) :
    (s.handleScancode byte).Follows (.scancode byte :: h) := by
  have hselected : isFunctionKey byte = false →
      selectedTty (.scancode byte :: h) = selectedTty h := by
    intro hno
    rw [selectedTty_scancode, hno, Bool.and_false]
    rfl
  unfold handleScancode
  by_cases hmake : byte = scancodeAltMake
  · subst hmake
    rw [if_pos rfl]
    refine hs.noKey rfl ?_ (hs.active.trans (hselected altMake_not_function).symm)
      fun hkey => hkey.2.1 rfl
    rw [altDown_scancode, if_pos rfl]
  rw [if_neg hmake]
  by_cases hbreak : byte = scancodeAltBreak
  · subst hbreak
    rw [if_pos rfl]
    refine hs.noKey rfl ?_ (hs.active.trans (hselected altBreak_not_function).symm)
      fun hkey => absurd hkey.1 (by decide)
    rw [altDown_scancode, if_neg hmake, if_pos rfl]
  rw [if_neg hbreak]
  have halt : altDown (.scancode byte :: h) = altDown h := by
    rw [altDown_scancode, if_neg hmake, if_neg hbreak]
  by_cases hswitch : (s.altHeld && isFunctionKey byte) = true
  · rw [if_pos hswitch]
    obtain ⟨hheld, hfunction⟩ := Bool.and_eq_true_iff.mp hswitch
    unfold switchTty
    rw [if_neg (Nat.not_le_of_lt (functionKey_lt hfunction))]
    refine hs.noKey rfl (hs.alt.trans halt.symm) ?_ fun hkey => ?_
    · rw [hs.alt] at hswitch
      rw [selectedTty_scancode, if_pos hswitch]
    · rw [hs.alt] at hheld
      exact hkey.2.2 ⟨hheld, hfunction⟩
  · rw [if_neg hswitch]
    rw [hs.alt, Bool.and_eq_true_iff] at hswitch
    have hactive : selectedTty (.scancode byte :: h) = selectedTty h := by
      rw [selectedTty_scancode, if_neg (by rwa [Bool.and_eq_true_iff])]
    by_cases hbit : byte &&& 0x80 = 0
    · rw [if_pos hbit]
      exact hs.key ⟨hbit, hmake, hswitch⟩ halt hactive
    · rw [if_neg hbit]
      exact hs.noKey rfl (hs.alt.trans halt.symm) (hs.active.trans hactive.symm)
        fun hkey => hbit hkey.1

/-- No key is pending where none can be typed. -/
theorem Follows.none_pending (hs : s.Follows h) (htty : ttyCount ≤ tty) : s.pendingKey tty = 0 := by
  by_contra hne
  obtain ⟨after, before, -, htyped, -⟩ := hs.last tty hne
  have hlt := selectedTty_lt before
  rw [htyped.2] at hlt
  omega

theorem pollUserKey_pending (hs : s.Follows h) (tty : Nat) :
    (s.pollUserKey tty).2 = { s with pendingKey := put s.pendingKey tty 0 } := by
  unfold pollUserKey
  by_cases htty : ttyCount ≤ tty
  · rw [if_pos htty, ← hs.none_pending htty, put_self]
  · rw [if_neg htty]
    dsimp only
    split <;> rfl

theorem Follows.poll (hs : s.Follows h) (tty : Nat) :
    (s.pollUserKey tty).2.Follows (.poll tty :: h) := by
  have hcases : ∀ other byte, LastKey other (.poll tty :: h) byte ↔
      other ≠ tty ∧ LastKey other h byte := by
    intro other byte
    rw [LastKey.cons_iff]
    constructor
    · rintro (⟨heq, -⟩ | ⟨hlast, hother, -⟩)
      · cases heq
      · exact ⟨fun heq => hother (by rw [heq]), hlast⟩
    · rintro ⟨hother, hlast⟩
      exact .inr ⟨hlast, fun heq => hother (KeyEvent.poll.inj heq).symm, fun _ heq => nomatch heq⟩
  rw [pollUserKey_pending hs]
  refine ⟨hs.alt.trans (altDown_poll tty h).symm, hs.active, fun other byte hlast => ?_,
    fun other hne => ?_⟩
  · obtain ⟨hother, hlast⟩ := (hcases other byte).mp hlast
    show put _ _ _ _ = _
    rw [put_other hother]
    exact hs.pending other byte hlast
  · change put _ _ _ _ ≠ 0 at hne
    show LastKey other _ (put _ _ _ _)
    by_cases hsame : other = tty
    · rw [hsame, put_same] at hne
      exact absurd rfl hne
    · rw [put_other hsame] at hne ⊢
      exact (hcases other _).mpr ⟨hsame, hs.last other hne⟩

theorem follows_after (h : List KeyEvent) : (keyboardAfter h).Follows h := by
  induction h with
  | nil => exact .initial
  | cons e h ih =>
    cases e with
    | scancode byte => exact ih.scancode byte
    | poll tty => exact ih.poll tty

/-- What a poll returns is the decoding of the key that is pending. -/
theorem pollUserKey_fst (s : Keyboard) (tty : Nat) :
    (s.pollUserKey tty).1 = if ttyCount ≤ tty then none else decodeScancode (s.pendingKey tty) := by
  unfold pollUserKey
  by_cases htty : ttyCount ≤ tty
  · rw [if_pos htty, if_pos htty]
  · rw [if_neg htty, if_neg htty]
    dsimp only
    by_cases hzero : s.pendingKey tty = 0
    · rw [if_pos hzero, hzero]
      exact (by decide : none = decodeScancode 0)
    · rw [if_neg hzero]

end Keyboard

/-- After any bytes and polls, a poll returns the last key that was typed on
its terminal since the poll before it. -/
theorem keys_reach_their_tty (h : List KeyEvent) : KeysReachTty h (keyboardAfter h) := by
  have hs := Keyboard.follows_after h
  refine ⟨fun tty character => ?_, hs.active, ?_⟩
  · rw [Keyboard.pollUserKey_fst]
    constructor
    · intro hpoll
      split at hpoll
      · cases hpoll
      · refine ⟨_, hs.last tty fun hzero => ?_, hpoll⟩
        rw [hzero] at hpoll
        cases hpoll
    · rintro ⟨byte, hlast, hdecode⟩
      have htty : ¬ ttyCount ≤ tty := by
        obtain ⟨after, before, -, htyped, -⟩ := hlast
        rw [← htyped.2]
        exact Nat.not_le_of_lt (selectedTty_lt before)
      rw [if_neg htty, hs.pending tty byte hlast]
      exact hdecode
  · rw [hs.active]
    exact selectedTty_lt h

end OpenKernel
