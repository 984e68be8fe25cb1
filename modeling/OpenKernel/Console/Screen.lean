import OpenKernel.Console.Framebuffer
import OpenKernel.Console.Terminals

/-!
# Virtual terminals

The user console of `console.rs`.  Every terminal draws text, and a cursor bar,
into a buffer of its own, or the first one into the framebuffer itself;
`cursor_visible` tells whether the bar is drawn.  The copy of a buffer to the
real screen, which follows every call, is left out.
-/

namespace OpenKernel

open Lib

def lineFeed : UInt8 := 0x0A
def carriageReturn : UInt8 := 0x0D

/-- `TtyState` without the pending key, and what the terminal draws into. -/
structure Screen where
  buffer : FramebufferBytes
  cursorX : Nat
  cursorY : Nat
  cursorVisible : Bool
  blinkTicks : UInt8

namespace Screen

/-- `TtyState::EMPTY`, with the buffer all zero. -/
def empty : Screen :=
  { buffer := fun _ => 0
    cursorX := consoleMargin
    cursorY := consoleMargin
    cursorVisible := false
    blinkTicks := 0 }

/-- The two rows of the bar under a cell. -/
def bar (x y : Nat) : List (Nat × Nat) :=
  rectangle x (y + (consoleLineHeight - 2)) consoleCharacterWidth 2

/-- `show_cursor`. -/
def showCursor (fb : Framebuffer) (s : Screen) : Screen :=
  { s with
    buffer := fb.paint (bar s.cursorX s.cursorY) foreground s.buffer
    cursorVisible := true }

/-- `hide_cursor`. -/
def hideCursor (fb : Framebuffer) (s : Screen) : Screen :=
  if s.cursorVisible then
    { s with
      buffer := fb.paint (bar s.cursorX s.cursorY) background s.buffer
      cursorVisible := false }
  else s

/-- `clear_tty`. -/
def clearTty (fb : Framebuffer) (s : Screen) : Screen :=
  showCursor fb
    { s with
      buffer := fb.paint (rectangle 0 0 fb.width fb.height) background s.buffer
      cursorX := consoleMargin
      cursorY := consoleMargin
      cursorVisible := false }

/-- `newline`. -/
def newline (fb : Framebuffer) (s : Screen) : Screen :=
  if fb.height < s.cursorY + consoleLineHeight + consoleLineHeight then
    clearTty fb s
  else
    { s with
      cursorX := consoleMargin
      cursorY := s.cursorY + consoleLineHeight }

/-- One turn of the loop of `user_console_write`. -/
def writeByte (fb : Framebuffer) (s : Screen) (byte : UInt8) : Screen :=
  if byte = carriageReturn then s
  else if byte = lineFeed then newline fb s
  else
    let s :=
      if fb.width < s.cursorX + consoleCharacterWidth then newline fb s else s
    { s with
      buffer := fb.paint (glyphPoints byte s.cursorX s.cursorY) foreground
        s.buffer
      cursorX := s.cursorX + consoleCharacterWidth }

/-- `user_console_write`. -/
def userConsoleWrite (fb : Framebuffer) (s : Screen) (text : List UInt8) :
    Screen :=
  showCursor fb (text.foldl (writeByte fb) (hideCursor fb s))

/-- `user_console_backspace`. -/
def userConsoleBackspace (fb : Framebuffer) (s : Screen) : Screen :=
  let s := hideCursor fb s
  if s.cursorX ≤ consoleMargin then showCursor fb s
  else
    let previousX := s.cursorX - consoleCharacterWidth
    showCursor fb
      { s with
        buffer := fb.paint
          (rectangle previousX s.cursorY consoleCharacterWidth
            consoleLineHeight) background s.buffer
        cursorX := previousX }

/-- The turn of `user_console_tick` for one terminal. -/
def userConsoleTick (fb : Framebuffer) (s : Screen) : Screen :=
  let s := { s with blinkTicks := s.blinkTicks + 1 }
  if s.blinkTicks < 50 then s
  else
    let s := { s with blinkTicks := 0 }
    if s.cursorVisible then hideCursor fb s else showCursor fb s

end Screen

/-! ## All terminals -/

/-- `PRIMARY_FRAMEBUFFER` and the terminals. -/
structure Consoles where
  framebuffer : Option Framebuffer
  screens : Nat → Screen

/-- `MULTI_TTY_ENABLED`, which `enable_user_console` decides. -/
def Framebuffer.multiTty (fb : Framebuffer) : Bool :=
  fb.bitsPerPixel == 32 && fb.width ≤ 1280 && fb.height ≤ 800

namespace Consoles

/-- The statics before the boot. -/
def initial : Consoles :=
  { framebuffer := none
    screens := fun _ => .empty }

/-- `tty_target`: the buffer of the terminal, whose rows hold just their
pixels, or for the first terminal the framebuffer itself. -/
def ttyTarget (c : Consoles) (tty : Nat) : Option Framebuffer :=
  if ttyCount ≤ tty then none
  else
    match c.framebuffer with
    | none => none
    | some primary =>
      if primary.multiTty then some { primary with pitch := primary.width * 4 }
      else if tty = 0 then some primary
      else none

/-- A terminal that can draw has a buffer of its own, or it is the first one
and draws into the framebuffer. -/
theorem ttyTarget_cases {c : Consoles} {tty : Nat} {fb : Framebuffer}
    (h : c.ttyTarget tty = some fb) : ∃ primary, c.framebuffer = some primary ∧
      (primary.multiTty = true ∧ fb = { primary with pitch := primary.width * 4 } ∨
        primary.multiTty = false ∧ fb = primary) := by
  unfold ttyTarget at h
  split at h
  · cases h
  · cases hprimary : c.framebuffer with
    | none =>
      rw [hprimary] at h
      cases h
    | some primary =>
      rw [hprimary] at h
      dsimp only at h
      refine ⟨primary, rfl, ?_⟩
      split at h
      · rename_i hmulti
        exact .inl ⟨hmulti, (Option.some.inj h).symm⟩
      · rename_i hmulti
        split at h
        · exact .inr ⟨eq_false_of_ne_true hmulti, (Option.some.inj h).symm⟩
        · cases h

/-- Run a call on one terminal, if it can draw. -/
def onTty (c : Consoles) (tty : Nat) (f : Framebuffer → Screen → Screen) :
    Consoles :=
  match c.ttyTarget tty with
  | none => c
  | some fb => { c with screens := put c.screens tty (f fb (c.screens tty)) }

/-- A call that goes through all terminals. -/
def onAll (c : Consoles) (f : Framebuffer → Screen → Screen) : Consoles :=
  (List.range ttyCount).foldl (fun c tty => c.onTty tty f) c

/-- `enable_user_console`. -/
def enableUserConsole (c : Consoles) (fb : Framebuffer) : Consoles :=
  { c with framebuffer := some fb }.onAll Screen.clearTty

@[simp] theorem framebuffer_onTty (c : Consoles) (tty : Nat)
    (f : Framebuffer → Screen → Screen) :
    (c.onTty tty f).framebuffer = c.framebuffer := by
  unfold onTty
  split <;> rfl

theorem ttyTarget_onTty (c : Consoles) (tty : Nat)
    (f : Framebuffer → Screen → Screen) :
    (c.onTty tty f).ttyTarget = c.ttyTarget := by
  funext other
  simp [ttyTarget]

/-- A terminal that can draw takes the call of its own. -/
theorem screens_onTty (c : Consoles) (tty other : Nat)
    (f : Framebuffer → Screen → Screen) {fb : Framebuffer}
    (htarget : c.ttyTarget other = some fb) :
    (c.onTty tty f).screens other =
      if other = tty then f fb (c.screens other) else c.screens other := by
  unfold onTty
  by_cases hother : other = tty
  · subst hother
    simp [htarget]
  · rw [if_neg hother]
    split
    · rfl
    · exact put_other hother

theorem ttyTarget_foldl (ttys : List Nat) (c : Consoles)
    (f : Framebuffer → Screen → Screen) :
    (ttys.foldl (fun c tty => c.onTty tty f) c).ttyTarget = c.ttyTarget := by
  induction ttys generalizing c with
  | nil => rfl
  | cons tty ttys ih => rw [List.foldl_cons, ih, ttyTarget_onTty]

theorem ttyTarget_onAll (c : Consoles) (f : Framebuffer → Screen → Screen) :
    (c.onAll f).ttyTarget = c.ttyTarget :=
  ttyTarget_foldl _ c f

theorem screens_foldl (f : Framebuffer → Screen → Screen) (count : Nat)
    (c : Consoles) {other : Nat} {fb : Framebuffer}
    (htarget : c.ttyTarget other = some fb) :
    ((List.range count).foldl (fun c tty => c.onTty tty f) c).screens other =
      if other < count then f fb (c.screens other) else c.screens other := by
  induction count with
  | zero => simp
  | succ count ih =>
    rw [List.range_succ, List.foldl_append, List.foldl_cons, List.foldl_nil,
      screens_onTty _ _ _ _ ((congrFun (ttyTarget_foldl _ c f) other).trans
        htarget), ih]
    by_cases hother : other = count
    · subst hother
      simp
    · rw [if_neg hother]
      by_cases hlt : other < count
      · rw [if_pos hlt, if_pos (by omega)]
      · rw [if_neg hlt, if_neg (by omega)]

/-- Every terminal that can draw takes a call for all of them. -/
theorem screens_onAll (c : Consoles) (f : Framebuffer → Screen → Screen)
    {tty : Nat} {fb : Framebuffer} (htarget : c.ttyTarget tty = some fb) :
    (c.onAll f).screens tty = f fb (c.screens tty) := by
  have hlt : tty < ttyCount := by
    unfold ttyTarget at htarget
    split at htarget
    · cases htarget
    · omega
  rw [onAll, screens_foldl f ttyCount c htarget, if_pos hlt]

end Consoles

/-- A call of the user console. -/
inductive ConsoleCall
  | write (tty : Nat) (text : List UInt8)
  | backspace (tty : Nat)
  | clear (tty : Nat)
  | tick

/-- `user_console_write`, `user_console_backspace`, `user_console_clear` and
`user_console_tick`. -/
def Consoles.perform (c : Consoles) : ConsoleCall → Consoles
  | .write tty text =>
    c.onTty tty fun fb s => s.userConsoleWrite fb text
  | .backspace tty => c.onTty tty fun fb s => s.userConsoleBackspace fb
  | .clear tty => c.onTty tty fun fb s => s.clearTty fb
  | .tick => c.onAll fun fb s => s.userConsoleTick fb

end OpenKernel
