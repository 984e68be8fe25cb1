import OpenKernel.Console.Screen

/-!
# The bounds of the framebuffer

Every pixel is four bytes, written at `y * pitch + 4 * x`; the drawing clips
`x` and `y` to the width and the height, and nothing looks at the pitch.  A
row has to hold four bytes a pixel, which it does at 32 bits per pixel and
need not do otherwise (`pixel_writes_inside`).

Each call of the console has the list of its accesses beside it here; where
the cursor stands is that of `Screen`.
-/

namespace OpenKernel

open Lib

def maxTtyWidth : Nat := 1280
def maxTtyHeight : Nat := 800
def ttyBufferBytes : Nat := maxTtyWidth * maxTtyHeight * 4

/-- What a framebuffer address points to: the screen, with its size in bytes,
or the buffer of a terminal. -/
inductive Surface
  | hardware (bytes : Nat)
  | tty (tty : Nat)
  deriving DecidableEq, Repr

def Surface.bytes : Surface → Nat
  | .hardware bytes => bytes
  | .tty _ => ttyBufferBytes

/-- An access to the four bytes of a pixel. -/
structure PixelAccess where
  surface : Surface
  offset : Nat
  deriving DecidableEq, Repr

def PixelAccess.InBounds (a : PixelAccess) : Prop := a.offset + 4 ≤ a.surface.bytes

/-- What the drawing functions get: a framebuffer, with what its address points
to. -/
structure Target extends Framebuffer where
  surface : Surface
  deriving DecidableEq, Repr

namespace Framebuffer

def target (fb : Framebuffer) : Target :=
  { fb with surface := .hardware (fb.height * fb.pitch) }

/-- What the address that `tty_target` returns points to. -/
def ttySurface (fb : Framebuffer) (tty : Nat) : Surface :=
  if fb.multiTty then .tty tty else .hardware (fb.height * fb.pitch)

end Framebuffer

namespace Target

/-- `put_framebuffer_pixel` for these points. -/
def put (t : Target) (points : List (Nat × Nat)) : List PixelAccess :=
  points.filterMap fun point =>
    (t.framebufferPixel point.1 point.2).map fun offset => { surface := t.surface, offset }

end Target

/-- `blit_to_primary`: for each pixel, a read and a write. -/
def blitToPrimary (primary source : Target) : List PixelAccess :=
  (List.range source.height).flatMap fun row =>
    (List.range source.width).flatMap fun column =>
      [{ surface := source.surface, offset := row * source.pitch + column * 4 },
        { surface := primary.surface, offset := row * primary.pitch + column * 4 }]

/-! ## The calls on one terminal -/

/-- What a call on a terminal draws with: its target, and the accesses of
`blit_if_active`. -/
structure Canvas where
  target : Target
  blit : List PixelAccess

namespace Canvas

variable (c : Canvas)

/-- `show_cursor`. -/
def showCursor (s : Screen) : List PixelAccess :=
  c.target.put (Screen.bar s.cursorX s.cursorY)

/-- `hide_cursor`. -/
def hideCursor (s : Screen) : List PixelAccess :=
  if s.cursorVisible then c.target.put (Screen.bar s.cursorX s.cursorY) else []

/-- `clear_tty`. -/
def clearTty : List PixelAccess :=
  c.target.put (rectangle 0 0 c.target.width c.target.height) ++
    c.target.put (Screen.bar consoleMargin consoleMargin) ++ c.blit

/-- `newline`. -/
def newline (s : Screen) : List PixelAccess :=
  if c.target.height < s.cursorY + consoleLineHeight + consoleLineHeight then c.clearTty else []

/-- One turn of the loop of `user_console_write`. -/
def writeByte (s : Screen) (byte : UInt8) : List PixelAccess :=
  if byte = carriageReturn then []
  else if byte = lineFeed then c.newline s
  else if c.target.width < s.cursorX + consoleCharacterWidth then
    c.newline s ++
      c.target.put (glyphPoints byte (s.newline c.target.toFramebuffer).cursorX
        (s.newline c.target.toFramebuffer).cursorY)
  else c.target.put (glyphPoints byte s.cursorX s.cursorY)

/-- The loop of `user_console_write`. -/
def writeBytes : List UInt8 → Screen → List PixelAccess
  | [], _ => []
  | byte :: text, s =>
    c.writeByte s byte ++ writeBytes text (s.writeByte c.target.toFramebuffer byte)

/-- `user_console_write`. -/
def userConsoleWrite (s : Screen) (text : List UInt8) : List PixelAccess :=
  let fb := c.target.toFramebuffer
  c.hideCursor s ++ c.writeBytes text (s.hideCursor fb) ++
    c.showCursor (text.foldl (Screen.writeByte fb) (s.hideCursor fb)) ++ c.blit

/-- `user_console_backspace`. -/
def userConsoleBackspace (s : Screen) : List PixelAccess :=
  if s.cursorX ≤ consoleMargin then c.hideCursor s ++ c.showCursor s
  else
    let previousX := s.cursorX - consoleCharacterWidth
    c.hideCursor s ++
      c.target.put (rectangle previousX s.cursorY consoleCharacterWidth consoleLineHeight) ++
      c.showCursor { s with cursorX := previousX } ++ c.blit

/-- The turn of `user_console_tick` for one terminal. -/
def userConsoleTick (s : Screen) : List PixelAccess :=
  if s.blinkTicks + 1 < 50 then []
  else (if s.cursorVisible then c.hideCursor s else c.showCursor s) ++ c.blit

end Canvas

/-! ## All terminals -/

/-- The terminals with `ACTIVE_TTY` and the accesses so far. -/
structure Display extends Consoles where
  activeTty : Nat
  accesses : List PixelAccess

inductive DisplayCall
  /-- `enable_user_console` -/
  | enable (fb : Framebuffer)
  | call (call : ConsoleCall)
  /-- `switch_tty` -/
  | switch (tty : Nat)

namespace Display

/-- The statics before the boot. -/
def initial : Display :=
  { Consoles.initial with
    activeTty := 0
    accesses := [] }

/-- The target of a terminal that can draw, and the framebuffer. -/
def targets (d : Display) (tty : Nat) : Option (Target × Framebuffer) :=
  match d.framebuffer, d.ttyTarget tty with
  | some primary, some fb => some ({ fb with surface := primary.ttySurface tty }, primary)
  | _, _ => none

def canvas (d : Display) (tty : Nat) : Option Canvas :=
  (d.targets tty).map fun (target, primary) =>
    { target
      blit :=
        if primary.multiTty && tty == d.activeTty then blitToPrimary primary.target target
        else [] }

/-- The accesses of a call on one terminal. -/
def accessesOn (d : Display) (tty : Nat) (f : Canvas → Screen → List PixelAccess) :
    List PixelAccess :=
  match d.canvas tty with
  | none => []
  | some c => f c (d.screens tty)

/-- The accesses of a call that goes through all terminals. -/
def accessesOnAll (d : Display) (f : Canvas → Screen → List PixelAccess) : List PixelAccess :=
  (List.range ttyCount).flatMap fun tty => d.accessesOn tty f

/-- The accesses of a call. -/
def accessesOf (d : Display) : ConsoleCall → List PixelAccess
  | .write tty text => d.accessesOn tty fun c s => c.userConsoleWrite s text
  | .backspace tty => d.accessesOn tty fun c s => c.userConsoleBackspace s
  | .clear tty => d.accessesOn tty fun c _ => c.clearTty
  | .tick => d.accessesOnAll fun c s => c.userConsoleTick s

def perform (d : Display) : DisplayCall → Display
  | .enable fb =>
    let enabled : Display := { d with toConsoles := d.enableUserConsole fb }
    { enabled with accesses := d.accesses ++ enabled.accessesOnAll fun c _ => c.clearTty }
  | .call call =>
    { d with
      toConsoles := d.toConsoles.perform call
      accesses := d.accesses ++ d.accessesOf call }
  | .switch tty =>
    if ttyCount ≤ tty then d
    else
      { d with
        activeTty := tty
        accesses := d.accesses ++
          match d.targets tty with
          | none => []
          | some (target, primary) => blitToPrimary primary.target target }

/-- The display after these calls. -/
def after (calls : List DisplayCall) : Display := calls.foldl perform initial

end Display

/-! ## What fits -/

/-- A row holds the pixels that are written to it. -/
def Framebuffer.RowsFit (fb : Framebuffer) : Prop :=
  fb.height = 0 ∨ fb.HoldsRow

/-- What an adapter promises: a row holds its pixels at their depth. -/
def Framebuffer.WellFormed (fb : Framebuffer) : Prop :=
  fb.width * fb.bitsPerPixel / 8 ≤ fb.pitch

/-- Every pixel of the target lies inside its surface. -/
def Target.Inside (t : Target) : Prop :=
  ∀ x < t.width, ∀ y < t.height, y * t.pitch + x * 4 + 4 ≤ t.surface.bytes

section Bounds

variable {fb : Framebuffer} {t primary : Target} {tty x y width height pitch : Nat}
  {a : PixelAccess}

theorem pixel_end_le (hx : x < width) (hy : y < height) (hpitch : 4 * width ≤ pitch) :
    y * pitch + x * 4 + 4 ≤ height * pitch := by
  calc y * pitch + x * 4 + 4 ≤ y * pitch + pitch := by omega
    _ = (y + 1) * pitch := (Nat.succ_mul y pitch).symm
    _ ≤ height * pitch := Nat.mul_le_mul_right pitch hy

theorem Framebuffer.RowsFit.target (h : fb.RowsFit) : fb.target.Inside := by
  intro x hx y hy
  rcases h with hzero | hpitch
  · change y < fb.height at hy
    omega
  · exact pixel_end_le hx hy hpitch

/-- The buffer of a terminal is large enough for what `MULTI_TTY_ENABLED`
lets through. -/
theorem Framebuffer.inside_tty (hmulti : fb.multiTty = true) (tty : Nat) :
    Target.Inside { fb with pitch := fb.width * 4, surface := .tty tty } := by
  intro x hx y hy
  have hsmall : fb.width ≤ maxTtyWidth ∧ fb.height ≤ maxTtyHeight := by
    unfold Framebuffer.multiTty at hmulti
    simp only [Bool.and_eq_true, decide_eq_true_eq] at hmulti
    exact ⟨hmulti.1.2, hmulti.2⟩
  have hend : y * (fb.width * 4) + x * 4 + 4 ≤ fb.height * (fb.width * 4) :=
    pixel_end_le hx hy (Nat.le_of_eq (Nat.mul_comm 4 fb.width))
  have hbuffer : fb.height * (fb.width * 4) ≤ maxTtyHeight * (maxTtyWidth * 4) :=
    Nat.mul_le_mul hsmall.2 (Nat.mul_le_mul_right 4 hsmall.1)
  exact Nat.le_trans hend hbuffer

theorem Target.Inside.put (h : t.Inside) {points : List (Nat × Nat)} (ha : a ∈ t.put points) :
    a.InBounds := by
  obtain ⟨⟨x, y⟩, -, hpixel⟩ := List.mem_filterMap.mp ha
  obtain ⟨offset, hoffset, rfl⟩ := Option.map_eq_some_iff.mp hpixel
  unfold Framebuffer.framebufferPixel at hoffset
  split at hoffset
  · cases hoffset
  · rename_i hclip
    obtain rfl := Option.some.inj hoffset
    exact h x (by omega) y (by omega)

/-- A blit stays in both surfaces when they have the same shape. -/
theorem Target.Inside.blit (h : t.Inside) (hprimary : primary.Inside)
    (hwidth : t.width = primary.width) (hheight : t.height = primary.height)
    (ha : a ∈ blitToPrimary primary t) : a.InBounds := by
  obtain ⟨row, hrow, ha⟩ := List.mem_flatMap.mp ha
  obtain ⟨column, hcolumn, ha⟩ := List.mem_flatMap.mp ha
  have hrow := List.mem_range.mp hrow
  have hcolumn := List.mem_range.mp hcolumn
  rcases List.mem_cons.mp ha with rfl | ha
  · exact h column hcolumn row hrow
  · obtain rfl := List.mem_singleton.mp ha
    exact hprimary column (hwidth ▸ hcolumn) row (hheight ▸ hrow)

end Bounds

/-! ## Calls stay inside -/

/-- Whatever is drawn on the canvas is in bounds. -/
structure Canvas.Sound (c : Canvas) : Prop where
  put : ∀ points, ∀ a ∈ c.target.put points, a.InBounds
  blit : ∀ a ∈ c.blit, a.InBounds

namespace Canvas.Sound

variable {c : Canvas} {s : Screen} {a : PixelAccess}

theorem showCursor (h : c.Sound) (ha : a ∈ c.showCursor s) : a.InBounds := h.put _ a ha

theorem hideCursor (h : c.Sound) (ha : a ∈ c.hideCursor s) : a.InBounds := by
  unfold Canvas.hideCursor at ha
  split at ha
  · exact h.put _ a ha
  · cases ha

theorem clearTty (h : c.Sound) (ha : a ∈ c.clearTty) : a.InBounds := by
  unfold Canvas.clearTty at ha
  rcases List.mem_append.mp ha with ha | ha
  · rcases List.mem_append.mp ha with ha | ha
    · exact h.put _ a ha
    · exact h.put _ a ha
  · exact h.blit a ha

theorem newline (h : c.Sound) (ha : a ∈ c.newline s) : a.InBounds := by
  unfold Canvas.newline at ha
  split at ha
  · exact h.clearTty ha
  · cases ha

theorem writeByte {byte : UInt8} (h : c.Sound) (ha : a ∈ c.writeByte s byte) : a.InBounds := by
  unfold Canvas.writeByte at ha
  split at ha
  · cases ha
  · split at ha
    · exact h.newline ha
    · split at ha
      · rcases List.mem_append.mp ha with ha | ha
        · exact h.newline ha
        · exact h.put _ a ha
      · exact h.put _ a ha

theorem writeBytes {text : List UInt8} (h : c.Sound) (ha : a ∈ c.writeBytes text s) :
    a.InBounds := by
  induction text generalizing s with
  | nil => cases ha
  | cons byte text ih =>
    rcases List.mem_append.mp ha with ha | ha
    · exact h.writeByte ha
    · exact ih ha

theorem userConsoleWrite {text : List UInt8} (h : c.Sound) (ha : a ∈ c.userConsoleWrite s text) :
    a.InBounds := by
  unfold Canvas.userConsoleWrite at ha
  rcases List.mem_append.mp ha with ha | ha
  · rcases List.mem_append.mp ha with ha | ha
    · rcases List.mem_append.mp ha with ha | ha
      · exact h.hideCursor ha
      · exact h.writeBytes ha
    · exact h.showCursor ha
  · exact h.blit a ha

theorem userConsoleBackspace (h : c.Sound) (ha : a ∈ c.userConsoleBackspace s) : a.InBounds := by
  unfold Canvas.userConsoleBackspace at ha
  split at ha
  · rcases List.mem_append.mp ha with ha | ha
    · exact h.hideCursor ha
    · exact h.showCursor ha
  · rcases List.mem_append.mp ha with ha | ha
    · rcases List.mem_append.mp ha with ha | ha
      · rcases List.mem_append.mp ha with ha | ha
        · exact h.hideCursor ha
        · exact h.put _ a ha
      · exact h.showCursor ha
    · exact h.blit a ha

theorem userConsoleTick (h : c.Sound) (ha : a ∈ c.userConsoleTick s) : a.InBounds := by
  unfold Canvas.userConsoleTick at ha
  split at ha
  · cases ha
  · rcases List.mem_append.mp ha with ha | ha
    · split at ha
      · exact h.hideCursor ha
      · exact h.showCursor ha
    · exact h.blit a ha

end Canvas.Sound

namespace Display

variable {d : Display} {tty : Nat} {a : PixelAccess} {f : Canvas → Screen → List PixelAccess}

/-- The framebuffer that has been enabled has rows that fit. -/
def Fits (d : Display) : Prop := ∀ fb, d.framebuffer = some fb → fb.RowsFit

/-- What a terminal draws into has the shape of the framebuffer, and both hold
their pixels. -/
theorem Fits.targets (h : d.Fits) {t : Target} {primary : Framebuffer}
    (htargets : d.targets tty = some (t, primary)) :
    t.Inside ∧ primary.target.Inside ∧ t.width = primary.width ∧ t.height = primary.height := by
  unfold Display.targets at htargets
  split at htargets
  · rename_i primary' fb hprimary htarget
    obtain ⟨rfl, rfl⟩ := Prod.mk.inj (Option.some.inj htargets)
    obtain ⟨other, hother, hfb⟩ := Consoles.ttyTarget_cases htarget
    obtain rfl := Option.some.inj (hprimary.symm.trans hother)
    have hrows := (h _ hprimary).target
    unfold Framebuffer.ttySurface
    rcases hfb with ⟨hmulti, rfl⟩ | ⟨hsingle, rfl⟩
    · rw [if_pos hmulti]
      exact ⟨Framebuffer.inside_tty hmulti tty, hrows, rfl, rfl⟩
    · rw [hsingle]
      exact ⟨hrows, hrows, rfl, rfl⟩
  · cases htargets

theorem Fits.blit (h : d.Fits) {t : Target} {primary : Framebuffer}
    (htargets : d.targets tty = some (t, primary)) (ha : a ∈ blitToPrimary primary.target t) :
    a.InBounds := by
  obtain ⟨hinside, hprimary, hwidth, hheight⟩ := h.targets htargets
  exact hinside.blit hprimary hwidth hheight ha

theorem Fits.canvas (h : d.Fits) {c : Canvas} (hc : d.canvas tty = some c) : c.Sound := by
  obtain ⟨⟨t, primary⟩, htargets, rfl⟩ := Option.map_eq_some_iff.mp hc
  refine ⟨fun points a ha => (h.targets htargets).1.put ha, fun a ha => ?_⟩
  dsimp only at ha
  split at ha
  · exact h.blit htargets ha
  · cases ha

theorem Fits.accessesOn (h : d.Fits) (hf : ∀ c s, c.Sound → ∀ a ∈ f c s, a.InBounds)
    (ha : a ∈ d.accessesOn tty f) : a.InBounds := by
  unfold Display.accessesOn at ha
  split at ha
  · cases ha
  · rename_i c hc
    exact hf c _ (h.canvas hc) a ha

theorem Fits.accessesOnAll (h : d.Fits) (hf : ∀ c s, c.Sound → ∀ a ∈ f c s, a.InBounds)
    (ha : a ∈ d.accessesOnAll f) : a.InBounds := by
  obtain ⟨tty, -, ha⟩ := List.mem_flatMap.mp ha
  exact h.accessesOn hf ha

theorem Fits.accessesOf (h : d.Fits) {call : ConsoleCall} (ha : a ∈ d.accessesOf call) :
    a.InBounds := by
  cases call with
  | write tty text => exact h.accessesOn (fun _ _ hc _ ha => hc.userConsoleWrite ha) ha
  | backspace tty => exact h.accessesOn (fun _ _ hc _ ha => hc.userConsoleBackspace ha) ha
  | clear tty => exact h.accessesOn (fun _ _ hc _ ha => hc.clearTty ha) ha
  | tick => exact h.accessesOnAll (fun _ _ hc _ ha => hc.userConsoleTick ha) ha

theorem framebuffer_foldl (ttys : List Nat) (c : Consoles) (f : Framebuffer → Screen → Screen) :
    (ttys.foldl (fun c tty => c.onTty tty f) c).framebuffer = c.framebuffer := by
  induction ttys generalizing c with
  | nil => rfl
  | cons tty ttys ih => rw [List.foldl_cons, ih, Consoles.framebuffer_onTty]

theorem framebuffer_perform (c : Consoles) (call : ConsoleCall) :
    (c.perform call).framebuffer = c.framebuffer := by
  cases call with
  | write tty text => exact Consoles.framebuffer_onTty _ _ _
  | backspace tty => exact Consoles.framebuffer_onTty _ _ _
  | clear tty => exact Consoles.framebuffer_onTty _ _ _
  | tick => exact framebuffer_foldl _ _ _

theorem framebuffer_enable (c : Consoles) (fb : Framebuffer) :
    (c.enableUserConsole fb).framebuffer = some fb :=
  framebuffer_foldl _ _ _

/-! ## The first call -/

/-- `enable_user_console` writes the last pixel of the framebuffer, which
sticks out when the rows do not fit. -/
theorem enable_outside (d : Display) {fb : Framebuffer} (hfb : fb.WellFormed)
    (hrows : ¬ fb.RowsFit) : ∃ a ∈ (d.perform (.enable fb)).accesses, ¬ a.InBounds := by
  obtain ⟨hheight, hpitch⟩ := not_or.mp hrows
  unfold Framebuffer.HoldsRow at hpitch
  have hmulti : fb.multiTty = false := by
    refine Bool.eq_false_iff.mpr fun hmulti => ?_
    unfold Framebuffer.multiTty at hmulti
    simp only [Bool.and_eq_true, beq_iff_eq] at hmulti
    unfold Framebuffer.WellFormed at hfb
    rw [hmulti.1.1] at hfb
    omega
  let enabled : Display := { d with toConsoles := d.enableUserConsole fb }
  have hprimary : enabled.framebuffer = some fb := framebuffer_enable _ _
  have htarget : enabled.ttyTarget 0 = some fb := by
    unfold Consoles.ttyTarget
    rw [hprimary]
    simp [ttyCount, hmulti]
  have hcanvas : enabled.canvas 0 = some { target := fb.target, blit := [] } := by
    unfold canvas targets
    rw [hprimary, htarget]
    simp only [Option.map_some, hmulti, Framebuffer.ttySurface]
    rfl
  refine ⟨⟨fb.target.surface, (fb.height - 1) * fb.pitch + (fb.width - 1) * 4⟩, ?_, ?_⟩
  · refine List.mem_append_right _ (List.mem_flatMap.mpr ⟨0, by decide, ?_⟩)
    show _ ∈ enabled.accessesOn 0 _
    unfold accessesOn
    rw [hcanvas]
    refine List.mem_append_left _ (List.mem_append_left _ (List.mem_filterMap.mpr
      ⟨(fb.width - 1, fb.height - 1), ?_, ?_⟩))
    · rw [mem_rectangle]
      show (0 ≤ _ ∧ _ < 0 + fb.width) ∧ 0 ≤ _ ∧ _ < 0 + fb.height
      omega
    · have hinside : fb.framebufferPixel (fb.width - 1) (fb.height - 1) =
          some ((fb.height - 1) * fb.pitch + (fb.width - 1) * 4) :=
        if_neg (by omega)
      exact congrArg (Option.map _) hinside
  · show ¬ ((fb.height - 1) * fb.pitch + (fb.width - 1) * 4 + 4 ≤ fb.height * fb.pitch)
    obtain ⟨last, hlast⟩ := Nat.exists_eq_succ_of_ne_zero hheight
    rw [hlast, Nat.succ_mul, Nat.succ_sub_one]
    omega

/-! ## Runs -/

/-- All accesses so far are in bounds. -/
def Inside (d : Display) : Prop := ∀ a ∈ d.accesses, a.InBounds

theorem Fits.initial : initial.Fits := by
  intro fb hfb
  cases hfb

theorem inside_initial : initial.Inside := by
  intro a ha
  cases ha

theorem Fits.perform (h : d.Fits) (hinside : d.Inside) {call : DisplayCall}
    (hcall : ∀ fb, call = .enable fb → fb.RowsFit) :
    (d.perform call).Fits ∧ (d.perform call).Inside := by
  cases call with
  | enable fb =>
    let enabled : Display := { d with toConsoles := d.enableUserConsole fb }
    have hfits : enabled.Fits := by
      intro other hother
      rw [show enabled.framebuffer = some fb from framebuffer_enable _ _] at hother
      obtain rfl := Option.some.inj hother
      exact hcall fb rfl
    refine ⟨hfits, fun a ha => ?_⟩
    rcases List.mem_append.mp ha with ha | ha
    · exact hinside a ha
    · exact hfits.accessesOnAll (fun _ _ hc _ ha => hc.clearTty ha) ha
  | call call =>
    refine ⟨fun fb hfb => h fb ?_, fun a ha => ?_⟩
    · rw [← framebuffer_perform d.toConsoles call]
      exact hfb
    · rcases List.mem_append.mp ha with ha | ha
      · exact hinside a ha
      · exact h.accessesOf ha
  | switch tty =>
    unfold Display.perform
    dsimp only
    split
    · exact ⟨h, hinside⟩
    · refine ⟨h, fun a ha => ?_⟩
      rcases List.mem_append.mp ha with ha | ha
      · exact hinside a ha
      · split at ha
        · cases ha
        · rename_i htargets
          exact h.blit htargets ha

theorem accesses_perform (d : Display) (call : DisplayCall) :
    ∃ new, (d.perform call).accesses = d.accesses ++ new := by
  cases call with
  | enable fb => exact ⟨_, rfl⟩
  | call call => exact ⟨_, rfl⟩
  | switch tty =>
    unfold perform
    dsimp only
    split
    · exact ⟨[], (List.append_nil _).symm⟩
    · exact ⟨_, rfl⟩

theorem accesses_foldl (calls : List DisplayCall) (d : Display) :
    ∃ new, (calls.foldl perform d).accesses = d.accesses ++ new := by
  induction calls generalizing d with
  | nil => exact ⟨[], (List.append_nil _).symm⟩
  | cons call calls ih =>
    obtain ⟨new, hnew⟩ := accesses_perform d call
    obtain ⟨rest, hrest⟩ := ih (d.perform call)
    exact ⟨new ++ rest, by rw [List.foldl_cons, hrest, hnew, List.append_assoc]⟩

theorem Fits.foldl (h : d.Fits) (hinside : d.Inside) {calls : List DisplayCall}
    (hcalls : ∀ fb, .enable fb ∈ calls → fb.RowsFit) : (calls.foldl Display.perform d).Inside := by
  induction calls generalizing d with
  | nil => exact hinside
  | cons call calls ih =>
    have hcall : ∀ fb, call = .enable fb → fb.RowsFit := fun fb heq => hcalls fb (by simp [heq])
    obtain ⟨hfits, hinside'⟩ := h.perform hinside hcall
    exact ih hfits hinside' fun fb hfb => hcalls fb (by simp [hfb])

/-- All pixels are written and copied inside their buffers exactly when the
rows of every framebuffer that is enabled hold four bytes a pixel. -/
theorem pixel_writes_inside {calls : List DisplayCall}
    (hadapter : ∀ fb, .enable fb ∈ calls → fb.WellFormed) :
    (after calls).Inside ↔ ∀ fb, .enable fb ∈ calls → fb.RowsFit := by
  constructor
  · intro hinside fb hfb
    by_contra hrows
    obtain ⟨before, later, rfl⟩ := List.append_of_mem hfb
    unfold after at hinside
    rw [List.foldl_append, List.foldl_cons] at hinside
    obtain ⟨a, ha, hout⟩ :=
      enable_outside (before.foldl perform initial) (hadapter fb hfb) hrows
    obtain ⟨new, hnew⟩ := accesses_foldl later
      ((before.foldl perform initial).perform (.enable fb))
    refine hout (hinside a ?_)
    rw [hnew]
    exact List.mem_append_left _ ha
  · intro hrows
    exact Fits.foldl Fits.initial inside_initial hrows

/-- The framebuffer of a virtual machine. -/
def wideFramebuffer : Framebuffer :=
  { width := 1920, height := 1080, bitsPerPixel := 32, pitch := 7680 }

theorem pixel_writes_inside_wide :
    (after [.enable wideFramebuffer, .call (.write 0 [0x6F, 0x6B]), .switch 1]).Inside := by
  have henable : ∀ fb, DisplayCall.enable fb ∈ [DisplayCall.enable wideFramebuffer,
      .call (.write 0 [0x6F, 0x6B]), .switch 1] → fb = wideFramebuffer := by
    intro fb hfb
    simpa using hfb
  refine (pixel_writes_inside fun fb hfb => ?_).mpr fun fb hfb => ?_
  · rw [henable fb hfb]
    exact (by decide : 1920 * 32 / 8 ≤ 7680)
  · rw [henable fb hfb]
    exact .inr (by decide : 4 * 1920 ≤ 7680)

/-- A framebuffer of 24 bits per pixel, as a boot loader may set it up. -/
def deepFramebuffer : Framebuffer :=
  { width := 1024, height := 768, bitsPerPixel := 24, pitch := 3072 }

/-- Its last pixel is written past its end. -/
theorem pixel_written_outside : ∃ calls,
    (∀ fb, .enable fb ∈ calls → fb.WellFormed) ∧ ¬ (after calls).Inside := by
  have hwellFormed : deepFramebuffer.WellFormed := (by decide : 1024 * 24 / 8 ≤ 3072)
  refine ⟨[.enable deepFramebuffer], fun fb hfb => ?_, fun hinside => ?_⟩
  · obtain rfl : fb = deepFramebuffer := by simpa using hfb
    exact hwellFormed
  · have hrows : ¬ deepFramebuffer.RowsFit := (by decide : ¬ (768 = 0 ∨ 4 * 1024 ≤ 3072))
    obtain ⟨a, ha, hout⟩ := enable_outside initial hwellFormed hrows
    exact hout (hinside a ha)

end Display

end OpenKernel
