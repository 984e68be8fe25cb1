import OpenKernel.Console.Screen

/-!
# What a terminal shows

A `Grid` is the text of a terminal: the character in every cell, and the cell
of the cursor.  `picture` is what a grid looks like.  A write that makes the
screen clear itself draws a bar that it does not take away when it moves the
cursor on; `leavesBar` follows this bar through the text.

The pixels are the picture after every call of a run exactly when no write of
it leaves a bar (`console_renders_text`).
-/

namespace OpenKernel

open Lib

/-! ## Text -/

/-- Cells by column and row. -/
abbrev Cells := Nat → Nat → Option UInt8

def Cells.set (cells : Cells) (column row : Nat) (character : Option UInt8) :
    Cells := fun c r =>
  if c = column ∧ r = row then character else cells c r

/-- Nothing is written at the cursor and behind it. -/
structure Grid where
  cells : Cells
  column : Nat
  row : Nat
  ahead : ∀ c r, row < r ∨ r = row ∧ column ≤ c → cells c r = none

/-- The whole cells behind the margins. -/
def Framebuffer.columns (fb : Framebuffer) : Nat :=
  (fb.width - consoleMargin) / consoleCharacterWidth

def Framebuffer.rows (fb : Framebuffer) : Nat :=
  (fb.height - consoleMargin) / consoleLineHeight

namespace Grid

def empty : Grid :=
  { cells := fun _ _ => none
    column := 0
    row := 0
    ahead := fun _ _ _ => rfl }

/-- The line of the cursor is full. -/
def full (fb : Framebuffer) (g : Grid) : Bool := fb.columns ≤ g.column

/-- The line of the cursor is the last one. -/
def bottom (fb : Framebuffer) (g : Grid) : Bool := fb.rows ≤ g.row + 1

/-- The next line; behind the last one, an empty screen. -/
def newline (fb : Framebuffer) (g : Grid) : Grid :=
  if g.bottom fb then .empty
  else
    { cells := g.cells
      column := 0
      row := g.row + 1
      ahead := fun c r h => g.ahead c r (by omega) }

/-- A character in the cell of the cursor. -/
def put (g : Grid) (character : UInt8) : Grid :=
  { cells := g.cells.set g.column g.row (some character)
    column := g.column + 1
    row := g.row
    ahead := fun c r h => by
      rw [Cells.set, if_neg (by omega)]
      exact g.ahead c r (by omega) }

def write (fb : Framebuffer) (g : Grid) (byte : UInt8) : Grid :=
  if byte = carriageReturn then g
  else if byte = lineFeed then g.newline fb
  else (if g.full fb then g.newline fb else g).put byte

/-- The last character of the line is gone. -/
def erase (g : Grid) : Grid :=
  if h : g.column = 0 then g
  else
    { cells := g.cells.set (g.column - 1) g.row none
      column := g.column - 1
      row := g.row
      ahead := fun c r hcell => by
        rw [Cells.set]
        split
        · rfl
        · exact g.ahead c r (by omega) }

end Grid

/-! ## Pictures -/

/-- The reference picture, by column and row: the characters in their cells,
and the two rows of the bars. -/
def picture (cells : Cells) (bars : Nat → Nat → Bool) : Nat → Nat → Color := fun x y =>
  if x < consoleMargin ∨ y < consoleMargin then background
  else
    let column := (x - consoleMargin) / consoleCharacterWidth
    let row := (y - consoleMargin) / consoleLineHeight
    let cellX := (x - consoleMargin) % consoleCharacterWidth
    let cellY := (y - consoleMargin) % consoleLineHeight
    if (cells column row).any (glyphCovers · cellX cellY) ||
        bars column row && consoleLineHeight - 2 ≤ cellY then foreground
    else background

/-- The pixels inside the framebuffer are that picture. -/
def Shows (fb : Framebuffer) (bytes : FramebufferBytes) (cells : Cells)
    (bars : Nat → Nat → Bool) : Prop :=
  ∀ x y, x < fb.width → y < fb.height →
    fb.pixelAt bytes x y = picture cells bars x y

/-- The bar of the screen, when it is visible. -/
def Screen.barAt (s : Screen) (column row : Nat) : Bool :=
  s.cursorVisible &&
    s.cursorX == consoleMargin + consoleCharacterWidth * column &&
    s.cursorY == consoleMargin + consoleLineHeight * row

/-- The screen shows the grid, with the bar exactly when it is visible. -/
def Screen.Renders (fb : Framebuffer) (s : Screen) (g : Grid) : Prop :=
  Shows fb s.buffer g.cells s.barAt

/-- The cursor of the screen stands in the cell of the grid's. -/
structure Screen.Aligned (s : Screen) (g : Grid) : Prop where
  x : s.cursorX = consoleMargin + consoleCharacterWidth * g.column
  y : s.cursorY = consoleMargin + consoleLineHeight * g.row

/-! ## The bar of a clear -/

/-- The bar that a clear has drawn in the middle of a write. -/
inductive Bar
  | hidden
  | atCursor
  | left
  deriving DecidableEq, Repr

namespace Bar

/-- The cursor has moved. -/
def moved : Bar → Bar
  | hidden => hidden
  | atCursor | left => left

def newline (fb : Framebuffer) (g : Grid) (bar : Bar) : Bar :=
  if g.bottom fb then atCursor else bar.moved

def write (fb : Framebuffer) (g : Grid) (bar : Bar) (byte : UInt8) : Bar :=
  if byte = carriageReturn then bar
  else if byte = lineFeed then bar.newline fb g
  else (if g.full fb then bar.newline fb g else bar).moved

end Bar

/-- Whether a text leaves a bar behind: it makes the screen clear itself, and
after the last time a character or another line follows. -/
def leavesBar (fb : Framebuffer) : Grid → Bar → List UInt8 → Bool
  | _, bar, [] => bar == .left
  | g, bar, byte :: text =>
    leavesBar fb (g.write fb byte) (bar.write fb g byte) text

/-! ## What the drawing functions change in a picture -/

/-- The left and the upper edge of a cell. -/
def cellX (column : Nat) : Nat := consoleMargin + consoleCharacterWidth * column
def cellY (row : Nat) : Nat := consoleMargin + consoleLineHeight * row

/-- A point of a cell. -/
structure InCell (column row x y : Nat) : Prop where
  left : consoleMargin ≤ x
  top : consoleMargin ≤ y
  column : (x - consoleMargin) / consoleCharacterWidth = column
  row : (y - consoleMargin) / consoleLineHeight = row

theorem mem_cell {column row x y : Nat} :
    (x, y) ∈ rectangle (cellX column) (cellY row) consoleCharacterWidth
        consoleLineHeight ↔ InCell column row x y := by
  rw [mem_rectangle]
  simp only [cellX, cellY, consoleMargin, consoleCharacterWidth,
    consoleLineHeight]
  constructor
  · intro ⟨hx, hy⟩
    constructor <;>
      simp only [consoleMargin, consoleCharacterWidth, consoleLineHeight] <;>
      omega
  · rintro ⟨hx, hy, rfl, rfl⟩
    simp only [consoleMargin, consoleCharacterWidth, consoleLineHeight]
      at hx hy ⊢
    omega

theorem mem_bar {column row x y : Nat} :
    (x, y) ∈ Screen.bar (cellX column) (cellY row) ↔
      InCell column row x y ∧
        consoleLineHeight - 2 ≤ (y - consoleMargin) % consoleLineHeight := by
  rw [← mem_cell, Screen.bar, mem_rectangle, mem_rectangle]
  simp only [cellX, cellY, consoleMargin, consoleCharacterWidth,
    consoleLineHeight]
  omega

theorem mem_glyph {byte : UInt8} {column row x y : Nat} :
    (x, y) ∈ glyphPoints byte (cellX column) (cellY row) ↔
      InCell column row x y ∧
        glyphCovers byte ((x - consoleMargin) % consoleCharacterWidth)
          ((y - consoleMargin) % consoleLineHeight) = true := by
  rw [mem_glyphPoints, ← mem_cell, mem_rectangle]
  constructor
  · intro h
    obtain ⟨hx, hy, hcovers⟩ := h
    have hbound := hcovers
    simp only [glyphCovers, Bool.and_eq_true, decide_eq_true_eq] at hbound
    simp only [cellX, cellY, consoleMargin, consoleCharacterWidth,
      consoleLineHeight, consoleScale] at hx hy hbound hcovers ⊢
    have hcolumn : (x - 32) % 12 = x - (32 + 12 * column) := by omega
    have hrow : (y - 32) % 16 = y - (32 + 16 * row) := by omega
    rw [hcolumn, hrow]
    exact ⟨⟨⟨hx, by omega⟩, hy, by omega⟩, hcovers⟩
  · intro h
    obtain ⟨⟨hx, hy⟩, hcovers⟩ := h
    simp only [cellX, cellY, consoleMargin, consoleCharacterWidth,
      consoleLineHeight] at hx hy hcovers ⊢
    have hcolumn : (x - 32) % 12 = x - (32 + 12 * column) := by omega
    have hrow : (y - 32) % 16 = y - (32 + 16 * row) := by omega
    rw [hcolumn, hrow] at hcovers
    exact ⟨hx.1, hy.1, hcovers⟩

/-- A glyph ends above the rows of the bar. -/
theorem not_glyphCovers_of_bar (byte : UInt8) {x y : Nat}
    (h : consoleLineHeight - 2 ≤ y) : glyphCovers byte x y = false := by
  have hheight : ¬ y < 7 * consoleScale := by
    simp only [consoleLineHeight, consoleScale] at h ⊢
    omega
  simp [glyphCovers, hheight]

/-- Nothing is drawn on the margins. -/
theorem picture_margin {cells : Cells} {bars : Nat → Nat → Bool} {x y : Nat}
    (h : ¬ (consoleMargin ≤ x ∧ consoleMargin ≤ y)) :
    picture cells bars x y = background := by
  rw [picture, if_pos (by omega)]

/-- A point of a cell shows the character and the bar of this cell. -/
theorem picture_cell {cells : Cells} {bars : Nat → Nat → Bool}
    {column row x y : Nat} (h : InCell column row x y) :
    picture cells bars x y =
      if (cells column row).any (glyphCovers ·
            ((x - consoleMargin) % consoleCharacterWidth)
            ((y - consoleMargin) % consoleLineHeight)) ||
          bars column row &&
            consoleLineHeight - 2 ≤ (y - consoleMargin) % consoleLineHeight then
        foreground
      else background := by
  have hleft := h.left
  have htop := h.top
  rw [picture, if_neg (by omega), h.column, h.row]

theorem inCell_of_le {x y : Nat} (hx : consoleMargin ≤ x)
    (hy : consoleMargin ≤ y) :
    InCell ((x - consoleMargin) / consoleCharacterWidth)
      ((y - consoleMargin) / consoleLineHeight) x y :=
  ⟨hx, hy, rfl, rfl⟩

namespace Shows

variable {fb : Framebuffer} {bytes : FramebufferBytes} {cells cells' : Cells}
  {bars bars' : Nat → Nat → Bool}

theorem congr (h : Shows fb bytes cells bars)
    (hbars : ∀ c r, bars c r = bars' c r) : Shows fb bytes cells bars' := by
  have heq : bars = bars' := by
    funext c r
    exact hbars c r
  exact heq ▸ h

variable (hrow : fb.HoldsRow)
include hrow

/-- Painting inside one cell makes another picture of this one. -/
theorem paint (h : Shows fb bytes cells bars) (column row : Nat)
    (points : List (Nat × Nat)) (color : Color)
    (hpoints : ∀ x y, (x, y) ∈ points → InCell column row x y)
    (hothers : ∀ c r, ¬ (c = column ∧ r = row) →
      cells' c r = cells c r ∧ bars' c r = bars c r)
    (hcell : ∀ x y, InCell column row x y →
      picture cells' bars' x y =
        if (x, y) ∈ points then color else picture cells bars x y) :
    Shows fb (fb.paint points color bytes) cells' bars' := by
  intro x y hx hy
  rw [Framebuffer.pixelAt_paint hrow _ _ _ hx hy, h x y hx hy]
  by_cases hmem : InCell column row x y
  · exact (hcell x y hmem).symm
  rw [if_neg fun hpoint => hmem (hpoints x y hpoint)]
  by_cases hmargin : consoleMargin ≤ x ∧ consoleMargin ≤ y
  · have hin := inCell_of_le hmargin.1 hmargin.2
    have hother : ¬ ((x - consoleMargin) / consoleCharacterWidth = column ∧
        (y - consoleMargin) / consoleLineHeight = row) := by
      intro heq
      rw [heq.1, heq.2] at hin
      exact hmem hin
    obtain ⟨hcells, hbars⟩ := hothers _ _ hother
    rw [picture_cell hin, picture_cell hin, hcells, hbars]
  · rw [picture_margin hmargin, picture_margin hmargin]

/-- The bar of one cell, and the other bars. -/
def withBar (bars : Nat → Nat → Bool) (column row : Nat) (visible : Bool) :
    Nat → Nat → Bool := fun c r =>
  if c = column ∧ r = row then visible else bars c r

/-- The two rows of the bar get one color: no glyph reaches them. -/
theorem paintBar (h : Shows fb bytes cells bars) (column row : Nat)
    (visible : Bool) :
    Shows fb
      (fb.paint (Screen.bar (cellX column) (cellY row))
        (if visible then foreground else background) bytes)
      cells (withBar bars column row visible) := by
  apply h.paint hrow column row
  · intro x y hmem
    exact (mem_bar.mp hmem).1
  · intro c r hother
    exact ⟨rfl, if_neg hother⟩
  · intro x y hcell
    rw [picture_cell hcell, picture_cell hcell]
    simp only [mem_bar, hcell, true_and, withBar, and_self, if_true]
    by_cases hbar : consoleLineHeight - 2 ≤
        (y - consoleMargin) % consoleLineHeight
    · have hglyph : (cells column row).any (glyphCovers ·
          ((x - consoleMargin) % consoleCharacterWidth)
          ((y - consoleMargin) % consoleLineHeight)) = false := by
        cases cells column row with
        | none => rfl
        | some byte => exact not_glyphCovers_of_bar byte hbar
      rw [if_pos hbar, hglyph]
      simp only [hbar, decide_true, Bool.and_true, Bool.false_or]
    · simp only [hbar, decide_false, Bool.and_false, if_false]

theorem showBar (h : Shows fb bytes cells bars) (column row : Nat) :
    Shows fb
      (fb.paint (Screen.bar (cellX column) (cellY row)) foreground bytes)
      cells (withBar bars column row true) :=
  h.paintBar hrow column row true

theorem hideBar (h : Shows fb bytes cells bars) (column row : Nat) :
    Shows fb
      (fb.paint (Screen.bar (cellX column) (cellY row)) background bytes)
      cells (withBar bars column row false) :=
  h.paintBar hrow column row false

theorem glyph (h : Shows fb bytes cells bars) (column row : Nat)
    (byte : UInt8) (hempty : cells column row = none) :
    Shows fb
      (fb.paint (glyphPoints byte (cellX column) (cellY row)) foreground
        bytes) (cells.set column row (some byte)) bars := by
  apply h.paint hrow column row
  · intro x y hmem
    exact (mem_glyph.mp hmem).1
  · intro c r hother
    exact ⟨if_neg hother, rfl⟩
  · intro x y hcell
    rw [picture_cell hcell, picture_cell hcell]
    simp only [mem_glyph, hcell, true_and, Cells.set, and_self, if_true,
      hempty, Option.any_some, Option.any_none, Bool.false_or]
    cases glyphCovers byte ((x - consoleMargin) % consoleCharacterWidth)
        ((y - consoleMargin) % consoleLineHeight) with
    | true => simp only [Bool.true_or, if_true]
    | false => simp only [Bool.false_or, Bool.false_eq_true, if_false]

theorem erase (h : Shows fb bytes cells bars) (column row : Nat) :
    Shows fb
      (fb.paint (rectangle (cellX column) (cellY row) consoleCharacterWidth
        consoleLineHeight) background bytes)
      (cells.set column row none) (withBar bars column row false) := by
  apply h.paint hrow column row
  · intro x y hmem
    exact mem_cell.mp hmem
  · intro c r hother
    exact ⟨if_neg hother, if_neg hother⟩
  · intro x y hcell
    rw [picture_cell hcell, picture_cell hcell]
    simp [mem_cell, hcell, withBar, Cells.set]

/-- A framebuffer all in the background shows an empty screen. -/
theorem clear (bytes : FramebufferBytes) :
    Shows fb
      (fb.paint (rectangle 0 0 fb.width fb.height) background bytes)
      Grid.empty.cells fun _ _ => false := by
  intro x y hx hy
  have hmem : (x, y) ∈ rectangle 0 0 fb.width fb.height := by
    rw [mem_rectangle]
    omega
  rw [Framebuffer.pixelAt_paint hrow _ _ _ hx hy, if_pos hmem]
  simp [picture, Grid.empty]

end Shows

/-! ## The loop of a write -/

/-- The bar of a clear stands at the margin. -/
def Bar.at (bar : Bar) (column row : Nat) : Bool :=
  bar != .hidden && column == 0 && row == 0

/-- The bar that a clear has drawn is the one at the cursor until the cursor
moves away. -/
def Bar.Fits (bar : Bar) (g : Grid) : Prop :=
  match bar with
  | .hidden => True
  | .atCursor => g.column = 0 ∧ g.row = 0
  | .left => ¬ (g.column = 0 ∧ g.row = 0)

/-- The screen in the middle of a write. -/
structure Drawing (fb : Framebuffer) (s : Screen) (g : Grid) (bar : Bar) :
    Prop where
  aligned : s.Aligned g
  shows : Shows fb s.buffer g.cells bar.at
  fits : bar.Fits g

namespace Screen

variable {fb : Framebuffer} {s : Screen} {g : Grid} {bar : Bar}

theorem Aligned.full (h : s.Aligned g) :
    fb.width < s.cursorX + consoleCharacterWidth ↔ g.full fb = true := by
  rw [h.x, Grid.full, decide_eq_true_eq, Framebuffer.columns]
  simp only [consoleMargin, consoleCharacterWidth]
  omega

theorem Aligned.bottom (h : s.Aligned g) :
    fb.height < s.cursorY + consoleLineHeight + consoleLineHeight ↔
      g.bottom fb = true := by
  rw [h.y, Grid.bottom, decide_eq_true_eq, Framebuffer.rows]
  simp only [consoleMargin, consoleLineHeight]
  omega

theorem Aligned.barAt_eq (h : s.Aligned g) (column row : Nat) :
    s.barAt column row =
      (s.cursorVisible && column == g.column && row == g.row) := by
  have hx : (s.cursorX == consoleMargin + consoleCharacterWidth * column) =
      (column == g.column) := by
    rw [Bool.eq_iff_iff, beq_iff_eq, beq_iff_eq, h.x]
    simp only [consoleMargin, consoleCharacterWidth]
    omega
  have hy : (s.cursorY == consoleMargin + consoleLineHeight * row) =
      (row == g.row) := by
    rw [Bool.eq_iff_iff, beq_iff_eq, beq_iff_eq, h.y]
    simp only [consoleMargin, consoleLineHeight]
    omega
  rw [barAt, hx, hy]

theorem showCursor_aligned (ha : s.Aligned g) :
    (s.showCursor fb).Aligned g := ⟨ha.x, ha.y⟩

/-- The bar that stands when the text is written. -/
def barAfter (fb : Framebuffer) : Grid → Bar → List UInt8 → Bar
  | _, bar, [] => bar
  | g, bar, byte :: text =>
    barAfter fb (g.write fb byte) (bar.write fb g byte) text

theorem leavesBar_eq (fb : Framebuffer) (g : Grid) (bar : Bar)
    (text : List UInt8) :
    leavesBar fb g bar text = (barAfter fb g bar text == .left) := by
  induction text generalizing g bar with
  | nil => rfl
  | cons byte text ih => exact ih _ _

variable (hrow : fb.HoldsRow)
include hrow

/-- A screen that clears itself shows a bar at the margin and nothing else. -/
theorem clearTty_shows (s : Screen) :
    Shows fb (s.clearTty fb).buffer Grid.empty.cells
      (Shows.withBar (fun _ _ => false) 0 0 true) :=
  (Shows.clear hrow s.buffer).showBar hrow 0 0

theorem clearTty_drawing (s : Screen) :
    Drawing fb (s.clearTty fb) .empty .atCursor where
  aligned := ⟨rfl, rfl⟩
  shows := (clearTty_shows hrow s).congr fun c r => by
    simp only [Shows.withBar, Bar.at]
    by_cases hc : c = 0 <;> by_cases hr : r = 0 <;> simp [hc, hr]
  fits := ⟨rfl, rfl⟩

theorem newline_drawing (h : Drawing fb s g bar) :
    Drawing fb (s.newline fb) (g.newline fb) (bar.newline fb g) := by
  by_cases hbottom : g.bottom fb = true
  · rw [newline, if_pos (h.aligned.bottom.mpr hbottom), Grid.newline,
      if_pos hbottom, Bar.newline, if_pos hbottom]
    exact clearTty_drawing hrow s
  · rw [newline, if_neg fun hlt => hbottom (h.aligned.bottom.mp hlt),
      Grid.newline, if_neg hbottom, Bar.newline, if_neg hbottom]
    constructor
    · constructor
      · rfl
      · have hy := h.aligned.y
        simp only [consoleLineHeight] at hy ⊢
        omega
    · exact h.shows.congr fun c r => by cases bar <;> rfl
    · cases bar with
      | hidden => trivial
      | atCursor => exact fun hzero => Nat.succ_ne_zero _ hzero.2
      | left => exact fun hzero => Nat.succ_ne_zero _ hzero.2

/-- The character goes into an empty cell. -/
theorem put_drawing (h : Drawing fb s g bar)
    (byte : UInt8) :
    Drawing fb
      { s with
        buffer := fb.paint (glyphPoints byte s.cursorX s.cursorY) foreground
          s.buffer
        cursorX := s.cursorX + consoleCharacterWidth }
      (g.put byte) bar.moved := by
  have hempty : g.cells g.column g.row = none :=
    g.ahead _ _ (.inr ⟨rfl, Nat.le_refl _⟩)
  have hglyph := h.shows.glyph hrow g.column g.row byte hempty
  rw [cellX, cellY, ← h.aligned.x, ← h.aligned.y] at hglyph
  constructor
  · constructor
    · have hx := h.aligned.x
      simp only [Grid.put, consoleCharacterWidth] at hx ⊢
      omega
    · exact h.aligned.y
  · exact hglyph.congr fun c r => by cases bar <;> rfl
  · cases bar with
    | hidden => trivial
    | atCursor => exact fun hzero => Nat.succ_ne_zero _ hzero.1
    | left => exact fun hzero => Nat.succ_ne_zero _ hzero.1

theorem writeByte_drawing (h : Drawing fb s g bar)
    (byte : UInt8) :
    Drawing fb (s.writeByte fb byte) (g.write fb byte)
      (bar.write fb g byte) := by
  unfold writeByte Grid.write Bar.write
  by_cases hreturn : byte = carriageReturn
  · simpa only [if_pos hreturn] using h
  by_cases hfeed : byte = lineFeed
  · simpa only [if_neg hreturn, if_pos hfeed] using newline_drawing hrow h
  simp only [if_neg hreturn, if_neg hfeed]
  by_cases hfull : g.full fb = true
  · rw [if_pos (h.aligned.full.mpr hfull), if_pos hfull, if_pos hfull]
    exact put_drawing hrow (newline_drawing hrow h) byte
  · rw [if_neg fun hlt => hfull (h.aligned.full.mp hlt), if_neg hfull,
      if_neg hfull]
    exact put_drawing hrow h byte

theorem foldl_drawing (h : Drawing fb s g bar)
    (text : List UInt8) :
    Drawing fb (text.foldl (writeByte fb) s) (text.foldl (Grid.write fb) g)
      (barAfter fb g bar text) := by
  induction text generalizing s g bar with
  | nil => exact h
  | cons byte text ih => exact ih (writeByte_drawing hrow h byte)

/-! ## One call -/

/-- Without its bar the screen shows the text alone. -/
theorem hideCursor_drawing (h : s.Renders fb g)
    (ha : s.Aligned g) :
    Drawing fb (s.hideCursor fb) g .hidden := by
  unfold hideCursor
  by_cases hvisible : s.cursorVisible = true
  · have hhide := h.hideBar hrow g.column g.row
    rw [cellX, cellY, ← ha.x, ← ha.y] at hhide
    rw [if_pos hvisible]
    refine ⟨⟨ha.x, ha.y⟩, hhide.congr fun c r => ?_, trivial⟩
    rw [Shows.withBar, ha.barAt_eq]
    by_cases hc : c = g.column <;> by_cases hr : r = g.row <;>
      simp [hc, hr, Bar.at]
  · rw [if_neg hvisible]
    refine ⟨ha, h.congr fun c r => ?_, trivial⟩
    simp [ha.barAt_eq, hvisible, Bar.at]

theorem showCursor_shows (h : Drawing fb s g bar) :
    Shows fb (s.showCursor fb).buffer g.cells
      (Shows.withBar bar.at g.column g.row true) := by
  have hshow := h.shows.showBar hrow g.column g.row
  rw [cellX, cellY, ← h.aligned.x, ← h.aligned.y] at hshow
  exact hshow

/-- The bar at the cursor is the only one unless a clear has left one. -/
theorem showCursor_renders (h : Drawing fb s g bar)
    (hbar : bar ≠ .left) :
    (s.showCursor fb).Renders fb g := by
  apply (showCursor_shows hrow h).congr
  intro c r
  rw [(showCursor_aligned h.aligned).barAt_eq, Shows.withBar]
  by_cases hcursor : c = g.column ∧ r = g.row
  · obtain ⟨rfl, rfl⟩ := hcursor
    simp [showCursor]
  · rw [if_neg hcursor]
    have hnone : (c == g.column && r == g.row) = false := by
      simpa using hcursor
    rw [Bool.and_assoc, hnone, Bool.and_false]
    cases bar with
    | hidden => rfl
    | left => exact absurd rfl hbar
    | atCursor =>
      rw [h.fits.1, h.fits.2] at hcursor
      simpa [Bar.at] using hcursor

/-- A bar that is left stands in the first cell. -/
theorem not_showCursor_renders (hwidth : consoleMargin + consoleCharacterWidth ≤ fb.width)
    (hheight : consoleMargin + consoleLineHeight ≤ fb.height)
    (h : Drawing fb s g .left) : ¬ (s.showCursor fb).Renders fb g := by
  intro hrenders
  have hcell : InCell 0 0 consoleMargin
      (consoleMargin + (consoleLineHeight - 2)) :=
    ⟨Nat.le_refl _, by decide, by decide, by decide⟩
  have hx : consoleMargin < fb.width := by
    simp only [consoleCharacterWidth] at hwidth
    omega
  have hy : consoleMargin + (consoleLineHeight - 2) < fb.height := by
    simp only [consoleLineHeight] at hheight ⊢
    omega
  have hfits : ¬ (0 = g.column ∧ 0 = g.row) := fun hzero =>
    h.fits ⟨hzero.1.symm, hzero.2.symm⟩
  have hdrawn := (showCursor_shows hrow h _ _ hx hy).symm.trans (hrenders _ _ hx hy)
  rw [picture_cell hcell, picture_cell hcell] at hdrawn
  have hbars : Shows.withBar Bar.left.at g.column g.row true 0 0 = true := by
    rw [Shows.withBar, if_neg hfits]
    rfl
  have hbar : (s.showCursor fb).barAt 0 0 = false := by
    rw [(showCursor_aligned h.aligned).barAt_eq]
    simpa [showCursor] using hfits
  have hglyph : (g.cells 0 0).any (glyphCovers ·
      ((consoleMargin - consoleMargin) % consoleCharacterWidth)
      ((consoleMargin + (consoleLineHeight - 2) - consoleMargin) %
        consoleLineHeight)) = false := by
    cases g.cells 0 0 with
    | none => rfl
    | some byte => exact not_glyphCovers_of_bar byte (by decide)
  rw [hbars, hbar, hglyph] at hdrawn
  revert hdrawn
  decide

theorem userConsoleWrite_aligned (h : s.Renders fb g)
    (ha : s.Aligned g) (text : List UInt8) :
    (s.userConsoleWrite fb text).Aligned (text.foldl (Grid.write fb) g) :=
  showCursor_aligned (foldl_drawing hrow (hideCursor_drawing hrow h ha) text).aligned

/-- A write keeps the picture exactly when it leaves no bar. -/
theorem userConsoleWrite_renders (hwidth : consoleMargin + consoleCharacterWidth ≤ fb.width)
    (hheight : consoleMargin + consoleLineHeight ≤ fb.height)
    (h : s.Renders fb g) (ha : s.Aligned g) (text : List UInt8) :
    (s.userConsoleWrite fb text).Renders fb (text.foldl (Grid.write fb) g) ↔
      leavesBar fb g .hidden text = false := by
  have hdrawn := foldl_drawing hrow (hideCursor_drawing hrow h ha) text
  rw [leavesBar_eq, userConsoleWrite]
  by_cases hbar : barAfter fb g .hidden text = .left
  · rw [hbar] at hdrawn ⊢
    exact iff_of_false (not_showCursor_renders hrow hwidth hheight hdrawn) (by simp)
  · exact iff_of_true (showCursor_renders hrow hdrawn hbar) (by simpa using hbar)

theorem clearTty_renders (s : Screen) :
    (s.clearTty fb).Renders fb .empty := by
  apply (clearTty_shows hrow s).congr
  intro c r
  have ha : (s.clearTty fb).Aligned .empty := ⟨rfl, rfl⟩
  rw [ha.barAt_eq, Shows.withBar]
  by_cases hc : c = 0 <;> by_cases hr : r = 0 <;>
    simp [hc, hr, clearTty, showCursor, Grid.empty]

/-- The cell before the cursor is painted over. -/
theorem erase_drawing (h : Drawing fb s g .hidden)
    (hcolumn : g.column ≠ 0) :
    Drawing fb
      { s with
        buffer := fb.paint
          (rectangle (s.cursorX - consoleCharacterWidth) s.cursorY
            consoleCharacterWidth consoleLineHeight) background s.buffer
        cursorX := s.cursorX - consoleCharacterWidth }
      g.erase .hidden := by
  have hprevious : s.cursorX - consoleCharacterWidth =
      cellX (g.column - 1) := by
    have hx := h.aligned.x
    simp only [cellX, consoleMargin, consoleCharacterWidth] at hx ⊢
    omega
  have herase := h.shows.erase hrow (g.column - 1) g.row
  rw [← hprevious, cellY, ← h.aligned.y] at herase
  rw [Grid.erase, dif_neg hcolumn]
  refine ⟨⟨hprevious, h.aligned.y⟩, herase.congr fun c r => ?_, trivial⟩
  simp [Shows.withBar, Bar.at]

theorem userConsoleBackspace_renders (h : s.Renders fb g) (ha : s.Aligned g) :
    (s.userConsoleBackspace fb).Renders fb g.erase ∧
      (s.userConsoleBackspace fb).Aligned g.erase := by
  have hdrawn := hideCursor_drawing hrow h ha
  have hmargin : (s.hideCursor fb).cursorX ≤ consoleMargin ↔ g.column = 0 := by
    rw [hdrawn.aligned.x]
    simp only [consoleMargin, consoleCharacterWidth]
    omega
  unfold userConsoleBackspace
  dsimp only
  by_cases hzero : g.column = 0
  · rw [if_pos (hmargin.mpr hzero), Grid.erase, dif_pos hzero]
    exact ⟨showCursor_renders hrow hdrawn (by decide),
      showCursor_aligned hdrawn.aligned⟩
  · rw [if_neg fun hle => hzero (hmargin.mp hle)]
    have herased := erase_drawing hrow hdrawn hzero
    exact ⟨showCursor_renders hrow herased (by decide),
      showCursor_aligned herased.aligned⟩

theorem userConsoleTick_renders (h : s.Renders fb g)
    (ha : s.Aligned g) :
    (s.userConsoleTick fb).Renders fb g ∧
      (s.userConsoleTick fb).Aligned g := by
  unfold userConsoleTick
  dsimp only
  split
  · exact ⟨h, ha.x, ha.y⟩
  · have h' : Renders fb { s with blinkTicks := 0 } g := h
    have ha' : Aligned { s with blinkTicks := 0 } g := ⟨ha.x, ha.y⟩
    have hdrawn := hideCursor_drawing hrow h' ha'
    split
    · rename_i hvisible
      refine ⟨hdrawn.shows.congr fun c r => ?_, hdrawn.aligned⟩
      rw [hdrawn.aligned.barAt_eq, hideCursor, if_pos hvisible]
      rfl
    · rename_i hvisible
      rw [hideCursor, if_neg hvisible] at hdrawn
      exact ⟨showCursor_renders hrow hdrawn (by decide), showCursor_aligned ha'⟩

end Screen

/-! ## Runs -/

/-- The state after some calls. -/
def Consoles.run (c : Consoles) (calls : List ConsoleCall) : Consoles :=
  calls.foldl Consoles.perform c

namespace ConsoleCall

/-- What a call does to the text of the terminals. -/
def onGrids (fb : Framebuffer) (grids : Nat → Grid) :
    ConsoleCall → (Nat → Grid)
  | write tty text =>
    Lib.put grids tty (text.foldl (Grid.write fb) (grids tty))
  | backspace tty => Lib.put grids tty (grids tty).erase
  | clear tty => Lib.put grids tty .empty
  | tick => grids

/-- The text after some calls. -/
def gridsAfter (fb : Framebuffer) (grids : Nat → Grid)
    (calls : List ConsoleCall) : Nat → Grid :=
  calls.foldl (onGrids fb) grids

/-- The call is a write to that terminal that leaves a bar. -/
def leavesBarOn (fb : Framebuffer) (grids : Nat → Grid) (tty : Nat) :
    ConsoleCall → Bool
  | write tty' text =>
    tty' == tty && leavesBar fb (grids tty) .hidden text
  | _ => false

variable {c : Consoles} {fb : Framebuffer} (grids : Nat → Grid) {tty : Nat}

theorem ttyTarget_perform (c : Consoles) (call : ConsoleCall) :
    (c.perform call).ttyTarget = c.ttyTarget := by
  cases call with
  | write _ _ => exact c.ttyTarget_onTty _ _
  | backspace _ => exact c.ttyTarget_onTty _ _
  | clear _ => exact c.ttyTarget_onTty _ _
  | tick => exact c.ttyTarget_onAll _

/-- The cursor of the text is that of the screen after every call, and the
picture is right exactly when the call leaves no bar. -/
theorem perform_renders (hrow : fb.HoldsRow)
    (hwidth : consoleMargin + consoleCharacterWidth ≤ fb.width)
    (hheight : consoleMargin + consoleLineHeight ≤ fb.height)
    (htarget : c.ttyTarget tty = some fb)
    (h : (c.screens tty).Renders fb (grids tty))
    (ha : (c.screens tty).Aligned (grids tty)) (call : ConsoleCall) :
    ((c.perform call).screens tty).Aligned (call.onGrids fb grids tty) ∧
      (((c.perform call).screens tty).Renders fb
        (call.onGrids fb grids tty) ↔
        call.leavesBarOn fb grids tty = false) := by
  cases call with
  | write tty' text =>
    simp only [Consoles.perform, onGrids, leavesBarOn,
      c.screens_onTty _ _ _ htarget]
    by_cases htty : tty = tty'
    · subst htty
      rw [if_pos rfl, put_same]
      simp only [beq_self_eq_true, Bool.true_and]
      exact ⟨Screen.userConsoleWrite_aligned hrow h ha text,
        Screen.userConsoleWrite_renders hrow hwidth hheight h ha text⟩
    · rw [if_neg htty, put_other htty]
      simp [ha, h, Ne.symm htty]
  | backspace tty' =>
    simp only [Consoles.perform, onGrids, leavesBarOn,
      c.screens_onTty _ _ _ htarget]
    by_cases htty : tty = tty'
    · subst htty
      rw [if_pos rfl, put_same]
      have herased := Screen.userConsoleBackspace_renders hrow h ha
      exact ⟨herased.2, iff_of_true herased.1 trivial⟩
    · rw [if_neg htty, put_other htty]
      exact ⟨ha, iff_of_true h trivial⟩
  | clear tty' =>
    simp only [Consoles.perform, onGrids, leavesBarOn,
      c.screens_onTty _ _ _ htarget]
    by_cases htty : tty = tty'
    · subst htty
      rw [if_pos rfl, put_same]
      exact ⟨⟨rfl, rfl⟩, iff_of_true (Screen.clearTty_renders hrow _) trivial⟩
    · rw [if_neg htty, put_other htty]
      exact ⟨ha, iff_of_true h trivial⟩
  | tick =>
    simp only [Consoles.perform, onGrids, leavesBarOn,
      c.screens_onAll _ htarget]
    have hticked := Screen.userConsoleTick_renders hrow h ha
    exact ⟨hticked.2, iff_of_true hticked.1 trivial⟩

/-- A run from a right picture keeps it as long as no write leaves a bar. -/
theorem run_renders (hrow : fb.HoldsRow)
    (hwidth : consoleMargin + consoleCharacterWidth ≤ fb.width)
    (hheight : consoleMargin + consoleLineHeight ≤ fb.height)
    (htarget : c.ttyTarget tty = some fb)
    (h : (c.screens tty).Renders fb (grids tty))
    (ha : (c.screens tty).Aligned (grids tty)) (calls : List ConsoleCall) :
    (∀ n, ((c.run (calls.take n)).screens tty).Renders fb
        (gridsAfter fb grids (calls.take n) tty)) ↔
      ∀ n (call : ConsoleCall), calls[n]? = some call →
        call.leavesBarOn fb (gridsAfter fb grids (calls.take n)) tty =
          false := by
  induction calls generalizing c grids with
  | nil =>
    constructor
    · intro _ n call hcall
      simp at hcall
    · intro _ n
      rw [List.take_nil]
      exact h
  | cons call calls ih =>
    obtain ⟨ha', hrenders⟩ :=
      perform_renders grids hrow hwidth hheight htarget h ha call
    have htarget' : (c.perform call).ttyTarget tty = some fb := by
      rw [ttyTarget_perform, htarget]
    constructor
    · intro hall
      have hfirst : call.leavesBarOn fb grids tty = false :=
        hrenders.mp (hall 1)
      have hrest := (ih _ htarget' (hrenders.mpr hfirst) ha').mp fun n =>
        hall (n + 1)
      intro n call' hcall
      cases n with
      | zero =>
        obtain rfl := Option.some.inj hcall
        exact hfirst
      | succ n => exact hrest n call' hcall
    · intro hall
      have hfirst : call.leavesBarOn fb grids tty = false := hall 0 call rfl
      have hrest := (ih _ htarget' (hrenders.mpr hfirst) ha').mpr fun n call' =>
        hall (n + 1) call'
      intro n
      cases n with
      | zero => exact h
      | succ n => exact hrest n

end ConsoleCall

theorem Consoles.screens_enableUserConsole (c : Consoles)
    {primary fb : Framebuffer} {tty : Nat}
    (htarget : (c.enableUserConsole primary).ttyTarget tty = some fb) :
    (c.enableUserConsole primary).screens tty = (c.screens tty).clearTty fb := by
  rw [enableUserConsole, ttyTarget_onAll] at htarget
  exact screens_onAll _ _ htarget

theorem Consoles.enableUserConsole_aligned (c : Consoles)
    {primary fb : Framebuffer} {tty : Nat}
    (htarget : (c.enableUserConsole primary).ttyTarget tty = some fb) :
    ((c.enableUserConsole primary).screens tty).Aligned .empty := by
  rw [c.screens_enableUserConsole htarget]
  exact ⟨rfl, rfl⟩

/-- After `enable_user_console` the pixels of a terminal are the picture of its
text in every state of a run exactly when no write to it leaves a bar: behind
the last place where its text makes the screen clear itself there are only
carriage returns.  What the terminal draws into has to hold its rows. -/
theorem console_renders_text (c : Consoles) (primary fb : Framebuffer)
    (tty : Nat)
    (htarget : (c.enableUserConsole primary).ttyTarget tty = some fb)
    (hrow : fb.HoldsRow)
    (hwidth : consoleMargin + consoleCharacterWidth ≤ fb.width)
    (hheight : consoleMargin + consoleLineHeight ≤ fb.height)
    (calls : List ConsoleCall) :
    (∀ n, (((c.enableUserConsole primary).run (calls.take n)).screens
        tty).Renders fb
        (ConsoleCall.gridsAfter fb (fun _ => .empty) (calls.take n) tty)) ↔
      ∀ n (call : ConsoleCall), calls[n]? = some call →
        call.leavesBarOn fb
          (ConsoleCall.gridsAfter fb (fun _ => .empty) (calls.take n)) tty =
          false := by
  apply ConsoleCall.run_renders (fun _ => .empty) hrow hwidth hheight htarget
  · rw [c.screens_enableUserConsole htarget]
    exact Screen.clearTty_renders hrow _
  · exact c.enableUserConsole_aligned htarget

/-- The buffers of the terminals hold their rows. -/
theorem Consoles.ttyTarget_holdsRow {c : Consoles} {primary fb : Framebuffer}
    {tty : Nat} (htarget : c.ttyTarget tty = some fb)
    (hprimary : c.framebuffer = some primary)
    (hmulti : primary.multiTty = true) : fb.HoldsRow := by
  obtain ⟨other, hother, hfb⟩ := ttyTarget_cases htarget
  rw [hprimary] at hother
  obtain rfl := Option.some.inj hother
  rcases hfb with ⟨-, rfl⟩ | ⟨hsingle, rfl⟩
  · exact Nat.le_of_eq (Nat.mul_comm _ _)
  · exact absurd (hmulti.symm.trans hsingle) (by decide)

def exampleFramebuffer : Framebuffer :=
  { width := 640, height := 480, pitch := 2560, bitsPerPixel := 32 }

/-- A line of two characters is on the screen as it should be. -/
theorem console_renders_text_line :
    (((Consoles.initial.enableUserConsole exampleFramebuffer).run
        [.write 1 [0x48, 0x49, lineFeed]]).screens 1).Renders exampleFramebuffer
      (ConsoleCall.gridsAfter exampleFramebuffer (fun _ => .empty)
        [.write 1 [0x48, 0x49, lineFeed]] 1) := by
  have htarget : (Consoles.initial.enableUserConsole
      exampleFramebuffer).ttyTarget 1 = some exampleFramebuffer := by
    decide
  have hrow := Consoles.ttyTarget_holdsRow htarget rfl (by decide)
  refine (console_renders_text .initial exampleFramebuffer exampleFramebuffer 1
    htarget hrow (by decide) (by decide)
    [.write 1 [0x48, 0x49, lineFeed]]).mpr ?_ 1
  intro n call hcall
  cases n with
  | zero =>
    obtain rfl := Option.some.inj hcall
    decide
  | succ n => simp at hcall

/-- The text of a write that goes over the bottom of the screen. -/
def overflowingText : List UInt8 :=
  List.replicate exampleFramebuffer.rows lineFeed ++ [0x41]

/-- It leaves a second bar on the screen. -/
theorem console_bar_left :
    ¬ ∀ (c : Consoles) (primary fb : Framebuffer) (tty : Nat)
      (calls : List ConsoleCall),
      (c.enableUserConsole primary).ttyTarget tty = some fb →
      fb.HoldsRow →
      consoleMargin + consoleCharacterWidth ≤ fb.width →
      consoleMargin + consoleLineHeight ≤ fb.height →
      (((c.enableUserConsole primary).run calls).screens tty).Renders fb
        (ConsoleCall.gridsAfter fb (fun _ => .empty) calls tty) := by
  intro h
  have htarget : (Consoles.initial.enableUserConsole
      exampleFramebuffer).ttyTarget 0 = some exampleFramebuffer := by
    decide
  have hrow := Consoles.ttyTarget_holdsRow htarget rfl (by decide)
  have hrenders := h .initial exampleFramebuffer exampleFramebuffer 0
    [.write 0 overflowingText] htarget hrow (by decide) (by decide)
  have hcleared : ((Consoles.initial.enableUserConsole
      exampleFramebuffer).screens 0).Renders exampleFramebuffer .empty := by
    rw [Consoles.screens_enableUserConsole _ htarget]
    exact Screen.clearTty_renders hrow _
  have hwritten := ConsoleCall.perform_renders (fun _ => .empty) hrow
    (by decide) (by decide) htarget hcleared
    (Consoles.enableUserConsole_aligned _ htarget) (.write 0 overflowingText)
  rw [Consoles.run, ConsoleCall.gridsAfter, List.foldl_cons, List.foldl_cons,
    List.foldl_nil, List.foldl_nil] at hrenders
  have hleaves := hwritten.2.mp hrenders
  revert hleaves
  decide +kernel

/-! ## Rows that do not fit -/

/-- The bytes of a pixel are those of its color. -/
theorem Framebuffer.byte_of_pixelAt {fb : Framebuffer}
    {bytes : FramebufferBytes} {x y i : Nat} {color : Color}
    (h : fb.pixelAt bytes x y = color) (hi : i < 4) :
    (bytes (y * fb.pitch + x * 4 + i)).toNat = color.toNat / 256 ^ i % 256 := by
  have hvalue : ∀ b₀ b₁ b₂ b₃ : UInt8,
      (UInt32.ofNat (numberOf [b₀, b₁, b₂, b₃])).toNat =
        b₀.toNat + 256 * (b₁.toNat + 256 * (b₂.toNat + 256 * b₃.toNat)) := by
    intro b₀ b₁ b₂ b₃
    have h₀ := b₀.toNat_lt
    have h₁ := b₁.toNat_lt
    have h₂ := b₂.toNat_lt
    have h₃ := b₃.toNat_lt
    rw [UInt32.toNat_ofNat']
    simp only [numberOf, List.foldr_cons, List.foldr_nil]
    omega
  have hcolor := congrArg UInt32.toNat h
  unfold pixelAt at hcolor
  rw [show Block.read bytes (y * fb.pitch + x * 4) 4 =
    [bytes (y * fb.pitch + x * 4), bytes (y * fb.pitch + x * 4 + 1),
      bytes (y * fb.pitch + x * 4 + 2), bytes (y * fb.pitch + x * 4 + 3)]
    from rfl, hvalue] at hcolor
  have h₀ := (bytes (y * fb.pitch + x * 4)).toNat_lt
  have h₁ := (bytes (y * fb.pitch + x * 4 + 1)).toNat_lt
  have h₂ := (bytes (y * fb.pitch + x * 4 + 2)).toNat_lt
  have h₃ := (bytes (y * fb.pitch + x * 4 + 3)).toNat_lt
  match i, hi with
  | 0, _ =>
    rw [Nat.add_zero, Nat.pow_zero, Nat.div_one]
    omega
  | 1, _ => omega
  | 2, _ => omega
  | 3, _ => omega

/-- Rows that are that much shorter than their pixels put the bar of an empty
screen into the row above it too: a pixel of this row begins in the middle of
the bar. -/
theorem console_narrow_rows (c : Consoles) {primary fb : Framebuffer} {tty : Nat}
    (htarget : (c.enableUserConsole primary).ttyTarget tty = some fb)
    (hheight : consoleMargin + consoleLineHeight ≤ fb.height)
    (hnarrow : fb.pitch / 4 + consoleMargin + 2 ≤ fb.width) :
    ¬ ((c.enableUserConsole primary).screens tty).Renders fb .empty := by
  intro hrenders
  rw [c.screens_enableUserConsole htarget] at hrenders
  simp only [consoleMargin, consoleLineHeight] at hheight hnarrow
  let x := 33 + fb.pitch / 4
  have hbar : ∀ x, 32 ≤ x → x ≤ 33 →
      fb.pixelAt ((c.screens tty).clearTty fb).buffer x 46 = foreground := by
    intro x hlow hhigh
    rw [hrenders x 46 (by omega) (by omega)]
    obtain rfl | rfl : x = 32 ∨ x = 33 := by omega
    · rfl
    · rfl
  have habove : fb.pixelAt ((c.screens tty).clearTty fb).buffer x 45 =
      background := by
    rw [hrenders x 45 (by omega) (by omega)]
    have hcell := inCell_of_le (x := x) (y := 45)
      (show 32 ≤ 33 + fb.pitch / 4 by omega) (by decide)
    rw [picture_cell hcell]
    simp [Grid.empty, consoleLineHeight, consoleMargin]
  have hfirst := Framebuffer.byte_of_pixelAt habove (i := 0) (by decide)
  have hrows : 46 * fb.pitch = 45 * fb.pitch + fb.pitch := Nat.succ_mul _ _
  have hquotient := Nat.div_add_mod fb.pitch 4
  have hremainder : fb.pitch % 4 < 4 := Nat.mod_lt _ (by decide)
  by_cases haligned : fb.pitch % 4 = 0
  · have hsecond := Framebuffer.byte_of_pixelAt (hbar 33 (by decide) (by decide))
      (i := 0) (by decide)
    rw [show 45 * fb.pitch + x * 4 + 0 = 46 * fb.pitch + 33 * 4 + 0 by omega,
      hsecond] at hfirst
    revert hfirst
    decide
  · have hsecond := Framebuffer.byte_of_pixelAt (hbar 32 (by decide) (by decide))
      (i := 4 - fb.pitch % 4) (by omega)
    rw [show 45 * fb.pitch + x * 4 + 0 =
      46 * fb.pitch + 32 * 4 + (4 - fb.pitch % 4) by omega, hsecond] at hfirst
    revert hfirst
    obtain hr | hr | hr : fb.pitch % 4 = 1 ∨ fb.pitch % 4 = 2 ∨
        fb.pitch % 4 = 3 := by omega
    all_goals
      rw [hr]
      decide

end OpenKernel
