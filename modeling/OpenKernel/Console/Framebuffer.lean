import OpenKernel.Lib.Blocks
import OpenKernel.Lib.LittleEndian

/-!
# The framebuffer

The drawing functions of `console.rs`.  `framebuffer_pixel` clips a coordinate
to the width and the height, and every pixel is four bytes behind the address
of the framebuffer, whatever the depth is.  When a row holds that much, no two
coordinates inside share a byte.
-/

namespace OpenKernel

open Lib

abbrev Color := UInt32

def background : Color := 0x0016_2D3D
def foreground : Color := 0x00FF_FFFF

def consoleMargin : Nat := 32
def consoleScale : Nat := 2
def consoleLineHeight : Nat := 16
def consoleCharacterWidth : Nat := 12

/-- `Framebuffer`, but for the address. -/
structure Framebuffer where
  width : Nat
  height : Nat
  pitch : Nat
  bitsPerPixel : Nat
  deriving DecidableEq, Repr

/-- The bytes from the address of a framebuffer on. -/
abbrev FramebufferBytes := Nat → UInt8

namespace Framebuffer

/-- `framebuffer_pixel`: where the four bytes begin. -/
def framebufferPixel (fb : Framebuffer) (x y : Nat) : Option Nat :=
  if fb.width ≤ x ∨ fb.height ≤ y then none else some (y * fb.pitch + x * 4)

/-- `put_framebuffer_pixel`. -/
def putPixel (fb : Framebuffer) (bytes : FramebufferBytes) (x y : Nat)
    (color : Color) : FramebufferBytes :=
  match fb.framebufferPixel x y with
  | none => bytes
  | some offset => Block.write bytes (offset, bytesOf 4 color.toNat)

/-- The color that the four bytes of a pixel hold. -/
def pixelAt (fb : Framebuffer) (bytes : FramebufferBytes) (x y : Nat) : Color :=
  UInt32.ofNat (numberOf (Block.read bytes (y * fb.pitch + x * 4) 4))

/-- A row holds four bytes a pixel. -/
def HoldsRow (fb : Framebuffer) : Prop := 4 * fb.width ≤ fb.pitch

/-- A loop that puts one color at these points. -/
def paint (fb : Framebuffer) (points : List (Nat × Nat)) (color : Color)
    (bytes : FramebufferBytes) : FramebufferBytes :=
  points.foldl (fun bytes point => fb.putPixel bytes point.1 point.2 color)
    bytes

section Pixels

variable {fb : Framebuffer} {bytes : FramebufferBytes} {color : Color}
  {x y column row : Nat}

theorem pixelAt_putPixel_same (hx : x < fb.width) (hy : y < fb.height) :
    fb.pixelAt (fb.putPixel bytes x y color) x y = color := by
  have hinside : ¬ (fb.width ≤ x ∨ fb.height ≤ y) := by omega
  unfold pixelAt putPixel framebufferPixel
  rw [if_neg hinside]
  have hread := Block.read_write_same (f := bytes)
    (b := (y * fb.pitch + x * 4, bytesOf 4 color.toNat))
  rw [length_bytesOf] at hread
  dsimp only at hread ⊢
  rw [hread, numberOf_bytesOf]
  have hcolor : color.toNat % 256 ^ 4 = color.toNat := Nat.mod_eq_of_lt color.toNat_lt
  rw [hcolor, UInt32.ofNat_toNat]

/-- The bytes of two pixels keep apart when a row holds its pixels. -/
theorem offsets_apart (hrow : fb.HoldsRow) (hx : x < fb.width)
    (hcolumn : column < fb.width) (hother : ¬ (x = column ∧ y = row)) :
    row * fb.pitch + column * 4 + 4 ≤ y * fb.pitch + x * 4 ∨
      y * fb.pitch + x * 4 + 4 ≤ row * fb.pitch + column * 4 := by
  unfold HoldsRow at hrow
  rcases Nat.lt_trichotomy y row with hlt | rfl | hlt
  · have hrows : y * fb.pitch + fb.pitch ≤ row * fb.pitch := by
      rw [← Nat.succ_mul]
      exact Nat.mul_le_mul_right _ hlt
    omega
  · omega
  · have hrows : row * fb.pitch + fb.pitch ≤ y * fb.pitch := by
      rw [← Nat.succ_mul]
      exact Nat.mul_le_mul_right _ hlt
    omega

theorem pixelAt_putPixel_other (hrow : fb.HoldsRow) (hx : x < fb.width)
    (hother : ¬ (x = column ∧ y = row)) :
    fb.pixelAt (fb.putPixel bytes column row color) x y =
      fb.pixelAt bytes x y := by
  unfold putPixel framebufferPixel
  by_cases houtside : fb.width ≤ column ∨ fb.height ≤ row
  · rw [if_pos houtside]
  · rw [if_neg houtside]
    have hapart := offsets_apart hrow hx (by omega) hother
    unfold pixelAt
    rw [Block.read_write_apart (by rw [length_bytesOf]; exact hapart)]

end Pixels

/-- What the loop leaves in a pixel of the framebuffer. -/
theorem pixelAt_paint {fb : Framebuffer} (hrow : fb.HoldsRow)
    (points : List (Nat × Nat)) (color : Color) (bytes : FramebufferBytes)
    {x y : Nat} (hx : x < fb.width) (hy : y < fb.height) :
    fb.pixelAt (fb.paint points color bytes) x y =
      if (x, y) ∈ points then color else fb.pixelAt bytes x y := by
  induction points generalizing bytes with
  | nil => simp [paint]
  | cons point points ih =>
    have hcons : fb.paint (point :: points) color bytes =
        fb.paint points color (fb.putPixel bytes point.1 point.2 color) := rfl
    rw [hcons, ih]
    by_cases hmem : (x, y) ∈ points
    · simp [hmem]
    · rw [if_neg hmem]
      by_cases hpoint : (x, y) = point
      · subst hpoint
        rw [pixelAt_putPixel_same hx hy, if_pos List.mem_cons_self]
      · have hother : ¬ (x = point.1 ∧ y = point.2) := by
          intro heq
          exact hpoint (Prod.ext heq.1 heq.2)
        have hmem' : (x, y) ∉ point :: points := by
          simp [hpoint, hmem]
        rw [if_neg hmem', pixelAt_putPixel_other hrow hx hother]

end Framebuffer

/-- The points of two nested loops, row by row. -/
def rectangle (x y width height : Nat) : List (Nat × Nat) :=
  (List.range height).flatMap fun row =>
    (List.range width).map fun column => (x + column, y + row)

theorem mem_rectangle {x y width height column row : Nat} :
    (column, row) ∈ rectangle x y width height ↔
      (x ≤ column ∧ column < x + width) ∧ y ≤ row ∧ row < y + height := by
  simp only [rectangle, List.mem_flatMap, List.mem_map, List.mem_range,
    Prod.mk.injEq]
  constructor
  · rintro ⟨dy, hdy, dx, hdx, rfl, rfl⟩
    omega
  · rintro ⟨⟨hx, hx'⟩, hy, hy'⟩
    exact ⟨row - y, by omega, column - x, by omega, by omega, by omega⟩

/-! ## Glyphs -/

/-- `framebuffer_glyph`: seven rows of five bits. -/
def framebufferGlyph (character : UInt8) : List Nat :=
  match Char.ofNat character.toNat with
  | 'A' => [0x0E, 0x11, 0x11, 0x1F, 0x11, 0x11, 0x11]
  | 'B' => [0x1E, 0x11, 0x11, 0x1E, 0x11, 0x11, 0x1E]
  | 'C' => [0x0E, 0x11, 0x10, 0x10, 0x10, 0x11, 0x0E]
  | 'D' => [0x1E, 0x11, 0x11, 0x11, 0x11, 0x11, 0x1E]
  | 'E' => [0x1F, 0x10, 0x10, 0x1E, 0x10, 0x10, 0x1F]
  | 'F' => [0x1F, 0x10, 0x10, 0x1E, 0x10, 0x10, 0x10]
  | 'G' => [0x0E, 0x11, 0x10, 0x17, 0x11, 0x11, 0x0F]
  | 'H' => [0x11, 0x11, 0x11, 0x1F, 0x11, 0x11, 0x11]
  | 'I' => [0x1F, 0x04, 0x04, 0x04, 0x04, 0x04, 0x1F]
  | 'J' => [0x01, 0x01, 0x01, 0x01, 0x11, 0x11, 0x0E]
  | 'K' => [0x11, 0x12, 0x14, 0x18, 0x14, 0x12, 0x11]
  | 'L' => [0x10, 0x10, 0x10, 0x10, 0x10, 0x10, 0x1F]
  | 'M' => [0x11, 0x1B, 0x15, 0x15, 0x11, 0x11, 0x11]
  | 'N' => [0x11, 0x19, 0x15, 0x13, 0x11, 0x11, 0x11]
  | 'O' => [0x0E, 0x11, 0x11, 0x11, 0x11, 0x11, 0x0E]
  | 'P' => [0x1E, 0x11, 0x11, 0x1E, 0x10, 0x10, 0x10]
  | 'Q' => [0x0E, 0x11, 0x11, 0x11, 0x15, 0x12, 0x0D]
  | 'R' => [0x1E, 0x11, 0x11, 0x1E, 0x14, 0x12, 0x11]
  | 'S' => [0x0F, 0x10, 0x10, 0x0E, 0x01, 0x01, 0x1E]
  | 'T' => [0x1F, 0x04, 0x04, 0x04, 0x04, 0x04, 0x04]
  | 'U' => [0x11, 0x11, 0x11, 0x11, 0x11, 0x11, 0x0E]
  | 'V' => [0x11, 0x11, 0x11, 0x11, 0x11, 0x0A, 0x04]
  | 'W' => [0x11, 0x11, 0x11, 0x15, 0x15, 0x15, 0x0A]
  | 'X' => [0x11, 0x11, 0x0A, 0x04, 0x0A, 0x11, 0x11]
  | 'Y' => [0x11, 0x11, 0x0A, 0x04, 0x04, 0x04, 0x04]
  | 'Z' => [0x1F, 0x01, 0x02, 0x04, 0x08, 0x10, 0x1F]
  | '0' => [0x0E, 0x11, 0x13, 0x15, 0x19, 0x11, 0x0E]
  | '1' => [0x04, 0x0C, 0x04, 0x04, 0x04, 0x04, 0x0E]
  | '2' => [0x0E, 0x11, 0x01, 0x02, 0x04, 0x08, 0x1F]
  | '3' => [0x1E, 0x01, 0x01, 0x0E, 0x01, 0x01, 0x1E]
  | '4' => [0x02, 0x06, 0x0A, 0x12, 0x1F, 0x02, 0x02]
  | '5' => [0x1F, 0x10, 0x10, 0x1E, 0x01, 0x01, 0x1E]
  | '6' => [0x0E, 0x10, 0x10, 0x1E, 0x11, 0x11, 0x0E]
  | '7' => [0x1F, 0x01, 0x02, 0x04, 0x08, 0x08, 0x08]
  | '8' => [0x0E, 0x11, 0x11, 0x0E, 0x11, 0x11, 0x0E]
  | '9' => [0x0E, 0x11, 0x11, 0x0F, 0x01, 0x01, 0x0E]
  | '>' => [0x10, 0x08, 0x04, 0x02, 0x04, 0x08, 0x10]
  | ' ' => [0, 0, 0, 0, 0, 0, 0]
  | _ => [0x1F, 0x01, 0x02, 0x04, 0x04, 0x00, 0x04]

/-- `to_ascii_uppercase`. -/
def toAsciiUppercase (byte : UInt8) : UInt8 :=
  if 0x61 ≤ byte ∧ byte ≤ 0x7A then byte - 0x20 else byte

/-- The points of `draw_framebuffer_text` for one byte at the scale of the
console: every set bit of the glyph is a square. -/
def glyphPoints (byte : UInt8) (x y : Nat) : List (Nat × Nat) :=
  ((framebufferGlyph (toAsciiUppercase byte)).zipIdx).flatMap
    fun (bits, glyphRow) =>
      ((List.range 5).filter fun glyphColumn =>
        bits.testBit (4 - glyphColumn)).flatMap fun glyphColumn =>
          rectangle (x + glyphColumn * consoleScale)
            (y + glyphRow * consoleScale) consoleScale consoleScale

/-- Whether the glyph of a byte covers a point of its cell. -/
def glyphCovers (byte : UInt8) (x y : Nat) : Bool :=
  x < 5 * consoleScale && y < 7 * consoleScale &&
    ((framebufferGlyph (toAsciiUppercase byte))[y / consoleScale]?.getD
      0).testBit (4 - x / consoleScale)

theorem length_framebufferGlyph (character : UInt8) :
    (framebufferGlyph character).length = 7 := by
  unfold framebufferGlyph
  split <;> rfl

theorem mem_glyphPoints {byte : UInt8} {x y column row : Nat} :
    (column, row) ∈ glyphPoints byte x y ↔
      x ≤ column ∧ y ≤ row ∧ glyphCovers byte (column - x) (row - y) = true := by
  have hlength := length_framebufferGlyph (toAsciiUppercase byte)
  simp only [glyphCovers, Bool.and_eq_true, decide_eq_true_eq]
  simp only [glyphPoints, consoleScale, List.mem_flatMap, List.mem_filter,
    List.mem_range, mem_rectangle, Prod.exists]
  constructor
  · rintro ⟨bits, glyphRow, hbits, glyphColumn, ⟨hcolumn, hset⟩, hx, hy⟩
    obtain ⟨hlt, hget⟩ := List.mem_zipIdx' hbits
    have hcolumns : (column - x) / 2 = glyphColumn := by omega
    have hrows : (row - y) / 2 = glyphRow := by omega
    refine ⟨by omega, by omega, ⟨by omega, by omega⟩, ?_⟩
    rw [hcolumns, hrows, List.getElem?_eq_getElem hlt, Option.getD_some, ← hget]
    exact hset
  · rintro ⟨hx, hy, ⟨hcolumn, hrow⟩, hset⟩
    have hlt : (row - y) / 2 <
        (framebufferGlyph (toAsciiUppercase byte)).length := by
      omega
    rw [List.getElem?_eq_getElem hlt, Option.getD_some] at hset
    refine ⟨_, (row - y) / 2, List.mk_mem_zipIdx_iff_getElem?.mpr
      (List.getElem?_eq_getElem hlt), (column - x) / 2, ⟨by omega, hset⟩, ?_, ?_⟩
    · omega
    · omega

end OpenKernel
