import OpenKernel.Console.Keyboard
import OpenKernel.Console.Rendering
import OpenKernel.Lib.Runs

/-!
# The line editor of the console

The loop of the console program together with the terminal it writes to.
`input` is what the program has, the pixels are what the user sees; the grid
of the terminal is the text between the two.  `Edited` says that they agree:
the pixels show the grid, what stands behind the prompt is the input, and what
was executed is what stood there when Enter was pressed.

Commands print what they like, and other terminals go on meanwhile.
-/

namespace OpenKernel

open Lib

/-- `COMMANDS`. -/
def consoleCommands : List (List Char) :=
  ["help", "clear", "exit", "shutdown", "reboot", "sata", "identify", "read", "pci", "lsblk",
    "threads", "heap", "vfs", "env", "time", "sync", "run", "ls", "pty"].map String.toList

/-- `str::len`. -/
def utf8Length (text : List Char) : Nat := (text.map Char.utf8Size).sum

/-- The bytes of a text. -/
def utf8Bytes (text : List Char) : List UInt8 := text.flatMap String.utf8EncodeChar

/-- `char::is_whitespace` for the characters below U+0100, which are all that a
key can be. -/
def isWhitespace (c : Char) : Bool :=
  c.toNat ∈ [0x09, 0x0A, 0x0B, 0x0C, 0x0D, 0x20, 0x85, 0xA0]

/-- `str::trim`. -/
def trim (text : List Char) : List Char :=
  ((text.dropWhile isWhitespace).reverse.dropWhile isWhitespace).reverse

/-- The loop of `complete`. -/
def completeFrom (input : List Char) : List (List Char) → Option (List Char) → Option (List Char)
  | [], matched => matched
  | command :: commands, matched =>
    if input.isPrefixOf command then
      if matched.isSome then none else completeFrom input commands (some command)
    else completeFrom input commands matched

/-- `complete`. -/
def complete (input : List Char) : Option (List Char) :=
  (completeFrom input consoleCommands none).filter fun command =>
    utf8Length input < utf8Length command

/-- The console program on a terminal. -/
structure Shell where
  tty : Nat
  consoles : Consoles
  /-- the text of the terminals -/
  grids : Nat → Grid
  input : List Char
  /-- in `run_command`, or before the first prompt -/
  running : Bool
  /-- the commands that were run, oldest first -/
  executed : List (List Char)
  /-- the column behind the prompt, and the cells from there to the cursor
  whenever a command was started -/
  start : Nat
  seen : List (List (Option UInt8))

inductive ShellAction
  /-- `read_char` returns, and the loop goes on to the next call of it, to
  `run_command` after Enter -/
  | key (byte : UInt8)
  /-- the command prints, clears the terminal, returns -/
  | output (text : List UInt8)
  | clear
  | prompt
  /-- a call of another process, or a tick -/
  | elsewhere (call : ConsoleCall)

namespace Shell

variable (fb : Framebuffer)

/-- The terminal of the program. -/
def grid (s : Shell) : Grid := s.grids s.tty

def perform (s : Shell) (call : ConsoleCall) : Shell :=
  { s with
    consoles := s.consoles.perform call
    grids := call.onGrids fb s.grids }

/-- `eprint!`. -/
def print (s : Shell) (text : List UInt8) : Shell := s.perform fb (.write s.tty text)

/-- The cells behind the prompt. -/
def line (s : Shell) : List (Option UInt8) :=
  (List.range' s.start (s.grid.column - s.start)).map fun column => s.grid.cells column s.grid.row

/-- The loop body of `main`. -/
def handleKey (s : Shell) (byte : UInt8) : Shell :=
  if byte = carriageReturn ∨ byte = lineFeed then
    { s.print fb [carriageReturn, lineFeed] with
      running := true
      executed := s.executed ++ [trim s.input]
      seen := s.seen ++ [s.line] }
  else if byte = 0x08 then
    if s.input ≠ [] then { s.perform fb (.backspace s.tty) with input := s.input.dropLast } else s
  else if byte = 0x09 then
    match complete s.input with
    | some completion =>
      let rest := completion.drop (utf8Length s.input)
      { s.print fb (utf8Bytes rest) with input := s.input ++ rest }
    | none => s
  else if utf8Length s.input < 64 then
    let character := Char.ofNat byte.toNat
    { s.print fb (utf8Bytes [character]) with input := s.input ++ [character] }
  else s

def step (s : Shell) : ShellAction → Option Shell
  | .key byte => if s.running then none else some (s.handleKey fb byte)
  | .output text => if s.running then some (s.print fb text) else none
  | .clear => if s.running then some (s.perform fb (.clear s.tty)) else none
  | .prompt =>
    if s.running then
      some { s.print fb [0x3E, 0x20] with
        input := []
        running := false
        start := s.grid.column + 2 }
    else none
  | .elsewhere call => some (s.perform fb call)

/-- The program before its first output, on terminals that are just enabled. -/
def started (primary : Framebuffer) (tty : Nat) (c : Consoles) : Shell :=
  { tty
    consoles := c.enableUserConsole primary
    grids := fun _ => .empty
    input := []
    running := true
    executed := []
    start := 0
    seen := [] }

/-- The call is about another terminal. -/
def Spares (tty : Nat) : ConsoleCall → Prop
  | .write other _ | .backspace other | .clear other => other ≠ tty
  | .tick => True

instance (tty : Nat) : DecidablePred (Spares tty)
  | .write other _ | .backspace other | .clear other => inferInstanceAs (Decidable (other ≠ tty))
  | .tick => inferInstanceAs (Decidable True)

/-- Keys are ASCII, no output leaves a bar, there is room for a line behind the
prompt, and nobody else writes to the terminal. -/
def Undisturbed (s : Shell) : ShellAction → Prop
  | .key byte => byte < 0x80
  | .output text => leavesBar fb s.grid .hidden text = false
  | .clear => True
  | .prompt => s.grid.column + 66 ≤ fb.columns
  | .elsewhere call => Spares s.tty call

instance (s : Shell) : DecidablePred (s.Undisturbed fb)
  | .key byte => inferInstanceAs (Decidable (byte < 0x80))
  | .output _ => inferInstanceAs (Decidable (_ = _))
  | .clear => inferInstanceAs (Decidable True)
  | .prompt => inferInstanceAs (Decidable (_ ≤ _))
  | .elsewhere call => inferInstanceAs (Decidable (Spares s.tty call))

/-- The text in some cells. -/
def textOf (cells : List (Option UInt8)) : List Char :=
  cells.filterMap (Option.map fun byte => Char.ofNat byte.toNat)

/-- The input stands behind the prompt, and the cursor behind the input. -/
structure Shown (s : Shell) : Prop where
  room : s.start + 64 ≤ fb.columns
  cursor : s.grid.column = s.start + s.input.length
  cells : ∀ i, ∀ c, s.input[i]? = some c →
    s.grid.cells (s.start + i) s.grid.row = some (UInt8.ofNat c.toNat)
  short : s.input.length ≤ 64
  ascii : ∀ c ∈ s.input, c.toNat < 0x80

/-- There is room for a character, and the rows keep apart. -/
structure HoldsCell : Prop where
  row : fb.HoldsRow
  width : consoleMargin + consoleCharacterWidth ≤ fb.width
  height : consoleMargin + consoleLineHeight ≤ fb.height

/-- The terminal can draw, and its pixels show its text. -/
structure Drawn (tty : Nat) (c : Consoles) (grids : Nat → Grid) : Prop where
  target : c.ttyTarget tty = some fb
  aligned : (c.screens tty).Aligned (grids tty)
  renders : (c.screens tty).Renders fb (grids tty)

/-- What the user sees is what the program has, and what it has run. -/
structure Edited (s : Shell) : Prop where
  drawn : Drawn fb s.tty s.consoles s.grids
  shown : s.running = false → s.Shown fb
  executed : s.executed = s.seen.map fun cells => trim (textOf cells)

end Shell

/-! ## Completion -/

section Completion

variable {input command : List Char}

theorem utf8Length_append (text more : List Char) :
    utf8Length (text ++ more) = utf8Length text + utf8Length more := by
  unfold utf8Length
  rw [List.map_append, List.sum_append]

/-- A text that begins another one is shorter exactly when it is not that one. -/
theorem utf8Length_lt_iff (h : input <+: command) :
    utf8Length input < utf8Length command ↔ input ≠ command := by
  obtain ⟨rest, rfl⟩ := h
  rw [utf8Length_append]
  cases rest with
  | nil => simp [utf8Length]
  | cons c rest =>
    have hpos : 0 < utf8Length (c :: rest) := by
      have := c.utf8Size_pos
      simp only [utf8Length, List.map_cons, List.sum_cons]
      omega
    have hne : input ≠ input ++ c :: rest := by
      intro heq
      have hlength := congrArg List.length heq
      simp at hlength
    constructor
    · intro _
      exact hne
    · intro _
      omega

theorem completeFrom_some (commands : List (List Char)) (matched : List Char) :
    completeFrom input commands (some matched) =
      if commands.any input.isPrefixOf then none else some matched := by
  induction commands with
  | nil => rfl
  | cons command commands ih =>
    unfold completeFrom
    by_cases hcommand : input.isPrefixOf command = true
    · simp [hcommand]
    · rw [if_neg hcommand, ih]
      simp [hcommand]

/-- The loop finds the only command that the input begins. -/
theorem completeFrom_none {commands : List (List Char)} (hnodup : commands.Nodup) :
    completeFrom input commands none = some command ↔
      command ∈ commands ∧ input.isPrefixOf command = true ∧
        ∀ other ∈ commands, input.isPrefixOf other = true → other = command := by
  induction commands with
  | nil => simp [completeFrom]
  | cons first commands ih =>
    obtain ⟨hfirst, hrest⟩ := List.nodup_cons.mp hnodup
    unfold completeFrom
    by_cases hmatch : input.isPrefixOf first = true
    · rw [if_pos hmatch]
      show completeFrom input commands (some first) = _ ↔ _
      rw [completeFrom_some]
      constructor
      · intro h
        split at h
        · cases h
        · rename_i hnone
          obtain rfl := Option.some.inj h
          refine ⟨List.mem_cons_self, hmatch, fun other hmem hother => ?_⟩
          apply (List.mem_cons.mp hmem).resolve_right
          intro hlater
          exact hnone (List.any_eq_true.mpr ⟨other, hlater, hother⟩)
      · intro ⟨_, _, hall⟩
        have heq := hall first List.mem_cons_self hmatch
        rw [if_neg, heq]
        intro hany
        obtain ⟨other, hmem, hother⟩ := List.any_eq_true.mp hany
        have hother' := hall other (List.mem_cons_of_mem first hmem) hother
        rw [heq, ← hother'] at hfirst
        exact hfirst hmem
    · rw [if_neg hmatch, ih hrest]
      constructor
      · intro ⟨hmem, hcommand, hall⟩
        refine ⟨List.mem_cons_of_mem first hmem, hcommand, fun other hother hmatched => ?_⟩
        apply (List.mem_cons.mp hother).elim
        · intro heq
          rw [heq] at hmatched
          exact absurd hmatched hmatch
        · intro hlater
          exact hall other hlater hmatched
      · intro ⟨hmem, hcommand, hall⟩
        refine ⟨?_, hcommand, fun other hother => hall other (List.mem_cons_of_mem first hother)⟩
        apply (List.mem_cons.mp hmem).resolve_left
        intro heq
        rw [heq] at hcommand
        exact hmatch hcommand

/-- Tab completes to the only command that the input begins, unless it is the
input. -/
theorem complete_eq_some_iff : complete input = some command ↔
    command ∈ consoleCommands ∧ input <+: command ∧ input ≠ command ∧
      ∀ other ∈ consoleCommands, input <+: other → other = command := by
  unfold complete
  rw [Option.filter_eq_some_iff, completeFrom_none (by decide)]
  simp only [decide_eq_true_eq, List.isPrefixOf_iff_prefix]
  constructor
  · intro ⟨⟨hmem, hbegins, hall⟩, hlt⟩
    exact ⟨hmem, hbegins, (utf8Length_lt_iff hbegins).mp hlt, hall⟩
  · intro ⟨hmem, hbegins, hne, hall⟩
    exact ⟨⟨hmem, hbegins, hall⟩, (utf8Length_lt_iff hbegins).mpr hne⟩

end Completion

/-! ## The line on the screen -/

namespace Grid

/-- A text without line ends, written where it has room. -/
theorem write_text (fb : Framebuffer) (g : Grid) (text : List UInt8)
    (hroom : g.column + text.length ≤ fb.columns)
    (hplain : ∀ byte ∈ text, byte ≠ carriageReturn ∧ byte ≠ lineFeed) :
    (text.foldl (Grid.write fb) g).column = g.column + text.length ∧
      (text.foldl (Grid.write fb) g).row = g.row ∧
      ∀ column, (text.foldl (Grid.write fb) g).cells column g.row =
        if g.column ≤ column ∧ column < g.column + text.length then text[column - g.column]?
        else g.cells column g.row := by
  induction text generalizing g with
  | nil =>
    refine ⟨rfl, rfl, fun column => ?_⟩
    rw [if_neg (by simp)]
    rfl
  | cons byte text ih =>
    obtain ⟨hreturn, hfeed⟩ := hplain byte List.mem_cons_self
    rw [List.length_cons] at hroom
    have hwrite : g.write fb byte = g.put byte := by
      unfold write full
      rw [if_neg hreturn, if_neg hfeed, if_neg (by simp; omega)]
    rw [List.foldl_cons, hwrite]
    have hplain' : ∀ b ∈ text, b ≠ carriageReturn ∧ b ≠ lineFeed :=
      fun b hb => hplain b (List.mem_cons_of_mem byte hb)
    have hcolumn : (g.put byte).column = g.column + 1 := rfl
    obtain ⟨hcolumn', hrow, hcells⟩ := ih (g.put byte) (by rw [hcolumn]; omega) hplain'
    refine ⟨?_, hrow, fun column => ?_⟩
    · rw [hcolumn', hcolumn, List.length_cons]
      omega
    · have hcell := hcells column
      rw [hcolumn] at hcell
      rw [show (g.put byte).row = g.row from rfl] at hcell
      rw [hcell, List.length_cons]
      have hput : (g.put byte).cells column g.row =
          if column = g.column then some byte else g.cells column g.row := by
        unfold put Cells.set
        simp
      rw [hput]
      by_cases hlater : g.column + 1 ≤ column ∧ column < g.column + 1 + text.length
      · rw [if_pos hlater, if_pos (by omega),
          show column - g.column = column - (g.column + 1) + 1 by omega, List.getElem?_cons_succ]
      · rw [if_neg hlater]
        by_cases hfirst : column = g.column
        · rw [if_pos hfirst, if_pos (by omega), hfirst, Nat.sub_self]
          rfl
        · rw [if_neg hfirst, if_neg (by omega)]

end Grid

/-- A character of one byte that ends no line. -/
def Plain (c : Char) : Prop :=
  c.toNat < 0x80 ∧ c.toNat ≠ carriageReturn.toNat ∧ c.toNat ≠ lineFeed.toNat

instance : DecidablePred Plain := fun _ => inferInstanceAs (Decidable (_ ∧ _ ∧ _))

theorem utf8EncodeChar_of_lt {c : Char} (hc : c.toNat < 0x80) :
    String.utf8EncodeChar c = [UInt8.ofNat c.toNat] := by
  unfold String.utf8EncodeChar
  have hle : c.val.toNat ≤ 0x7F := by
    have : c.val.toNat < 0x80 := hc
    omega
  simp only [hle, if_true]
  rfl

theorem utf8Bytes_of_plain {text : List Char} (hplain : ∀ c ∈ text, Plain c) :
    utf8Bytes text = text.map fun c => UInt8.ofNat c.toNat := by
  induction text with
  | nil => rfl
  | cons c text ih =>
    have hhead : utf8Bytes (c :: text) = String.utf8EncodeChar c ++ utf8Bytes text := rfl
    rw [hhead, utf8EncodeChar_of_lt (hplain c List.mem_cons_self).1,
      ih fun d hd => hplain d (List.mem_cons_of_mem c hd)]
    rfl

theorem plain_bytes {text : List Char} (hplain : ∀ c ∈ text, Plain c) :
    (utf8Bytes text).length = text.length ∧
      ∀ byte ∈ utf8Bytes text, byte ≠ carriageReturn ∧ byte ≠ lineFeed := by
  rw [utf8Bytes_of_plain hplain]
  refine ⟨List.length_map _, fun byte hbyte => ?_⟩
  obtain ⟨c, hc, heq⟩ := List.mem_map.mp hbyte
  obtain ⟨hlt, hreturn, hfeed⟩ := hplain c hc
  rw [← heq]
  constructor
  · intro h
    apply hreturn
    rw [← h, UInt8.toNat_ofNat']
    omega
  · intro h
    apply hfeed
    rw [← h, UInt8.toNat_ofNat']
    omega

theorem utf8Length_of_ascii {text : List Char} (hascii : ∀ c ∈ text, c.toNat < 0x80) :
    utf8Length text = text.length := by
  induction text with
  | nil => rfl
  | cons c text ih =>
    have hone : c.utf8Size = 1 := by
      have hencode := utf8EncodeChar_of_lt (hascii c List.mem_cons_self)
      rw [← String.length_utf8EncodeChar, hencode]
      rfl
    unfold utf8Length at ih ⊢
    rw [List.map_cons, List.sum_cons, hone, ih fun d hd => hascii d (List.mem_cons_of_mem c hd),
      List.length_cons]
    omega

namespace Shell

variable {fb : Framebuffer} {s t : Shell}

theorem grid_print (s : Shell) (text : List UInt8) :
    (s.print fb text).grid = text.foldl (Grid.write fb) s.grid := put_same _ _ _

theorem grid_backspace (s : Shell) : (s.perform fb (.backspace s.tty)).grid = s.grid.erase :=
  put_same _ _ _

theorem grid_elsewhere (fb : Framebuffer) {call : ConsoleCall} (h : Spares s.tty call) :
    (s.perform fb call).grid = s.grid := by
  unfold grid perform
  cases call with
  | write other text => exact put_other (Ne.symm h)
  | backspace other => exact put_other (Ne.symm h)
  | clear other => exact put_other (Ne.symm h)
  | tick => rfl

/-- A text that fits into the line leaves no bar. -/
theorem leavesBar_of_room {text : List UInt8} {g : Grid}
    (hroom : g.column + text.length ≤ fb.columns)
    (hplain : ∀ byte ∈ text, byte ≠ carriageReturn ∧ byte ≠ lineFeed) :
    leavesBar fb g .hidden text = false := by
  induction text generalizing g with
  | nil => rfl
  | cons byte text ih =>
    obtain ⟨hreturn, hfeed⟩ := hplain byte List.mem_cons_self
    rw [List.length_cons] at hroom
    have hfull : ¬ g.full fb = true := by
      unfold Grid.full
      simp
      omega
    have hwrite : g.write fb byte = g.put byte := by
      unfold Grid.write
      rw [if_neg hreturn, if_neg hfeed, if_neg hfull]
    have hbar : Bar.write fb g .hidden byte = .hidden := by
      unfold Bar.write
      rw [if_neg hreturn, if_neg hfeed, if_neg hfull]
      rfl
    unfold leavesBar
    rw [hwrite, hbar]
    apply ih
    · show g.column + 1 + text.length ≤ _
      omega
    · intro b hb
      exact hplain b (List.mem_cons_of_mem byte hb)

theorem leavesBar_lineEnd (fb : Framebuffer) (g : Grid) :
    leavesBar fb g .hidden [carriageReturn, lineFeed] = false := by
  show (Bar.newline fb g .hidden == .left) = false
  unfold Bar.newline
  split <;> rfl

theorem Drawn.perform {tty : Nat} {c : Consoles} {grids : Nat → Grid}
    (hcell : HoldsCell fb) (h : Drawn fb tty c grids) (call : ConsoleCall)
    (hbar : call.leavesBarOn fb grids tty = false) :
    Drawn fb tty (c.perform call) (call.onGrids fb grids) := by
  obtain ⟨haligned, hrenders⟩ :=
    ConsoleCall.perform_renders grids hcell.row hcell.width hcell.height h.target h.renders
      h.aligned call
  refine ⟨?_, haligned, hrenders.mpr hbar⟩
  rw [ConsoleCall.ttyTarget_perform]
  exact h.target

theorem leavesBarOn_write {tty : Nat} {grids : Nat → Grid} {text : List UInt8}
    (hbar : leavesBar fb (grids tty) .hidden text = false) :
    (ConsoleCall.write tty text).leavesBarOn fb grids tty = false := by
  show (tty == tty && leavesBar fb (grids tty) .hidden text) = false
  rw [hbar, Bool.and_false]

/-- Text is added to the input and to the line. -/
theorem Shown.add (h : s.Shown fb) {text : List Char} (hplain : ∀ c ∈ text, Plain c)
    (hshort : s.input.length + text.length ≤ 64) :
    Shown fb { s.print fb (utf8Bytes text) with input := s.input ++ text } := by
  have hroom := h.room
  have hcursor := h.cursor
  obtain ⟨hlength, hends⟩ := plain_bytes hplain
  obtain ⟨hcolumn, hrow, hcells⟩ :=
    Grid.write_text fb s.grid _ (by rw [hlength]; omega) hends
  rw [hlength] at hcolumn hcells
  rw [← grid_print] at hcolumn hrow hcells
  refine ⟨hroom, ?_, ?_, ?_, ?_⟩
  · show (s.print fb _).grid.column = s.start + (s.input ++ text).length
    rw [hcolumn, hcursor, List.length_append]
    omega
  · intro i c hi
    show (s.print fb _).grid.cells (s.start + i) (s.print fb _).grid.row = _
    rw [hrow, hcells]
    by_cases hold : i < s.input.length
    · rw [if_neg (by omega)]
      apply h.cells
      rw [← hi]
      exact (List.getElem?_append_left hold).symm
    · have hnew : text[i - s.input.length]? = some c := by
        rw [← hi]
        exact (List.getElem?_append_right (Nat.not_lt.mp hold)).symm
      have hlt := (List.getElem?_eq_some_iff.mp hnew).1
      rw [if_pos (by omega), utf8Bytes_of_plain hplain, List.getElem?_map,
        show s.start + i - s.grid.column = i - s.input.length by omega, hnew]
      rfl
  · show (s.input ++ text).length ≤ 64
    rw [List.length_append]
    exact hshort
  · intro c hc
    exact (List.mem_append.mp hc).elim (h.ascii c) fun hmem => (hplain c hmem).1

/-- The last character is taken from the input and from the line. -/
theorem Shown.remove (h : s.Shown fb) (hne : s.input ≠ []) :
    Shown fb { s.perform fb (.backspace s.tty) with input := s.input.dropLast } := by
  have hpos : 0 < s.input.length := List.length_pos_iff.mpr hne
  have hcursor := h.cursor
  have hshort := h.short
  have herase : (s.perform fb (.backspace s.tty)).grid = _ := grid_backspace s
  unfold Grid.erase at herase
  rw [dif_neg (by omega)] at herase
  refine ⟨h.room, ?_, ?_, ?_, ?_⟩
  · show (s.perform fb (.backspace s.tty)).grid.column = _
    rw [herase]
    show s.grid.column - 1 = s.start + s.input.dropLast.length
    rw [List.length_dropLast]
    omega
  · intro i c hi
    show (s.perform fb (.backspace s.tty)).grid.cells (s.start + i)
      (s.perform fb (.backspace s.tty)).grid.row = _
    have hlt := (List.getElem?_eq_some_iff.mp hi).1
    have hlt' : i < s.input.length - 1 := by rwa [← List.length_dropLast]
    rw [herase]
    show s.grid.cells.set (s.grid.column - 1) s.grid.row none (s.start + i) s.grid.row = _
    unfold Cells.set
    rw [if_neg (by omega)]
    apply h.cells
    rw [List.dropLast_eq_take, List.getElem?_take_of_lt hlt'] at hi
    exact hi
  · show s.input.dropLast.length ≤ 64
    rw [List.length_dropLast]
    omega
  · intro c hc
    exact h.ascii c (List.dropLast_subset _ hc)

/-- What stands behind the prompt is the input. -/
theorem Shown.textOf_line (h : s.Shown fb) : textOf s.line = s.input := by
  have hline : s.line = s.input.map fun c => some (UInt8.ofNat c.toNat) := by
    unfold line
    rw [h.cursor, Nat.add_sub_cancel_left]
    apply List.ext_getElem
    · simp
    · intro i hi hi'
      have hlt : i < s.input.length := by simpa using hi'
      rw [List.getElem_map, List.getElem_range', List.getElem_map, Nat.one_mul]
      exact h.cells i _ (List.getElem?_eq_getElem hlt)
  have hascii := h.ascii
  rw [hline]
  generalize s.input = input at hascii
  induction input with
  | nil => rfl
  | cons c input ih =>
    have hlt := hascii c List.mem_cons_self
    have hback : Char.ofNat (UInt8.ofNat c.toNat).toNat = c := by
      rw [UInt8.toNat_ofNat', Nat.mod_eq_of_lt (by omega), Char.ofNat_toNat]
    show Char.ofNat (UInt8.ofNat c.toNat).toNat :: textOf (input.map _) = _
    rw [hback, ih fun d hd => hascii d (List.mem_cons_of_mem c hd)]

theorem plain_key {byte : UInt8} (hbyte : byte < 0x80) (hreturn : byte ≠ carriageReturn)
    (hfeed : byte ≠ lineFeed) : Plain (Char.ofNat byte.toNat) := by
  have hlt : byte.toNat < 0x80 := UInt8.lt_iff_toNat_lt.mp hbyte
  have hvalue : (Char.ofNat byte.toNat).toNat = byte.toNat := by
    unfold Char.ofNat
    rw [dif_pos (.inl (by omega))]
    rfl
  unfold Plain
  rw [hvalue]
  exact ⟨hlt, fun heq => hreturn (UInt8.toNat_inj.mp heq),
    fun heq => hfeed (UInt8.toNat_inj.mp heq)⟩

theorem plain_commands :
    ∀ command ∈ consoleCommands, command.length ≤ 64 ∧ ∀ c ∈ command, Plain c := by
  simp [consoleCommands, Plain, carriageReturn, lineFeed]

/-- The program prints what it adds to the input. -/
theorem Edited.add (hcell : HoldsCell fb) (h : s.Edited fb) (hediting : s.running = false)
    {text : List Char} (hplain : ∀ c ∈ text, Plain c)
    (hshort : s.input.length + text.length ≤ 64) :
    Edited fb { s.print fb (utf8Bytes text) with input := s.input ++ text } := by
  have hshown := h.shown hediting
  have hroom := hshown.room
  have hcursor := hshown.cursor
  obtain ⟨hlength, hends⟩ := plain_bytes hplain
  refine ⟨h.drawn.perform hcell _ (leavesBarOn_write ?_), fun _ => hshown.add hplain hshort,
    h.executed⟩
  apply leavesBar_of_room _ hends
  rw [hlength]
  show s.grid.column + text.length ≤ _
  omega

theorem Edited.handleKey (hcell : HoldsCell fb) (h : s.Edited fb) (hediting : s.running = false)
    {byte : UInt8} (hbyte : byte < 0x80) : (s.handleKey fb byte).Edited fb := by
  have hshown := h.shown hediting
  unfold Shell.handleKey
  by_cases henter : byte = carriageReturn ∨ byte = lineFeed
  · rw [if_pos henter]
    refine ⟨h.drawn.perform hcell _ (leavesBarOn_write (leavesBar_lineEnd fb _)),
      fun hrunning => Bool.noConfusion hrunning, ?_⟩
    show s.executed ++ [trim s.input] = (s.seen ++ [s.line]).map _
    rw [List.map_append, ← h.executed, List.map_singleton, hshown.textOf_line]
  rw [if_neg henter]
  by_cases hback : byte = 0x08
  · rw [if_pos hback]
    split
    · rename_i hne
      exact ⟨h.drawn.perform hcell (.backspace s.tty) rfl, fun _ => hshown.remove hne, h.executed⟩
    · exact h
  rw [if_neg hback]
  by_cases htab : byte = 0x09
  · rw [if_pos htab]
    split
    · rename_i completion hcomplete
      obtain ⟨hmem, hbegins, -⟩ := complete_eq_some_iff.mp hcomplete
      obtain ⟨rest, rfl⟩ := hbegins
      obtain ⟨hlength, hplain⟩ := plain_commands _ hmem
      rw [utf8Length_of_ascii hshown.ascii]
      dsimp only
      rw [List.drop_left]
      apply h.add hcell hediting
      · intro c hc
        exact hplain c (List.mem_append_right _ hc)
      · rwa [← List.length_append]
    · exact h
  rw [if_neg htab]
  split
  · rename_i hshort
    rw [utf8Length_of_ascii hshown.ascii] at hshort
    apply h.add hcell hediting
    · intro c hc
      rw [List.mem_singleton.mp hc]
      obtain ⟨hreturn, hfeed⟩ := not_or.mp henter
      exact plain_key hbyte hreturn hfeed
    · rw [List.length_singleton]
      omega
  · exact h

theorem Edited.prompt (hcell : HoldsCell fb) (h : s.Edited fb)
    (hroom : s.grid.column + 66 ≤ fb.columns) :
    Edited fb { s.print fb [0x3E, 0x20] with
      input := []
      running := false
      start := s.grid.column + 2 } := by
  have hfits : s.grid.column + ([0x3E, 0x20] : List UInt8).length ≤ fb.columns := by
    show s.grid.column + 2 ≤ _
    omega
  have hends : ∀ byte ∈ ([0x3E, 0x20] : List UInt8), byte ≠ carriageReturn ∧ byte ≠ lineFeed := by
    simp [carriageReturn, lineFeed]
  obtain ⟨hcolumn, -, -⟩ := Grid.write_text fb s.grid _ hfits hends
  rw [← grid_print] at hcolumn
  refine ⟨h.drawn.perform hcell _ (leavesBarOn_write (leavesBar_of_room hfits hends)),
    fun _ => ⟨?_, hcolumn, fun i c hi => ?_, Nat.zero_le 64, fun c hc => ?_⟩, h.executed⟩
  · show s.grid.column + 2 + 64 ≤ fb.columns
    omega
  · cases hi
  · cases hc

theorem Shown.elsewhere (h : s.Shown fb) {call : ConsoleCall} (hspares : Spares s.tty call) :
    (s.perform fb call).Shown fb := by
  have hgrid := grid_elsewhere fb hspares
  refine ⟨h.room, ?_, ?_, h.short, h.ascii⟩
  · rw [hgrid]
    exact h.cursor
  · rw [hgrid]
    exact h.cells

theorem leavesBarOn_elsewhere {call : ConsoleCall} (hspares : Spares s.tty call) :
    call.leavesBarOn fb s.grids s.tty = false := by
  cases call with
  | write other text =>
    show (other == s.tty && leavesBar fb (s.grids s.tty) .hidden text) = false
    rw [beq_false_of_ne hspares, Bool.false_and]
  | backspace other => rfl
  | clear other => rfl
  | tick => rfl

theorem Edited.step (hcell : HoldsCell fb) (h : s.Edited fb) {a : ShellAction}
    (hguard : s.Undisturbed fb a) (hstep : s.step fb a = some t) : t.Edited fb := by
  cases a with
  | key byte =>
    simp only [Shell.step] at hstep
    split at hstep
    · cases hstep
    · rename_i hediting
      obtain rfl := Option.some.inj hstep
      exact h.handleKey hcell (by simpa using hediting) hguard
  | output text =>
    simp only [Shell.step] at hstep
    split at hstep
    · rename_i hrunning
      obtain rfl := Option.some.inj hstep
      exact ⟨h.drawn.perform hcell _ (leavesBarOn_write hguard),
        fun hnot => absurd (hrunning.symm.trans hnot) (by decide), h.executed⟩
    · cases hstep
  | clear =>
    simp only [Shell.step] at hstep
    split at hstep
    · rename_i hrunning
      obtain rfl := Option.some.inj hstep
      exact ⟨h.drawn.perform hcell (.clear s.tty) rfl,
        fun hnot => absurd (hrunning.symm.trans hnot) (by decide), h.executed⟩
    · cases hstep
  | prompt =>
    simp only [Shell.step] at hstep
    split at hstep
    · obtain rfl := Option.some.inj hstep
      exact h.prompt hcell hguard
    · cases hstep
  | elsewhere call =>
    obtain rfl := Option.some.inj hstep
    exact ⟨h.drawn.perform hcell _ (leavesBarOn_elsewhere hguard),
      fun hediting => (h.shown hediting).elsewhere hguard, h.executed⟩

theorem edited_started {primary : Framebuffer} {tty : Nat} {c : Consoles} (hrow : fb.HoldsRow)
    (htarget : (c.enableUserConsole primary).ttyTarget tty = some fb) :
    (started primary tty c).Edited fb := by
  refine ⟨⟨htarget, c.enableUserConsole_aligned htarget, ?_⟩,
    fun hediting => Bool.noConfusion hediting, rfl⟩
  show ((c.enableUserConsole primary).screens tty).Renders fb .empty
  rw [c.screens_enableUserConsole htarget]
  exact Screen.clearTty_renders hrow _

/-- Whatever is typed and whatever the commands print: the pixels show the text
of the terminal, the input stands in it behind the prompt, and the commands
that were run are what stood there when Enter was pressed.  `fb` is what the
terminal draws into. -/
theorem lineShown {primary : Framebuffer} {tty : Nat} {c : Consoles} (hcell : HoldsCell fb)
    (htarget : (c.enableUserConsole primary).ttyTarget tty = some fb)
    (hrun : Run (Shell.step fb) (Undisturbed fb) (started primary tty c) s) : s.Edited fb := by
  apply hrun.invariant (Edited fb)
  · intro t a u ht hguard hstep
    exact ht.step hcell hguard hstep
  · exact edited_started hcell.row htarget

/-- The framebuffer that the boot header asks for. -/
def bootFramebuffer : Framebuffer :=
  { width := 1024, height := 768, pitch := 4096, bitsPerPixel := 32 }

/-- After a tab and a typing error, and with another terminal at work. -/
theorem lineShown_help : ∃ s : Shell,
    s.executed = [['h', 'e', 'l', 'p']] ∧ s.input = ['l', 's'] ∧ s.Edited bootFramebuffer := by
  have hrun : (exec (Shell.step bootFramebuffer) (Undisturbed bootFramebuffer)
      [.clear, .output [0x48, 0x49, carriageReturn, lineFeed], .prompt, .key 0x68, .key 0x78,
        .key 0x08, .elsewhere (.write 1 [0x41]), .key 0x65, .key 0x6C, .key 0x09, .key lineFeed,
        .output [0x4F, 0x4B, carriageReturn, lineFeed], .prompt, .key 0x6C, .key 0x73]
      (started bootFramebuffer 0 .initial)).any
      (fun s => decide (s.executed = [['h', 'e', 'l', 'p']] ∧ s.input = ['l', 's'])) = true := by
    decide +kernel
  have htarget : (Consoles.initial.enableUserConsole bootFramebuffer).ttyTarget 0 =
      some bootFramebuffer := by
    decide
  have hcell : HoldsCell bootFramebuffer :=
    ⟨Consoles.ttyTarget_holdsRow htarget rfl (by decide), by decide, by decide⟩
  obtain ⟨s, hs, hlines⟩ := (Option.any_eq_true _ _).mp hrun
  obtain ⟨hexecuted, hinput⟩ := of_decide_eq_true hlines
  exact ⟨s, hexecuted, hinput, lineShown hcell htarget (run_of_exec hs)⟩

end Shell

end OpenKernel
