import OpenKernel.Userland.PrivateRange

/-!
# The startup stack

`initialize_process_stack` puts the arguments and the environment of a program
below its stack top: the strings one under the other, and under them, aligned,
the vector that `_start` finds at its stack pointer.  Read from there by the C
convention, it gives the arguments that went in (`startup_stack_decodes`).
The words of the vector are counted down from an aligned address, so that
their number decides how the program is aligned (`startup_stack_alignment`).
-/

namespace OpenKernel

open Lib

/-! ## The reader -/

namespace Memory

/-- The bytes from an address on, up to the first zero. -/
def readString (m : Memory) : (fuel address : Nat) → Option (List UInt8)
  | 0, _ => none
  | fuel + 1, address =>
    match m.loadByte address with
    | none => none
    | some byte =>
      if byte = 0 then some [] else (m.readString fuel (address + 1)).map (byte :: ·)

/-- The strings of an array of pointers, up to the null pointer, and the
address after it. -/
def readStrings (m : Memory) : (fuel address : Nat) → Option (List (List UInt8) × Nat)
  | 0, _ => none
  | fuel + 1, address =>
    match m.loadWord address with
    | none => none
    | some pointer =>
      if pointer = 0 then some ([], address + 8)
      else
        match m.readString fuel pointer with
        | none => none
        | some text => (m.readStrings fuel (address + 8)).map fun (texts, after) =>
          (text :: texts, after)

/-- What a program finds at its stack pointer: `argc`, `argv` and `envp`. -/
def readStartup (m : Memory) (fuel stackPointer : Nat) :
    Option (Nat × List (List UInt8) × List (List UInt8)) := do
  let count ← m.loadWord stackPointer
  let (arguments, environment) ← m.readStrings fuel (stackPointer + 8)
  let (strings, _) ← m.readStrings fuel environment
  return (count, arguments, strings)

end Memory

namespace Kernel

/-! ## The layout -/

/-- The strings in the order of their addresses, from the highest. -/
def startupTexts (programName : List UInt8) (argv : List (List UInt8)) : List (List UInt8) :=
  (programName :: argv.take 4).reverse.map (· ++ [0]) ++ [pathVariable, pwdVariable]

/-- The environment of every program. -/
def startupEnvironment : List (List UInt8) := ["PATH=/bin".toUTF8.toList, "PWD=/".toUTF8.toList]

/-- Everything that `initialize_process_stack` writes. -/
def StartupBlock.blocks (block : StartupBlock) : List (Block UInt8) :=
  block.strings ++ block.words.zipIdx.map fun (word, index) =>
    (wrappingSub block.cursor (8 * index), littleEndianBytes word)

/-- The aligned end of the vector. -/
def vectorEnd (stackPointer : Nat) (programName : List UInt8) (argv : List (List UInt8)) : Nat :=
  (stackPointer + 8 - Block.total (startupTexts programName argv)) / 16 * 16

/-- The stack from `bottom` on has room for the strings and the vector. -/
def StartupFits (bottom stackPointer : Nat) (programName : List UInt8)
    (argv : List (List UInt8)) : Prop :=
  bottom + 8 * (7 + min 4 argv.length) ≤ vectorEnd stackPointer programName argv

theorem wrappingSub_eq {a b : Nat} (hle : b ≤ a) (ha : a < 2 ^ 64) : wrappingSub a b = a - b := by
  unfold wrappingSub
  omega

theorem startupStrings_eq {cursor : Nat} {texts : List (List UInt8)}
    (hfit : Block.total texts ≤ cursor) (hcursor : cursor < 2 ^ 64) :
    startupStrings cursor texts = Block.downFrom cursor texts := by
  induction texts generalizing cursor with
  | nil => rfl
  | cons text rest ih =>
    rw [Block.total_cons] at hfit
    rw [startupStrings, Block.downFrom, wrappingSub_eq (by omega) hcursor]
    show _ :: startupStrings _ rest = _
    rw [ih (by omega) (by omega)]

theorem startupWords_eq {cursor start : Nat} {words : List Nat}
    (hfit : 8 * (start + words.length) ≤ cursor) (hcursor : cursor < 2 ^ 64) :
    (words.zipIdx start).map (fun (word, index) =>
        (wrappingSub (cursor - 8) (8 * index), littleEndianBytes word)) =
      Block.downFrom (cursor - 8 * start) (words.map littleEndianBytes) := by
  induction words generalizing start with
  | nil => rfl
  | cons word rest ih =>
    rw [List.length_cons] at hfit
    rw [List.zipIdx_cons, List.map_cons, List.map_cons, Block.downFrom, ih (by omega)]
    show (wrappingSub (cursor - 8) (8 * start), littleEndianBytes word) :: _ = _
    rw [wrappingSub_eq (by omega) (by omega), length_littleEndianBytes,
      show cursor - 8 * start - 8 = cursor - 8 - 8 * start by omega,
      show cursor - 8 * (start + 1) = cursor - 8 - 8 * start by omega]

theorem total_words (words : List Nat) :
    Block.total (words.map littleEndianBytes) = 8 * words.length := by
  induction words with
  | nil => rfl
  | cons word rest ih =>
    rw [List.map_cons, Block.total_cons, ih, length_littleEndianBytes, List.length_cons]
    omega

section Layout

variable {bottom stackPointer : Nat} {programName : List UInt8} {argv : List (List UInt8)}

theorem length_startupWords :
    (startupBlock stackPointer programName argv).words.length = 7 + min 4 argv.length := by
  have hstrings : ∀ cursor texts, (startupStrings cursor texts).length = texts.length := by
    intro cursor texts
    induction texts generalizing cursor with
    | nil => rfl
    | cons text rest ih => simp [startupStrings, ih]
  simp [startupBlock, hstrings]
  omega

/-- Aligned words have room only below strings that have room. -/
theorem StartupFits.total_le (hfit : StartupFits bottom stackPointer programName argv) :
    Block.total (startupTexts programName argv) ≤ stackPointer + 8 := by
  unfold StartupFits vectorEnd at hfit
  omega

theorem StartupFits.strings_eq (hfit : StartupFits bottom stackPointer programName argv)
    (htop : stackPointer + 8 < 2 ^ 64) :
    (startupBlock stackPointer programName argv).strings =
      Block.downFrom (stackPointer + 8) (startupTexts programName argv) := by
  show startupStrings ((stackPointer + 8) % 2 ^ 64) _ = _
  rw [Nat.mod_eq_of_lt htop]
  exact startupStrings_eq hfit.total_le htop

theorem vectorEnd_eq (htop : stackPointer + 8 < 2 ^ 64) :
    alignDown (stackPointer + 8 - Block.total (startupTexts programName argv)) 16 =
      vectorEnd stackPointer programName argv := by
  unfold vectorEnd
  rw [Nat.mul_comm]
  exact and_highMask (k := 4) (Nat.lt_of_le_of_lt (Nat.sub_le _ _) htop) (by decide)

theorem vectorEnd_lt (htop : stackPointer + 8 < 2 ^ 64) :
    vectorEnd stackPointer programName argv < 2 ^ 64 := by
  unfold vectorEnd
  omega

theorem StartupFits.cursor_eq (hfit : StartupFits bottom stackPointer programName argv)
    (htop : stackPointer + 8 < 2 ^ 64) :
    (startupBlock stackPointer programName argv).cursor =
      vectorEnd stackPointer programName argv - 8 := by
  have hcursor : (startupBlock stackPointer programName argv).cursor = wrappingSub (alignDown
      (((startupBlock stackPointer programName argv).strings.map (·.1)).getLastD 0) 16) 8 := rfl
  rw [hcursor, hfit.strings_eq htop, Block.getLastD_downFrom (by simp [startupTexts]),
    vectorEnd_eq htop]
  unfold StartupFits at hfit
  exact wrappingSub_eq (by omega) (vectorEnd_lt htop)

theorem StartupFits.blocks_eq (hfit : StartupFits bottom stackPointer programName argv)
    (htop : stackPointer + 8 < 2 ^ 64) :
    (startupBlock stackPointer programName argv).blocks =
      Block.downFrom (stackPointer + 8) (startupTexts programName argv) ++
        Block.downFrom (vectorEnd stackPointer programName argv)
          ((startupBlock stackPointer programName argv).words.map littleEndianBytes) := by
  unfold StartupBlock.blocks
  rw [hfit.strings_eq htop, hfit.cursor_eq htop, startupWords_eq, Nat.mul_zero, Nat.sub_zero]
  · rw [length_startupWords]
    unfold StartupFits at hfit
    omega
  · exact vectorEnd_lt htop

/-- The new stack pointer, without wraparound. -/
theorem StartupFits.result_eq (hfit : StartupFits bottom stackPointer programName argv)
    (htop : stackPointer + 8 < 2 ^ 64) :
    wrappingSub (startupBlock stackPointer programName argv).cursor
        (8 * ((startupBlock stackPointer programName argv).words.length - 1)) =
      vectorEnd stackPointer programName argv - 8 * (7 + min 4 argv.length) := by
  have hend : vectorEnd stackPointer programName argv < 2 ^ 64 := vectorEnd_lt htop
  rw [hfit.cursor_eq htop, length_startupWords]
  unfold StartupFits at hfit
  rw [wrappingSub_eq (by omega) (by omega)]
  omega

end Layout

/-! ## The run -/

section Run

variable {m : Memory} {k : Kernel} {bottom top stackPointer : Nat} {f : Nat → UInt8}
  {programName : List UInt8} {argv : List (List UInt8)}

/-- Stores in turn, each of one block. -/
theorem storeAll_run {α : Type} (xs : List α) (store : α → Memory → Option Memory)
    (block : α → Block UInt8) (h : HoldsBytes m bottom top f k.memory)
    (hstore : ∀ x ∈ xs, ∀ f m', HoldsBytes m bottom top f m' →
      ∃ m'', store x m' = some m'' ∧ HoldsBytes m bottom top (Block.write f (block x)) m'') :
    ∃ m', xs.forM (fun x => KernelCall.ofAccess (store x)) k = .ok () { k with memory := m' } ∧
      HoldsBytes m bottom top (Block.writeAll f (xs.map block)) m' := by
  induction xs generalizing k f with
  | nil => exact ⟨k.memory, rfl, h⟩
  | cons x xs ih =>
    obtain ⟨m', hx, hm'⟩ := hstore x (by simp) f _ h
    obtain ⟨m'', hrun, hm''⟩ := ih (k := { k with memory := m' }) hm'
      fun y hy => hstore y (by simp [hy])
    refine ⟨m'', ?_, hm''⟩
    have hfirst : KernelCall.ofAccess (store x) k = .ok () { k with memory := m' } := by
      unfold KernelCall.ofAccess
      rw [hx]
    show EStateM.bind _ _ k = _
    unfold EStateM.bind
    rw [hfirst]
    exact hrun

theorem seq_run {α : Type} {x y : KernelCall Unit} {a : α} {k' k'' : Kernel}
    (hx : x k = .ok () k') (hy : y k' = .ok () k'') :
    (do x; y; return a : KernelCall α) k = .ok a k'' := by
  show EStateM.bind _ _ k = _
  unfold EStateM.bind
  rw [hx]
  show EStateM.bind _ _ k' = _
  unfold EStateM.bind
  rw [hy]
  rfl

/-- Where there is room, everything is written. -/
theorem initializeProcessStack_run (hm : PrivateRange k.memory bottom (stackPointer + 8))
    (hfit : StartupFits bottom stackPointer programName argv)
    (htop : stackPointer + 8 < 2 ^ 64) :
    ∃ m', initializeProcessStack stackPointer programName argv k =
        .ok (vectorEnd stackPointer programName argv - 8 * (7 + min 4 argv.length))
          { k with memory := m' } ∧
      HoldsBytes k.memory bottom (stackPointer + 8) (Block.writeAll k.memory.rangeBytes
        (startupBlock stackPointer programName argv).blocks) m' := by
  have hroom := hfit
  unfold StartupFits vectorEnd at hroom
  obtain ⟨m₁, hstrings, hm₁⟩ := storeAll_run
    (startupBlock stackPointer programName argv).strings
    (fun block m => m.storeBytes block.1 block.2) id hm.holdsBytes (by
      intro block hblock f m' hm'
      rw [hfit.strings_eq htop] at hblock
      have hbounds := Block.downFrom_bounds hfit.total_le hblock
      exact hm'.storeBytes hm (by omega) hbounds.2)
  obtain ⟨m₂, hwords, hm₂⟩ := storeAll_run (k := { k with memory := m₁ })
    (startupBlock stackPointer programName argv).words.zipIdx
    (fun (word, index) m => m.storeWord (wrappingSub
      (startupBlock stackPointer programName argv).cursor (8 * index)) word)
    (fun (word, index) => (wrappingSub
      (startupBlock stackPointer programName argv).cursor (8 * index), littleEndianBytes word))
    hm₁ (by
      intro (word, index) hword f m' hm'
      have hindex := (List.mem_zipIdx hword).2.1
      rw [length_startupWords] at hindex
      dsimp only
      rw [hfit.cursor_eq htop, wrappingSub_eq]
      · apply hm'.storeWord hm
        all_goals unfold vectorEnd; omega
      all_goals unfold vectorEnd; omega)
  refine ⟨m₂, ?_, ?_⟩
  · rw [← hfit.result_eq htop]
    exact seq_run hstrings hwords
  · rw [List.map_id, ← Block.writeAll_append] at hm₂
    exact hm₂

end Run

/-! ## Reading it back -/

section Reader

variable {m : Memory} {v fuel : Nat}

theorem readString_eq {text : List UInt8} (htext : 0 ∉ text)
    (hbytes : ∀ i, i ≤ text.length → m.loadByte (v + i) = (text ++ [0])[i]?)
    (hfuel : text.length < fuel) : m.readString fuel v = some text := by
  induction text generalizing v fuel with
  | nil =>
    obtain ⟨fuel, rfl⟩ := Nat.exists_eq_succ_of_ne_zero (Nat.ne_of_gt hfuel)
    have hfirst : m.loadByte v = some 0 := hbytes 0 (Nat.le_refl _)
    rw [Memory.readString, hfirst]
    rfl
  | cons byte text ih =>
    obtain ⟨fuel, rfl⟩ := Nat.exists_eq_succ_of_ne_zero (Nat.ne_zero_of_lt hfuel)
    rw [List.length_cons] at hfuel
    obtain ⟨hbyte, htext⟩ := not_or.mp (List.mem_cons.not.mp htext)
    have hfirst : m.loadByte v = some byte := hbytes 0 (Nat.zero_le _)
    have hrest : m.readString fuel (v + 1) = some text := by
      apply ih htext
      · intro i hi
        rw [Nat.add_assoc, Nat.add_comm 1 i]
        exact hbytes (i + 1) (Nat.succ_le_succ hi)
      · omega
    rw [Memory.readString, hfirst]
    show (if byte = 0 then some [] else (m.readString fuel (v + 1)).map (byte :: ·)) = _
    rw [if_neg (Ne.symm hbyte), hrest]
    rfl

/-- A pointer to a string. -/
def PointsTo (m : Memory) (pointer : Nat) (text : List UInt8) : Prop :=
  pointer ≠ 0 ∧ ∀ fuel, text.length < fuel → m.readString fuel pointer = some text

theorem readStrings_eq {pointers : List Nat} {texts : List (List UInt8)}
    (hpointers : List.Forall₂ (PointsTo m) pointers texts)
    (hwords : ∀ i word, (pointers ++ [0])[i]? = some word → m.loadWord (v + 8 * i) = some word)
    (hfuel : Block.total texts + texts.length < fuel) :
    m.readStrings fuel v = some (texts, v + 8 * (pointers.length + 1)) := by
  induction hpointers generalizing v fuel with
  | nil =>
    obtain ⟨fuel, rfl⟩ := Nat.exists_eq_succ_of_ne_zero (Nat.ne_zero_of_lt hfuel)
    rw [Memory.readStrings, show m.loadWord v = some 0 from hwords 0 0 rfl]
    rfl
  | @cons pointer text pointers texts hpointer _ ih =>
    obtain ⟨fuel, rfl⟩ := Nat.exists_eq_succ_of_ne_zero (Nat.ne_zero_of_lt hfuel)
    rw [Block.total_cons, List.length_cons] at hfuel
    have hrest : m.readStrings fuel (v + 8) =
        some (texts, v + 8 + 8 * (pointers.length + 1)) := by
      apply ih
      · intro i word hword
        rw [show v + 8 + 8 * i = v + 8 * (i + 1) by omega]
        exact hwords (i + 1) word (by simpa using hword)
      · omega
    rw [Memory.readStrings, show m.loadWord v = some pointer from hwords 0 pointer rfl]
    show (if pointer = 0 then some ([], v + 8) else _) = _
    rw [if_neg hpointer.1, hpointer.2 fuel (by omega), hrest, List.length_cons]
    show some (text :: texts, v + 8 + 8 * (pointers.length + 1)) = _
    rw [show v + 8 + 8 * (pointers.length + 1) = v + 8 * (pointers.length + 1 + 1) by omega]

/-- A vector of pointers to these strings. -/
theorem readStartup_eq {count : Nat} {first second : List Nat}
    {arguments environment : List (List UInt8)}
    (hfirst : List.Forall₂ (PointsTo m) first arguments)
    (hsecond : List.Forall₂ (PointsTo m) second environment)
    (hwords : ∀ i word, (count :: ((first ++ [0]) ++ (second ++ [0, 0])))[i]? = some word →
      m.loadWord (v + 8 * i) = some word)
    (hfuel : Block.total arguments + arguments.length < fuel)
    (hfuel' : Block.total environment + environment.length < fuel) :
    m.readStartup fuel v = some (count, arguments, environment) := by
  have harguments : m.readStrings fuel (v + 8) =
      some (arguments, v + 8 + 8 * (first.length + 1)) := by
    apply readStrings_eq hfirst _ hfuel
    intro i word hword
    rw [show v + 8 + 8 * i = v + 8 * (i + 1) by omega]
    apply hwords
    rw [List.getElem?_cons_succ, List.getElem?_append_left (List.getElem?_eq_some_iff.mp hword).1]
    exact hword
  have henvironment : m.readStrings fuel (v + 8 + 8 * (first.length + 1)) =
      some (environment, v + 8 + 8 * (first.length + 1) + 8 * (second.length + 1)) := by
    apply readStrings_eq hsecond _ hfuel'
    intro i word hword
    have hlength : (first ++ [0]).length = first.length + 1 := List.length_append
    rw [show v + 8 + 8 * (first.length + 1) + 8 * i = v + 8 * (first.length + 1 + i + 1) by omega]
    apply hwords
    rw [List.getElem?_cons_succ, List.getElem?_append_right (by omega), hlength,
      Nat.add_sub_cancel_left, show second ++ [0, 0] = second ++ [0] ++ [0] by simp,
      List.getElem?_append_left (List.getElem?_eq_some_iff.mp hword).1]
    exact hword
  unfold Memory.readStartup
  rw [show m.loadWord v = some count from hwords 0 count rfl]
  show (m.readStrings fuel (v + 8)).bind _ = _
  rw [harguments]
  show (m.readStrings fuel (v + 8 + 8 * (first.length + 1))).bind _ = _
  rw [henvironment]
  rfl

end Reader

section Decode

variable {m m' : Memory} {bottom stackPointer : Nat} {f : Nat → UInt8} {programName : List UInt8}
  {argv : List (List UInt8)}

/-- Nothing that is written lies in anything else, and all of it between the
new stack pointer and the old top. -/
theorem StartupFits.blocks_apart (hfit : StartupFits bottom stackPointer programName argv)
    (htop : stackPointer + 8 < 2 ^ 64) :
    (startupBlock stackPointer programName argv).blocks.Pairwise Block.Apart ∧
      ∀ b ∈ (startupBlock stackPointer programName argv).blocks,
        vectorEnd stackPointer programName argv - 8 * (7 + min 4 argv.length) ≤ b.1 ∧
          b.1 + b.2.length ≤ stackPointer + 8 := by
  have hend : vectorEnd stackPointer programName argv ≤
      stackPointer + 8 - Block.total (startupTexts programName argv) := Nat.div_mul_le_self _ _
  have htotal : Block.total
      ((startupBlock stackPointer programName argv).words.map littleEndianBytes) =
        8 * (7 + min 4 argv.length) := by
    rw [total_words, length_startupWords]
  have hvector : 8 * (7 + min 4 argv.length) ≤ vectorEnd stackPointer programName argv :=
    Nat.le_trans (Nat.le_add_left _ _) hfit
  rw [hfit.blocks_eq htop]
  constructor
  · rw [List.pairwise_append]
    refine ⟨Block.downFrom_apart hfit.total_le, Block.downFrom_apart (htotal ▸ hvector), ?_⟩
    intro b hb b' hb'
    have hlow := (Block.downFrom_bounds hfit.total_le hb).1
    have hhigh := (Block.downFrom_bounds (htotal ▸ hvector) hb').2
    exact .inr (by omega)
  · intro b hb
    rcases List.mem_append.mp hb with hb | hb
    · have hbounds := Block.downFrom_bounds hfit.total_le hb
      omega
    · have hbounds := Block.downFrom_bounds (htotal ▸ hvector) hb
      rw [htotal] at hbounds
      have hbelow := hfit.total_le
      omega

/-- Every block is found where it was written. -/
theorem StartupFits.loadByte (hfit : StartupFits bottom stackPointer programName argv)
    (htop : stackPointer + 8 < 2 ^ 64)
    (hbytes : HoldsBytes m bottom (stackPointer + 8)
      (Block.writeAll f (startupBlock stackPointer programName argv).blocks) m')
    {b : Block UInt8} (hb : b ∈ (startupBlock stackPointer programName argv).blocks) {i : Nat}
    (hi : i < b.2.length) : m'.loadByte (b.1 + i) = b.2[i]? := by
  obtain ⟨hapart, hbounds⟩ := hfit.blocks_apart htop
  have hbetween := hbounds b hb
  rw [hbytes.bytes _ (by unfold StartupFits at hfit; omega) (by omega)]
  exact Block.writeAll_at hapart hb hi

/-- The strings are at the addresses that the vector holds. -/
theorem StartupFits.strings_found (hfit : StartupFits bottom stackPointer programName argv)
    (htop : stackPointer + 8 < 2 ^ 64)
    (hbytes : HoldsBytes m bottom (stackPointer + 8)
      (Block.writeAll f (startupBlock stackPointer programName argv).blocks) m')
    (hname : 0 ∉ programName) (hargv : ∀ argument ∈ argv, 0 ∉ argument) :
    List.Forall₂ (PointsTo m')
      ((startupBlock stackPointer programName argv).strings.map (·.1))
      ((programName :: argv.take 4).reverse ++ startupEnvironment) := by
  have htexts : startupTexts programName argv =
      ((programName :: argv.take 4).reverse ++ startupEnvironment).map (· ++ [0]) := by
    rw [List.map_append]
    rfl
  have henvironment : ∀ text ∈ startupEnvironment, 0 ∉ text := by decide +kernel
  have hzero : ∀ text ∈ (programName :: argv.take 4).reverse ++ startupEnvironment,
      0 ∉ text := by
    intro text htext
    rcases List.mem_append.mp htext with htext | htext
    · rcases List.mem_cons.mp (List.mem_reverse.mp htext) with rfl | htext
      · exact hname
      · exact hargv text (List.mem_of_mem_take htext)
    · exact henvironment text htext
  rw [hfit.strings_eq htop]
  have hall : List.Forall₂ (fun address text => ∃ value, text = value ++ [0] ∧
      PointsTo m' address value)
      ((Block.downFrom (stackPointer + 8) (startupTexts programName argv)).map (·.1))
      (startupTexts programName argv) := by
    apply Block.forall₂_downFrom
    intro b hb hmem
    rw [htexts] at hmem
    obtain ⟨text, htext, hbtext⟩ := List.mem_map.mp hmem
    have hblock : b ∈ (startupBlock stackPointer programName argv).blocks := by
      rw [hfit.blocks_eq htop]
      exact List.mem_append_left _ hb
    have hbounds := Block.downFrom_bounds hfit.total_le hb
    have hlength : b.2.length = text.length + 1 := by
      rw [← hbtext, List.length_append]
      rfl
    refine ⟨text, hbtext.symm, ?_, fun fuel hfuel => ?_⟩
    · unfold StartupFits vectorEnd at hfit
      omega
    · apply readString_eq (hzero text htext) _ hfuel
      intro i hi
      rw [hfit.loadByte htop hbytes hblock (by omega), hbtext]
  rw [htexts, List.forall₂_map_right_iff] at hall
  rw [htexts]
  refine hall.imp fun address text htext => ?_
  obtain ⟨value, hvalue, hfound⟩ := htext
  rw [List.append_cancel_right hvalue]
  exact hfound

/-- The vector, from the new stack pointer on. -/
theorem StartupFits.vector_found (hfit : StartupFits bottom stackPointer programName argv)
    (htop : stackPointer + 8 < 2 ^ 64)
    (hbytes : HoldsBytes m bottom (stackPointer + 8)
      (Block.writeAll f (startupBlock stackPointer programName argv).blocks) m')
    {i word : Nat}
    (hword : (startupBlock stackPointer programName argv).words.reverse[i]? = some word)
    (hsmall : word < 2 ^ 64) :
    m'.loadWord (vectorEnd stackPointer programName argv - 8 * (7 + min 4 argv.length) + 8 * i) =
      some word := by
  have hi := (List.getElem?_eq_some_iff.mp hword).1
  rw [List.length_reverse] at hi
  rw [List.getElem?_reverse hi] at hword
  rw [length_startupWords] at hi hword
  have hvector : bottom + 8 * (7 + min 4 argv.length) ≤ vectorEnd stackPointer programName argv :=
    hfit
  have hend : vectorEnd stackPointer programName argv ≤
      stackPointer + 8 - Block.total (startupTexts programName argv) := Nat.div_mul_le_self _ _
  -- The words go down, so this one is counted from the other end.
  have hblock : (vectorEnd stackPointer programName argv - 8 * (7 + min 4 argv.length) + 8 * i,
      littleEndianBytes word) ∈ (startupBlock stackPointer programName argv).blocks := by
    rw [hfit.blocks_eq htop]
    apply List.mem_append_right
    obtain ⟨hindex, hword⟩ := List.getElem?_eq_some_iff.mp hword
    have hmem : _ ∈ Block.downFrom (vectorEnd stackPointer programName argv)
        ((startupBlock stackPointer programName argv).words.map littleEndianBytes) :=
      List.mem_of_getElem? (Block.downFrom_getElem? (by rw [List.length_map]; exact hindex))
    rw [← List.map_take, total_words, List.length_take, List.getElem_map, hword,
      length_startupWords] at hmem
    rw [show vectorEnd stackPointer programName argv - 8 * (7 + min 4 argv.length) + 8 * i =
      vectorEnd stackPointer programName argv -
        8 * min (7 + min 4 argv.length - 1 - i + 1) (7 + min 4 argv.length) by omega]
    exact hmem
  apply hbytes.loadWord (by omega) (by omega) hsmall
  intro j hj
  rw [← hfit.loadByte htop hbytes hblock (by simpa using hj)]
  exact (hbytes.bytes _ (by omega) (by omega)).symm

/-- The vector in the order of its addresses. -/
theorem reverse_startupWords :
    (startupBlock stackPointer programName argv).words.reverse =
      (programName :: argv.take 4).length ::
        (((((startupBlock stackPointer programName argv).strings.map (·.1)).take
            (programName :: argv.take 4).length).reverse ++ [0]) ++
          (((startupBlock stackPointer programName argv).strings.map (·.1)).drop
            (programName :: argv.take 4).length ++ [0, 0])) := by
  simp [startupBlock]

theorem total_startupTexts (programName : List UInt8) (argv : List (List UInt8)) :
    Block.total (startupTexts programName argv) =
      Block.total (programName :: argv.take 4) + (programName :: argv.take 4).length + 16 := by
  have hvariables : pathVariable.length + (pwdVariable.length + 0) = 16 := by decide +kernel
  have hmap : ∀ texts : List (List UInt8),
      ((texts.map (· ++ [0])).map List.length).sum =
        (texts.map List.length).sum + texts.length := by
    intro texts
    induction texts with
    | nil => rfl
    | cons text texts ih =>
      rw [List.map_cons, List.map_cons, List.sum_cons, ih, List.map_cons, List.sum_cons,
        List.length_append]
      simp only [List.length_cons, List.length_nil]
      omega
  unfold startupTexts Block.total
  rw [List.map_append, List.sum_append, hmap, List.map_reverse, List.sum_reverse,
    List.length_reverse]
  exact congrArg _ hvariables

/-- What a program finds at its stack pointer. -/
theorem StartupFits.readStartup (hfit : StartupFits bottom stackPointer programName argv)
    (htop : stackPointer + 8 < 2 ^ 64)
    (hbytes : HoldsBytes m bottom (stackPointer + 8)
      (Block.writeAll f (startupBlock stackPointer programName argv).blocks) m')
    (hname : 0 ∉ programName) (hargv : ∀ argument ∈ argv, 0 ∉ argument) {fuel : Nat}
    (hfuel : Block.total (startupTexts programName argv) < fuel) :
    m'.readStartup fuel (vectorEnd stackPointer programName argv - 8 * (7 + min 4 argv.length)) =
      some (1 + min 4 argv.length, programName :: argv.take 4, startupEnvironment) := by
  have hstrings := hfit.strings_found htop hbytes hname hargv
  have hsmall : ∀ address ∈ (startupBlock stackPointer programName argv).strings.map (·.1),
      address < 2 ^ 64 := by
    intro address haddress
    obtain ⟨b, hb, rfl⟩ := List.mem_map.mp haddress
    have hbounds := (hfit.blocks_apart htop).2 b (List.mem_append_left _ hb)
    omega
  have hwords : ∀ i word, _ → word < 2 ^ 64 → m'.loadWord
      (vectorEnd stackPointer programName argv - 8 * (7 + min 4 argv.length) + 8 * i) =
        some word := fun i word => hfit.vector_found htop hbytes
  rw [reverse_startupWords] at hwords
  have hlength : (programName :: argv.take 4).reverse.length =
      (programName :: argv.take 4).length := List.length_reverse
  have harguments := List.forall₂_take_append _ _ _ hstrings
  have henvironment := List.forall₂_drop_append _ _ _ hstrings
  rw [hlength] at harguments henvironment
  rw [← List.reverse_reverse (List.take _ _), List.forall₂_reverse_iff] at harguments
  have hcount : (programName :: argv.take 4).length = 1 + min 4 argv.length := by
    rw [List.length_cons, List.length_take, Nat.add_comm]
  rw [hcount] at hwords harguments henvironment
  apply readStartup_eq harguments henvironment
  · intro i word hword
    apply hwords i word hword
    have hmem := List.mem_of_getElem? hword
    simp only [List.mem_cons, List.mem_append, List.mem_reverse, List.not_mem_nil] at hmem
    rcases hmem with rfl | (hfirst | rfl | hno) | hsecond | rfl | rfl | hno
    · omega
    · exact hsmall word (List.mem_of_mem_take hfirst)
    · decide
    · exact hno.elim
    · exact hsmall word (List.mem_of_mem_drop hsecond)
    · decide
    · decide
    · exact hno.elim
  · rw [total_startupTexts] at hfuel
    omega
  · rw [total_startupTexts] at hfuel
    have henvironment : Block.total startupEnvironment + startupEnvironment.length = 16 := by
      decide +kernel
    omega

end Decode

/-! ## The program's arguments -/

section Program

variable {k : Kernel} {bottom stackPointer : Nat} {programName : List UInt8}
  {argv : List (List UInt8)}

/-- A startup stack for which there is room reads back as it went in.  What
has been written are the blocks, which keep apart from each other, and
everything else of the stack is as before. -/
theorem startup_stack_decodes (hstack : PrivateRange k.memory bottom (stackPointer + 8))
    (hfit : StartupFits bottom stackPointer programName argv)
    (htop : stackPointer + 8 < 2 ^ 64) (hname : 0 ∉ programName)
    (hargv : ∀ argument ∈ argv, 0 ∉ argument) :
    ∃ (result : Nat) (m' : Memory),
      initializeProcessStack stackPointer programName argv k =
        .ok result { k with memory := m' } ∧
      (∀ fuel, Block.total (startupTexts programName argv) < fuel →
        m'.readStartup fuel result =
          some (1 + min 4 argv.length, programName :: argv.take 4, startupEnvironment)) ∧
      (startupBlock stackPointer programName argv).blocks.Pairwise Block.Apart ∧
      (∀ b ∈ (startupBlock stackPointer programName argv).blocks,
        (result ≤ b.1 ∧ b.1 + b.2.length ≤ stackPointer + 8) ∧
        ∀ i < b.2.length, m'.loadByte (b.1 + i) = b.2[i]?) ∧
      ∀ v, bottom ≤ v → v < stackPointer + 8 →
        (∀ b ∈ (startupBlock stackPointer programName argv).blocks, ¬ b.Covers v) →
        m'.loadByte v = k.memory.loadByte v := by
  obtain ⟨m', hrun, hbytes⟩ := initializeProcessStack_run hstack hfit htop
  obtain ⟨hapart, hbounds⟩ := hfit.blocks_apart htop
  refine ⟨_, m', hrun, ?_, hapart, ?_, ?_⟩
  · intro fuel hfuel
    exact hfit.readStartup htop hbytes hname hargv hfuel
  · intro b hb
    exact ⟨hbounds b hb, fun i hi => hfit.loadByte htop hbytes hb hi⟩
  · intro v hlow hhigh hother
    rw [hbytes.bytes v hlow hhigh, Block.writeAll_other hother,
      hstack.holdsBytes.bytes v hlow hhigh]

end Program

/-- A program that the loader has put into a space, which is active. -/
theorem exists_loaded_stack : ∃ m : Memory,
    PrivateRange m (userStackTop 2 - userStackPages * pageSize) (userStackTop 2 - 8 + 8) := by
  have hrun : ((spacesAfter Always []).any fun s : SpaceState =>
      (loadNew (executable [codeHeader futureUserSpaceBase] []) 2 s.memory).isSome) = true := by
    decide +kernel
  obtain ⟨s, hs, hstate⟩ := (Option.any_eq_true _ _).mp hrun
  obtain ⟨base, hreached⟩ := spacesReached_after hs
  obtain ⟨⟨space, m, loaded, m'⟩, hnew⟩ := Option.isSome_iff_exists.mp hstate
  obtain ⟨hspace, hempty, hload⟩ := loadNew_eq_some hreached hnew
  exact ⟨m'.switchAddressSpace space, loadUserElfInto_stack hspace hempty hload⟩

/-- `ls -l` in thread slot 2. -/
theorem startup_stack_decodes_ls : ∃ (k : Kernel) (result : Nat) (m' : Memory),
    initializeProcessStack (userStackTop 2 - 8) [108, 115] [[45, 108]] k =
      .ok result { k with memory := m' } ∧
    m'.readStartup 64 result = some (2, [[108, 115], [45, 108]], startupEnvironment) := by
  obtain ⟨m, hstack⟩ := exists_loaded_stack
  have hfit : StartupFits (userStackTop 2 - userStackPages * pageSize) (userStackTop 2 - 8)
      [108, 115] [[45, 108]] := by
    unfold StartupFits
    decide +kernel
  obtain ⟨result, m', hrun, hread, -⟩ :=
    startup_stack_decodes (k := initial m) hstack hfit (by decide) (by decide) (by decide)
  exact ⟨initial m, result, m', hrun, hread 64 (by decide +kernel)⟩

/-! ## The alignment -/

section Alignment

variable {k k' : Kernel} {stackPointer result : Nat} {programName : List UInt8}
  {argv : List (List UInt8)}

theorem seq_result {α : Type} {x y : KernelCall Unit} {a b : α}
    (h : (do x; y; return a : KernelCall α) k = .ok b k') : b = a := by
  rw [show (do x; y; return a : KernelCall α) k =
    EStateM.bind x (fun _ => EStateM.bind y fun _ => pure a) k from rfl] at h
  unfold EStateM.bind at h
  split at h
  · dsimp only at h
    split at h
    · exact (EStateM.Result.ok.inj h).1.symm
    · cases h
  · cases h

theorem alignDown_mod (value : Nat) : alignDown value 16 % 16 = 0 := by
  unfold alignDown
  rw [show (16 : Nat) = 2 ^ 4 from rfl, Nat.and_mod_two_pow]
  exact Nat.and_zero _

/-- Besides a pointer for each argument the vector has seven words, so that
its start is aligned as the comment in the source wants it only if the
arguments are even in number. -/
theorem startup_stack_alignment
    (h : initializeProcessStack stackPointer programName argv k = .ok result k') :
    result % 16 = 8 ↔ argv.length = 0 ∨ argv.length = 2 ∨ 4 ≤ argv.length := by
  rw [seq_result h, length_startupWords]
  have haligned := alignDown_mod
    (((startupBlock stackPointer programName argv).strings.map (·.1)).getLastD 0)
  have hcursor : (startupBlock stackPointer programName argv).cursor = wrappingSub (alignDown
      (((startupBlock stackPointer programName argv).strings.map (·.1)).getLastD 0) 16) 8 := rfl
  rw [hcursor]
  unfold wrappingSub
  omega

end Alignment

/-- `init` has no arguments. -/
theorem startup_stack_alignment_init : ∃ (k k' : Kernel) (result : Nat),
    initializeProcessStack (userStackTop 2 - 8) [105, 110, 105, 116] [] k = .ok result k' ∧
      result % 16 = 8 := by
  obtain ⟨m, hstack⟩ := exists_loaded_stack
  have hfit : StartupFits (userStackTop 2 - userStackPages * pageSize) (userStackTop 2 - 8)
      [105, 110, 105, 116] [] := by
    unfold StartupFits
    decide +kernel
  obtain ⟨m', hrun, -⟩ := initializeProcessStack_run (k := initial m) hstack hfit (by decide)
  exact ⟨initial m, _, _, hrun, (startup_stack_alignment hrun).mpr (.inl rfl)⟩

/-- A program with one argument starts with its stack pointer a multiple of
16. -/
theorem one_argument_misaligned :
    ¬ ∀ (k k' : Kernel) (stackPointer result : Nat) (programName : List UInt8)
        (argv : List (List UInt8)), (stackPointer + 8) % 16 = 0 →
      initializeProcessStack stackPointer programName argv k = .ok result k' →
      result % 16 = 8 := by
  intro hclaim
  obtain ⟨m, hstack⟩ := exists_loaded_stack
  have hfit : StartupFits (userStackTop 2 - userStackPages * pageSize) (userStackTop 2 - 8)
      [108, 115] [[45, 108]] := by
    unfold StartupFits
    decide +kernel
  obtain ⟨m', hrun, -⟩ := initializeProcessStack_run (k := initial m) hstack hfit (by decide)
  have haligned := hclaim _ _ _ _ _ _ (by decide) hrun
  exact absurd haligned (by decide +kernel)

end Kernel

end OpenKernel
