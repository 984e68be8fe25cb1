import OpenKernel.Files.Storage
import OpenKernel.Kernel.Step

/-!
# Arguments of a spawn

`spawn_process` of init and of the user programs lays arguments out in
buffers on its stack, with an array of pointers to them;
`syscall_process_spawn` reads them back from the memory of the caller.  The
two wrappers differ in the number of slots: four in init, one in the
programs.

The reader stops at a null pointer or after four.  A full array of fewer slots
ends with neither, so what it reads next is whatever lies behind the array
(`spawn_arguments_survive`).
-/

namespace OpenKernel

/-- The memory of the caller, by virtual address. -/
abbrev UserMemory := Nat → UInt8

def maxArguments : Nat := 4
def argumentWindow : Nat := 64
def bufferSize : Nat := 32

/-! ## The kernel side -/

/-- The bytes of a range. -/
def UserMemory.window (m : UserMemory) (pointer length : Nat) : Bytes :=
  (List.range length).map fun index => m (pointer + index)

/-- The bytes that `user_bytes` returns. -/
def UserMemory.slice (m : UserMemory) (pointer length maximum : Nat) :
    Option Bytes :=
  if Kernel.userBytes pointer length maximum then
    some (m.window pointer length)
  else none

/-- `u64::from_le_bytes`. -/
def littleEndianWord (bytes : Bytes) : Nat :=
  Lib.numberOf bytes

/-- One argument: the bytes up to the first zero of the window. -/
def UserMemory.argument (m : UserMemory) (pointer : Nat) : Option Bytes := do
  let value ← m.slice pointer argumentWindow argumentWindow
  let length ← value.findIdx? (· == 0)
  some (value.take length)

/-- The loop of `syscall_process_spawn` over the pointers, from `index` on. -/
def UserMemory.argumentsFrom (m : UserMemory) (argv : Nat) :
    Nat → Nat → Option (List Bytes)
  | _, 0 => some []
  | index, remaining + 1 =>
    match m.slice (argv + index * 8) 8 8 with
    | none => none
    | some word =>
      if littleEndianWord word = 0 then some []
      else
        match m.argument (littleEndianWord word) with
        | none => none
        | some argument =>
          (m.argumentsFrom argv (index + 1) remaining).map (argument :: ·)

/-- The arguments that `syscall_process_spawn` reads. -/
def UserMemory.arguments (m : UserMemory) (argv : Nat) : Option (List Bytes) :=
  if argv = 0 then some [] else m.argumentsFrom argv 0 maxArguments

/-- `syscall_process_spawn`, up to the path and the arguments that it calls
`spawn` with. -/
def UserMemory.processSpawn (m : UserMemory) (path length argv : Nat) :
    Option (Bytes × List Bytes) := do
  let bytes ← m.slice path length 64
  let arguments ← m.arguments argv
  some (bytes, arguments)

/-! ## The wrappers -/

/-- Where the compiler has put the buffers and the pointers of a wrapper with
that many slots: on the stack, which ends a page below the end of user
space. -/
structure SpawnFrame (slots : Nat) where
  buffers : Nat
  pointers : Nat
  buffers_ge : futureUserSpaceBase ≤ buffers
  buffers_le : buffers + bufferSize * slots ≤ userSpaceEnd - pageSize
  pointers_ge : futureUserSpaceBase ≤ pointers
  pointers_le : pointers + 8 * slots ≤ userSpaceEnd - pageSize
  disjoint : buffers + bufferSize * slots ≤ pointers ∨
    pointers + 8 * slots ≤ buffers

namespace SpawnFrame

variable {slots : Nat}

/-- A buffer: zeros, with at most 31 bytes of the argument copied to its
start. -/
def buffer (argument : Option Bytes) : Bytes :=
  let bytes := (argument.getD []).take (bufferSize - 1)
  bytes ++ List.replicate (bufferSize - bytes.length) 0

/-- A pointer: to its buffer, or null where there is no argument. -/
def pointer (frame : SpawnFrame slots) (argv : List Bytes) (index : Nat) :
    Nat :=
  if index < argv.length then frame.buffers + bufferSize * index else 0

/-- The memory once the wrapper has filled its arrays. -/
def fill (frame : SpawnFrame slots) (argv : List Bytes) (m : UserMemory) :
    UserMemory := fun address =>
  if frame.pointers ≤ address ∧ address < frame.pointers + 8 * slots then
    (littleEndianBytes
      (frame.pointer argv ((address - frame.pointers) / 8)))[
        (address - frame.pointers) % 8]?.getD 0
  else if frame.buffers ≤ address ∧
      address < frame.buffers + bufferSize * slots then
    (buffer argv[(address - frame.buffers) / bufferSize]?)[
      (address - frame.buffers) % bufferSize]?.getD 0
  else m address

/-- The pointer that goes to the kernel. -/
def argv (frame : SpawnFrame slots) (arguments : List Bytes) : Nat :=
  if arguments = [] then 0 else frame.pointers

end SpawnFrame

/-- What a `spawn_process` with that many slots makes the kernel read. -/
def spawnProcess (slots : Nat) (frame : SpawnFrame slots)
    (argv : List Bytes) (m : UserMemory) (path length : Nat) :
    Option (Bytes × List Bytes) :=
  (frame.fill argv m).processSpawn path length (frame.argv argv)

/-- `spawn_process` of init. -/
def initSpawnProcess (frame : SpawnFrame 4) (argv : List Bytes)
    (m : UserMemory) (path length : Nat) : Option (Bytes × List Bytes) :=
  spawnProcess 4 frame argv m path length

/-- `spawn_process` of the user programs. -/
def programSpawnProcess (frame : SpawnFrame 1) (argument : Option Bytes)
    (m : UserMemory) (path length : Nat) : Option (Bytes × List Bytes) :=
  spawnProcess 1 frame argument.toList m path length

/-- The arguments that a wrapper with that many slots passes on whole. -/
structure Accepted (slots : Nat) (argv : List Bytes) : Prop where
  count : argv.length ≤ slots
  fits : ∀ argument ∈ argv, argument.length < bufferSize
  noZero : ∀ argument ∈ argv, (0 : UInt8) ∉ argument

/-! ## Words and windows -/

theorem littleEndianWord_littleEndianBytes (value : Nat)
    (hvalue : value < 2 ^ 64) :
    littleEndianWord (littleEndianBytes value) = value := by
  rw [littleEndianWord, littleEndianBytes, Lib.numberOf_bytesOf]
  exact Nat.mod_eq_of_lt hvalue

@[simp] theorem length_littleEndianBytes (value : Nat) :
    (littleEndianBytes value).length = 8 :=
  Lib.length_bytesOf 8 value

namespace UserMemory

variable (m : UserMemory)

@[simp] theorem length_window (pointer length : Nat) :
    (m.window pointer length).length = length := by
  simp [window]

/-- A window splits at every index. -/
theorem window_add (pointer first second : Nat) :
    m.window pointer (first + second) =
      m.window pointer first ++ m.window (pointer + first) second := by
  simp [window, List.range_add, Nat.add_assoc, Function.comp_def]

/-- A window is known byte by byte. -/
theorem window_eq (pointer : Nat) (bytes : Bytes)
    (h : ∀ index, index < bytes.length →
      m (pointer + index) = bytes[index]?.getD 0) :
    m.window pointer bytes.length = bytes := by
  apply List.ext_getElem
  · simp
  · intro index _ hindex
    simp [window, h index hindex, hindex]

/-- Within user space `user_bytes` accepts a range of a permitted length. -/
theorem slice_eq (pointer length maximum : Nat)
    (hbase : futureUserSpaceBase ≤ pointer)
    (hend : pointer + length ≤ userSpaceEnd) (hlength : length ≤ maximum) :
    m.slice pointer length maximum = some (m.window pointer length) := by
  have htop : userSpaceEnd < 2 ^ 64 := by decide
  have haccepted : Kernel.userBytes pointer length maximum = true := by
    simp only [Kernel.userBytes, Bool.and_eq_true, decide_eq_true_eq]
    omega
  rw [slice, if_pos haccepted]

/-- The reader of one argument takes the bytes before the first zero. -/
theorem argument_eq (pointer : Nat) (bytes rest : Bytes)
    (hbase : futureUserSpaceBase ≤ pointer)
    (hend : pointer + argumentWindow ≤ userSpaceEnd)
    (hzero : (0 : UInt8) ∉ bytes)
    (h : m.window pointer argumentWindow = bytes ++ 0 :: rest) :
    m.argument pointer = some bytes := by
  have hfind : (bytes ++ 0 :: rest).findIdx? (· == 0) = some bytes.length := by
    rw [List.findIdx?_eq_some_iff_getElem]
    refine ⟨by simp, by simp, ?_⟩
    intro index hindex
    rw [List.getElem_append_left hindex]
    have hmem : bytes[index] ∈ bytes := List.getElem_mem hindex
    intro hcontra
    rw [beq_iff_eq] at hcontra
    exact hzero (hcontra ▸ hmem)
  rw [argument, m.slice_eq pointer argumentWindow argumentWindow hbase hend
    (Nat.le_refl _), h]
  simp [hfind]

end UserMemory

/-! ## What the wrapper has laid out -/

namespace SpawnFrame

variable {slots : Nat} (frame : SpawnFrame slots) (argv : List Bytes)
  (m : UserMemory)

@[simp] theorem length_buffer (argument : Option Bytes) :
    (buffer argument).length = bufferSize := by
  simp only [buffer, List.length_append, List.length_take,
    List.length_replicate, bufferSize]
  omega

/-- The buffer of a short argument holds it whole, with a zero behind it. -/
theorem buffer_eq (argument : Bytes) (h : argument.length < bufferSize) :
    ∃ rest, buffer (some argument) = argument ++ 0 :: rest := by
  have htake : argument.take (bufferSize - 1) = argument := by
    apply List.take_of_length_le
    omega
  have hpositive : bufferSize - argument.length =
      bufferSize - argument.length - 1 + 1 := by
    omega
  refine ⟨List.replicate (bufferSize - argument.length - 1) 0, ?_⟩
  simp only [buffer, Option.getD_some, htake]
  rw [hpositive, List.replicate_succ]
  simp

/-- A slot of the array holds its pointer. -/
theorem window_pointer (index : Nat) (hindex : index < slots) :
    (frame.fill argv m).window (frame.pointers + index * 8) 8 =
      littleEndianBytes (frame.pointer argv index) := by
  have hbytes := UserMemory.window_eq (frame.fill argv m)
    (frame.pointers + index * 8) (littleEndianBytes (frame.pointer argv index))
  rw [length_littleEndianBytes] at hbytes
  apply hbytes
  intro offset hoffset
  have hquotient : (frame.pointers + index * 8 + offset - frame.pointers) / 8 =
      index := by
    omega
  have hremainder : (frame.pointers + index * 8 + offset - frame.pointers) % 8 =
      offset := by
    omega
  rw [fill, if_pos (by omega), hquotient, hremainder]

/-- A buffer holds its argument. -/
theorem window_buffer (index : Nat) (hindex : index < slots) :
    (frame.fill argv m).window (frame.buffers + bufferSize * index)
      bufferSize = buffer argv[index]? := by
  have hbytes := UserMemory.window_eq (frame.fill argv m)
    (frame.buffers + bufferSize * index) (buffer argv[index]?)
  rw [length_buffer] at hbytes
  apply hbytes
  intro offset hoffset
  have hdisjoint := frame.disjoint
  simp only [bufferSize] at hoffset hdisjoint ⊢
  have hquotient :
      (frame.buffers + 32 * index + offset - frame.buffers) / 32 = index := by
    omega
  have hremainder :
      (frame.buffers + 32 * index + offset - frame.buffers) % 32 = offset := by
    omega
  rw [fill, if_neg (by omega), bufferSize, if_pos (by omega), hquotient,
    hremainder]

/-- The kernel reads the pointer of a slot. -/
theorem slice_pointer (index : Nat) (hindex : index < slots) :
    (frame.fill argv m).slice (frame.pointers + index * 8) 8 8 =
      some (littleEndianBytes (frame.pointer argv index)) := by
  have hge := frame.pointers_ge
  have hle := frame.pointers_le
  rw [UserMemory.slice_eq _ _ _ _ (by omega) (by omega) (Nat.le_refl _),
    frame.window_pointer argv m index hindex]

/-- The pointer of a slot as the kernel decodes it. -/
theorem decoded_pointer (index : Nat) (hindex : index < slots) :
    littleEndianWord (littleEndianBytes (frame.pointer argv index)) =
      frame.pointer argv index := by
  have hle := frame.buffers_le
  have htop : userSpaceEnd - pageSize < 2 ^ 64 := by decide
  apply littleEndianWord_littleEndianBytes
  simp only [pointer, bufferSize] at hle ⊢
  split <;> omega

/-- The kernel reads an argument from its buffer. -/
theorem argument_buffer (h : Accepted slots argv) (index : Nat)
    (hindex : index < argv.length) :
    (frame.fill argv m).argument (frame.buffers + bufferSize * index) =
      some argv[index] := by
  have hmem : argv[index] ∈ argv := List.getElem_mem hindex
  have hslot : index < slots := Nat.lt_of_lt_of_le hindex h.count
  obtain ⟨rest, hrest⟩ := buffer_eq argv[index] (h.fits _ hmem)
  have hge := frame.buffers_ge
  have hle := frame.buffers_le
  have hpage : bufferSize ≤ pageSize := by decide
  have hend : pageSize ≤ userSpaceEnd := by decide
  apply UserMemory.argument_eq _ _ _ (rest ++ (frame.fill argv m).window
    (frame.buffers + bufferSize * index + bufferSize) bufferSize)
  · omega
  · simp only [argumentWindow, bufferSize] at hle hpage ⊢
    omega
  · exact h.noZero _ hmem
  · have hsplit : argumentWindow = bufferSize + bufferSize := rfl
    rw [hsplit, UserMemory.window_add, frame.window_buffer argv m index hslot,
      List.getElem?_eq_getElem hindex, hrest, List.append_assoc,
      List.cons_append]

/-- The reader passes through the filled slots and goes on behind them. -/
theorem argumentsFrom_filled (h : Accepted slots argv)
    (hslots : slots ≤ maxArguments) (count : Nat) :
    ∀ index, index + count = argv.length →
      (frame.fill argv m).argumentsFrom frame.pointers index
          (maxArguments - index) =
        ((frame.fill argv m).argumentsFrom frame.pointers argv.length
          (maxArguments - argv.length)).map (argv.drop index ++ ·) := by
  have hcountSlots := h.count
  induction count with
  | zero =>
      intro index hindex
      have heq : index = argv.length := by omega
      subst heq
      simp
  | succ count ih =>
      intro index hindex
      have hlt : index < argv.length := by omega
      have hslot : index < slots := by omega
      have hremaining : maxArguments - index =
          maxArguments - (index + 1) + 1 := by
        omega
      have hpointer : frame.pointer argv index =
          frame.buffers + bufferSize * index := if_pos hlt
      have hnonzero : frame.buffers + bufferSize * index ≠ 0 := by
        have hge := frame.buffers_ge
        have hbase : 0 < futureUserSpaceBase := by decide
        omega
      rw [hremaining, UserMemory.argumentsFrom,
        frame.slice_pointer argv m index hslot]
      dsimp only
      rw [frame.decoded_pointer argv index hslot, hpointer, if_neg hnonzero,
        frame.argument_buffer argv m h index hlt]
      dsimp only
      rw [ih (index + 1) (by omega), Option.map_map,
        List.drop_eq_getElem_cons hlt]
      rfl

/-- An empty slot ends the arguments. -/
theorem argumentsFrom_null (index remaining : Nat) (hindex : index < slots)
    (hnull : argv.length ≤ index) :
    (frame.fill argv m).argumentsFrom frame.pointers index (remaining + 1) =
      some [] := by
  have hpointer : frame.pointer argv index = 0 := if_neg (by omega)
  rw [UserMemory.argumentsFrom, frame.slice_pointer argv m index hindex]
  dsimp only
  rw [frame.decoded_pointer argv index hindex, if_pos hpointer]

end SpawnFrame

/-- Reading on ends at once exactly when the word there is null. -/
theorem UserMemory.argumentsFrom_eq_nil (m : UserMemory)
    (argv index remaining : Nat)
    (hbase : futureUserSpaceBase ≤ argv + index * 8)
    (hend : argv + index * 8 + 8 ≤ userSpaceEnd) :
    m.argumentsFrom argv index (remaining + 1) = some [] ↔
      littleEndianWord (m.window (argv + index * 8) 8) = 0 := by
  rw [UserMemory.argumentsFrom, m.slice_eq _ _ _ hbase hend (Nat.le_refl _)]
  dsimp only
  by_cases hnull : littleEndianWord (m.window (argv + index * 8) 8) = 0
  · simp [hnull]
  · rw [if_neg hnull]
    constructor
    · intro hread
      split at hread
      · cases hread
      · simp at hread
    · exact fun hcontra => absurd hcontra hnull

namespace SpawnFrame

variable {slots : Nat} (frame : SpawnFrame slots) (argv : List Bytes)
  (m : UserMemory)

/-- What ends the list in the memory: no array at all, an empty slot, the
limit of the reader, or a null word behind the array. -/
def Terminated : Prop :=
  argv ≠ [] → argv.length = slots → slots < maxArguments →
    littleEndianWord
      ((frame.fill argv m).window (frame.pointers + slots * 8) 8) = 0

/-- The reader gets the arguments of the wrapper exactly when they are
terminated. -/
theorem arguments_eq (h : Accepted slots argv)
    (hslots : slots ≤ maxArguments) :
    (frame.fill argv m).arguments (frame.argv argv) = some argv ↔
      frame.Terminated argv m := by
  have hcount := h.count
  have hge := frame.pointers_ge
  have hle := frame.pointers_le
  have hbase : 0 < futureUserSpaceBase := by decide
  by_cases hempty : argv = []
  · simp [hempty, SpawnFrame.argv, UserMemory.arguments, Terminated]
  have hpointers : frame.pointers ≠ 0 := by omega
  have hread : (frame.fill argv m).arguments (frame.argv argv) =
      ((frame.fill argv m).argumentsFrom frame.pointers argv.length
        (maxArguments - argv.length)).map (argv ++ ·) := by
    rw [SpawnFrame.argv, if_neg hempty, UserMemory.arguments,
      if_neg hpointers]
    exact frame.argumentsFrom_filled argv m h hslots argv.length 0 (by omega)
  have hsame : (frame.fill argv m).arguments (frame.argv argv) = some argv ↔
      (frame.fill argv m).argumentsFrom frame.pointers argv.length
        (maxArguments - argv.length) = some [] := by
    rw [hread, Option.map_eq_some_iff]
    constructor
    · intro ⟨rest, hrest, happend⟩
      have hnil : rest = [] := by simpa using happend
      rw [hrest, hnil]
    · intro hnil
      exact ⟨[], hnil, List.append_nil argv⟩
  rw [hsame, Terminated]
  by_cases hfull : argv.length = slots
  · by_cases hlimit : slots < maxArguments
    · have hremaining : maxArguments - slots =
          maxArguments - slots - 1 + 1 := by
        omega
      have hpage : 8 ≤ pageSize := by decide
      have hend : pageSize ≤ userSpaceEnd := by decide
      rw [hfull, hremaining,
        UserMemory.argumentsFrom_eq_nil _ _ _ _ (by omega) (by omega)]
      simp [hempty, hlimit]
    · have hnone : maxArguments - argv.length = 0 := by omega
      rw [hnone]
      simp [UserMemory.argumentsFrom, hlimit]
  · have hremaining : maxArguments - argv.length =
        maxArguments - argv.length - 1 + 1 := by
      omega
    rw [hremaining, frame.argumentsFrom_null argv m argv.length _ (by omega)
      (Nat.le_refl _)]
    simp [hfull]

end SpawnFrame

/-! ## The wrappers pass their arguments on -/

/-- A request whose path is accepted reaches `spawn` with the arguments of the
wrapper exactly when these are terminated. -/
theorem spawnProcess_eq {slots : Nat} (frame : SpawnFrame slots)
    (argv : List Bytes) (m : UserMemory) (path length : Nat) (bytes : Bytes)
    (h : Accepted slots argv) (hslots : slots ≤ maxArguments)
    (hpath : (frame.fill argv m).slice path length 64 = some bytes) :
    spawnProcess slots frame argv m path length = some (bytes, argv) ↔
      frame.Terminated argv m := by
  rw [← frame.arguments_eq argv m h hslots, spawnProcess,
    UserMemory.processSpawn, hpath]
  cases (frame.fill argv m).arguments (frame.argv argv) <;> simp

/-- The arguments of init reach the kernel whatever its memory holds.  Those of
a program do exactly when it passes none or the eight bytes behind its array of
one pointer are zero. -/
theorem spawn_arguments_survive (m : UserMemory) (path length : Nat)
    (bytes : Bytes) :
    (∀ (frame : SpawnFrame 4) (argv : List Bytes), Accepted 4 argv →
      (frame.fill argv m).slice path length 64 = some bytes →
      initSpawnProcess frame argv m path length = some (bytes, argv)) ∧
    (∀ (frame : SpawnFrame 1) (argument : Option Bytes),
      Accepted 1 argument.toList →
      (frame.fill argument.toList m).slice path length 64 = some bytes →
      (programSpawnProcess frame argument m path length =
          some (bytes, argument.toList) ↔
        (argument ≠ none →
          littleEndianWord ((frame.fill argument.toList m).window
            (frame.pointers + 8) 8) = 0))) := by
  constructor
  · intro frame argv h hpath
    rw [initSpawnProcess,
      spawnProcess_eq frame argv m path length bytes h (Nat.le_refl _) hpath]
    intro _ _ hlimit
    exact absurd hlimit (Nat.lt_irrefl 4)
  · intro frame argument h hpath
    rw [programSpawnProcess, spawnProcess_eq frame argument.toList m path length
      bytes h (by decide) hpath, SpawnFrame.Terminated]
    cases argument with
    | none => simp
    | some argument => simp [maxArguments]

/-- A frame with the array of one pointer behind its buffer. -/
def exampleFrame : SpawnFrame 1 where
  buffers := 0x5000_0000
  pointers := 0x5000_0020
  buffers_ge := by decide
  buffers_le := by decide
  pointers_ge := by decide
  pointers_le := by decide
  disjoint := by decide

/-- Over zeroed memory the argument of a program reaches the kernel. -/
theorem spawn_arguments_survive_zeroed :
    programSpawnProcess exampleFrame (some [104, 105]) (fun _ => 0)
      0x4000_0000 2 = some ([0, 0], [[104, 105]]) := by
  apply ((spawn_arguments_survive (fun _ => 0) 0x4000_0000 2 [0, 0]).2
    exampleFrame (some [104, 105]) ⟨by decide, by decide, by decide⟩
    (by decide +kernel)).mpr
  intro _
  decide +kernel

/-- With anything else behind the pointer, the same request is refused. -/
theorem spawn_argument_lost :
    ¬ ∀ (frame : SpawnFrame 1) (argument : Option Bytes) (m : UserMemory)
      (path length : Nat) (bytes : Bytes),
      Accepted 1 argument.toList →
      (frame.fill argument.toList m).slice path length 64 = some bytes →
      programSpawnProcess frame argument m path length =
        some (bytes, argument.toList) := by
  intro h
  have hread := h exampleFrame (some [104, 105]) (fun _ => 1) 0x4000_0000 2
    [1, 1] ⟨by decide, by decide, by decide⟩ (by decide +kernel)
  revert hread
  decide +kernel

end OpenKernel
