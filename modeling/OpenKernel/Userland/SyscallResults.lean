import OpenKernel.Console.Terminals
import OpenKernel.Files.Descriptors
import OpenKernel.Kernel.Boot
import OpenKernel.Kernel.Results
import OpenKernel.Userland.SpawnArguments

/-!
# Results of the syscalls

The kernel hands back one word.  What it means differs from call to call: zero
or one for success, or a value, with all ones for a failure.  The wrappers of
`user-program/src/syscall.rs` decode it again.

`outcome` is what an operation of the kernel does, `syscallDispatch` the word
that the dispatcher makes of it, `decode` what the wrapper makes of the word.
The wrapper reports the outcome exactly when the request is `Decodable`
(`syscall_results_decoded`).
-/

namespace OpenKernel

open Lib

/-- `EXECUTABLE_PATH`. -/
def executablePath : Bytes := "/init".toUTF8.toList

/-- The kernel with its terminals and its files, and the memory of the
caller. -/
structure System extends Terminals where
  files : FileKernel
  user : UserMemory

/-- A call of a wrapper, with the arguments of its syscall.  A wait or a join
that has blocked goes on as the second of its two constructors. -/
inductive Request
  | vfsOpen (path length flags : Nat)
  | vfsRead (fd buffer length : Nat)
  | vfsWrite (fd bytes length : Nat)
  | vfsSeek (fd offset whence : Nat)
  | vfsClose (fd : Nat)
  | setCwd (path length : Nat)
  | getCwd (buffer length : Nat)
  | executablePath (buffer length : Nat)
  | spawnProcess (path length argv : Nat)
  | waitProcess (process : ProcessId)
  | waitProcessJoined (process : ProcessId) (thread : ThreadId)
  | joinThread (thread : ThreadId)
  | joinThreadBlocked (thread : ThreadId)
  | terminateProcess (process : ProcessId)
  | openPty
  | readPtyMaster (id buffer length : Nat)
  | writePtyMaster (id bytes length : Nat)
  | attachPty (id : Nat)
  | closePty (id : Nat)

/-- What an operation has done, and what a wrapper says that it has done. -/
inductive Outcome
  | failed
  | done
  | value (value : Nat)
  deriving DecidableEq, Repr

def Outcome.ofValue (value : Option Nat) : Outcome := value.elim failed .value

def Outcome.ofSuccess (success : Bool) : Outcome :=
  if success then done else failed

/-! ## The operations -/

namespace Kernel

/-- `executable_info`: the word that it returns and the path that it
writes. -/
def executableInfo (k : Kernel) (capacity : Nat) : Option (Nat × Bytes) :=
  if capacity < executablePath.length + 1 then none
  else
    some ((k.userStates k.currentStateSlot).executableEntry, executablePath)

end Kernel

namespace System

variable (s : System)

/-- `user::spawn`, with the path still to be resolved. -/
def spawn (path : Bytes) (argv : List Bytes) : KernelCall ProcessId :=
  match resolvePath (s.files.state s.ownerProcess).cwd path with
  | none => throw .failed
  | some path => Kernel.spawnProgram path (s.files.files.vfsOpen path) argv

/-- What the operation behind a request does.  There is nothing yet when it
blocks, and nothing at all when the machine halts in it. -/
def outcome : Request → Option Outcome
  | .vfsOpen path length flags =>
    some (.ofValue ((s.user.slice path length 64).bind fun path =>
      (s.files.openFd s.ownerProcess path flags).1))
  | .vfsRead fd buffer length =>
    if Kernel.userBytes buffer length 4096 then
      some (.ofValue
        ((s.files.read s.ownerProcess fd length).1.map List.length))
    else some .failed
  | .vfsWrite fd bytes length =>
    some (.ofValue ((s.user.slice bytes length 4096).bind fun input =>
      (s.files.write s.ownerProcess fd input).1))
  | .vfsSeek fd offset whence =>
    some (.ofSuccess
      (s.files.seek s.ownerProcess fd (toI64 offset) whence).1.isSome)
  | .vfsClose fd => some (.ofSuccess (s.files.close s.ownerProcess fd).1)
  | .setCwd path length =>
    some (.ofSuccess ((s.user.slice path length 64).any fun path =>
      (s.files.chdir s.ownerProcess path).1))
  | .getCwd buffer length =>
    if Kernel.userBytes buffer length 64 then
      some (.ofValue
        ((s.files.getcwd s.ownerProcess length).map List.length))
    else some .failed
  | .executablePath buffer length =>
    if Kernel.userBytes buffer length 64 then
      some (.ofValue
        ((s.kernel.executableInfo length).map fun result => result.2.length))
    else some .failed
  | .spawnProcess path length argv =>
    match s.user.processSpawn path length argv with
    | none => some .failed
    | some (path, argv) =>
      match s.spawn path argv s.kernel with
      | .ok process _ => some (.value process)
      | .error .failed _ => some .failed
      | .error .halted _ => none
  | .waitProcess process => (s.kernel.waitResult process).map .ofValue
  | .waitProcessJoined _ thread =>
    some (.ofValue (s.kernel.joinedResult thread))
  | .joinThread thread => (s.kernel.joinResult thread).map .ofValue
  | .joinThreadBlocked thread =>
    some (.ofValue (s.kernel.joinedResult thread))
  | .terminateProcess process =>
    some (.ofSuccess (s.kernel.terminateProcess process).1)
  | .openPty => some (.ofValue s.openPty.1)
  | .readPtyMaster id buffer length =>
    some (.ofValue ((s.readMaster id buffer length).1.map List.length))
  | .writePtyMaster id bytes length =>
    some (.ofValue ((s.user.slice bytes length 256).bind fun input =>
      (s.writeMaster id bytes input).1))
  | .attachPty id => some (.ofSuccess (s.attachSlave id).1)
  | .closePty id => some (.ofSuccess (s.closePty id).1)

/-! ## The dispatcher -/

/-- `syscall_dispatch`, for the numbers that the wrappers use. -/
def syscallDispatch : Request → Option Nat
  | .vfsOpen path length flags =>
    match s.user.slice path length 64 with
    | none => some Kernel.failure
    | some path =>
      some ((s.files.openFd s.ownerProcess path flags).1.getD Kernel.failure)
  | .vfsRead fd buffer length =>
    if Kernel.userBytes buffer length 4096 then
      some (((s.files.read s.ownerProcess fd length).1.map List.length).getD
        Kernel.failure)
    else some Kernel.failure
  | .vfsWrite fd bytes length =>
    match s.user.slice bytes length 4096 with
    | none => some Kernel.failure
    | some input =>
      some ((s.files.write s.ownerProcess fd input).1.getD Kernel.failure)
  | .vfsSeek fd offset whence =>
    some ((s.files.seek s.ownerProcess fd (toI64 offset) whence).1.getD
      Kernel.failure)
  | .vfsClose fd =>
    some (if (s.files.close s.ownerProcess fd).1 then 0 else Kernel.failure)
  | .setCwd path length =>
    match s.user.slice path length 64 with
    | none => some Kernel.failure
    | some path =>
      some (if (s.files.chdir s.ownerProcess path).1 then 0
        else Kernel.failure)
  | .getCwd buffer length =>
    if Kernel.userBytes buffer length 64 then
      some (((s.files.getcwd s.ownerProcess length).map List.length).getD
        Kernel.failure)
    else some Kernel.failure
  | .executablePath buffer length =>
    if Kernel.userBytes buffer length 64 then
      some (((s.kernel.executableInfo length).map Prod.fst).getD
        Kernel.failure)
    else some Kernel.failure
  | .spawnProcess path length argv =>
    match s.user.processSpawn path length argv with
    | none => some Kernel.failure
    | some (path, argv) =>
      (s.kernel.call (s.spawn path argv)).bind Kernel.returnedWord
  | .waitProcess process => (s.kernel.waitProcess process).returnedWord
  | .waitProcessJoined process thread =>
    (s.kernel.goOn (.waiting process thread)).bind Kernel.returnedWord
  | .joinThread thread =>
    (s.kernel.join thread (.joining thread)
      Kernel.finishJoinCall).returnedWord
  | .joinThreadBlocked thread =>
    (s.kernel.goOn (.joining thread)).bind Kernel.returnedWord
  | .terminateProcess process =>
    some (if (s.kernel.terminateProcess process).1 then 1 else 0)
  | .openPty => some (s.openPty.1.getD Kernel.failure)
  | .readPtyMaster id buffer length =>
    some (((s.readMaster id buffer length).1.map List.length).getD
      Kernel.failure)
  | .writePtyMaster id bytes length =>
    match s.user.slice bytes length 256 with
    | none => some Kernel.failure
    | some input =>
      some ((s.writeMaster id bytes input).1.getD Kernel.failure)
  | .attachPty id =>
    some (if (s.attachSlave id).1 then 0 else Kernel.failure)
  | .closePty id => some (if (s.closePty id).1 then 1 else 0)

end System

/-! ## The wrappers -/

/-- `(word != u64::MAX).then_some(word)`. -/
def decodeValue (word : Nat) : Outcome :=
  if word ≠ Kernel.failure then .value word else .failed

/-- What the wrapper makes of the word. -/
def Request.decode : Request → Nat → Outcome
  | vfsOpen _ _ _, word | vfsRead _ _ _, word | vfsWrite _ _ _, word
  | getCwd _ _, word | executablePath _ _, word | spawnProcess _ _ _, word
  | waitProcess _, word | waitProcessJoined _ _, word | joinThread _, word
  | joinThreadBlocked _, word | openPty, word | readPtyMaster _ _ _, word
  | writePtyMaster _ _ _, word => decodeValue word
  | vfsSeek _ _ _, word | vfsClose _, word | setCwd _ _, word
  | attachPty _, word | closePty _, word => .ofSuccess (word == 0)
  | terminateProcess _, word => .ofSuccess (word != 0)

/-! ## When a result can be decoded -/

/-- The position that a seek asks for lies behind the start of the file. -/
def FileKernel.SeeksForward (k : FileKernel) (caller : Option ProcessId)
    (fd : Nat) (offset : Int) (whence : Nat) : Prop :=
  ∃ index base, fdIndex fd = some index ∧
    ((k.state caller).descriptors index).kind ≠ .empty ∧
    k.seekBase ((k.state caller).descriptors index) whence = some base ∧
    0 < base + offset ∧ base + offset < 2 ^ 63

/-- The wrapper tells this result from a failure. -/
def Request.Decodable (s : System) : Request → Prop
  | vfsSeek fd offset whence =>
    ¬ s.files.SeeksForward s.ownerProcess fd (toI64 offset) whence
  | executablePath buffer length =>
    Kernel.userBytes buffer length 64 = true →
      OpenKernel.executablePath.length < length →
        (s.kernel.userStates s.kernel.currentStateSlot).executableEntry =
          OpenKernel.executablePath.length
  | waitProcess process =>
    ∀ thread, s.kernel.currentProcess.bind (s.kernel.childMainThread process) =
        some thread → s.kernel.Collects thread →
      (s.kernel.threads thread).exitStatus ≠ Kernel.failure
  | joinThread thread =>
    s.kernel.Collects thread →
      (s.kernel.threads thread).exitStatus ≠ Kernel.failure
  | waitProcessJoined _ thread | joinThreadBlocked thread =>
    (s.kernel.threads thread).state = .exited →
      (s.kernel.threads thread).exitStatus ≠ Kernel.failure
  | closePty _ => False
  | _ => True

/-! ## Encoding and decoding -/

theorem decodeValue_getD (value : Option Nat) :
    decodeValue (value.getD Kernel.failure) = .ofValue value ↔
      value ≠ some Kernel.failure := by
  cases value with
  | none => simp [decodeValue, Outcome.ofValue]
  | some value =>
    by_cases hvalue : value = Kernel.failure
    · simp [decodeValue, Outcome.ofValue, hvalue]
    · simp [decodeValue, Outcome.ofValue, hvalue]

/-- A value below the word for a failure is decoded as it is. -/
theorem decodeValue_of_lt {value : Option Nat}
    (h : ∀ word, value = some word → word < Kernel.failure) :
    decodeValue (value.getD Kernel.failure) = .ofValue value := by
  rw [decodeValue_getD]
  intro hfailure
  exact Nat.lt_irrefl _ (h _ hfailure)

theorem ofSuccess_zero (success : Bool) :
    Outcome.ofSuccess ((if success then 0 else Kernel.failure) == 0) =
      .ofSuccess success := by
  cases success <;> rfl

theorem ofSuccess_one (success : Bool) :
    Outcome.ofSuccess ((if success then 1 else 0) != 0) =
      .ofSuccess success := by
  cases success <;> rfl

/-! ## What the values are -/

theorem UserMemory.length_slice {m : UserMemory}
    {pointer length maximum : Nat} {bytes : Bytes}
    (h : m.slice pointer length maximum = some bytes) :
    bytes.length ≤ maximum := by
  unfold UserMemory.slice at h
  split at h
  · rename_i haccepted
    obtain rfl := Option.some.inj h
    simp only [Kernel.userBytes, Bool.and_eq_true, decide_eq_true_eq]
      at haccepted
    rw [length_window]
    exact haccepted.2
  · cases h

theorem Kernel.length_le_of_userBytes {pointer length maximum : Nat}
    (h : Kernel.userBytes pointer length maximum = true) :
    length ≤ maximum := by
  simp only [Kernel.userBytes, Bool.and_eq_true, decide_eq_true_eq] at h
  exact h.2

theorem Files.length_directoryEntry {f : Files} {path name : Bytes}
    {index capacity : Nat}
    (h : f.directoryEntry path index capacity = some name) :
    name.length ≤ capacity := by
  have hfits : ∀ {found : Bytes},
      (if capacity < found.length then none else some found) = some name →
        name.length ≤ capacity := by
    intro found h
    split at h
    · cases h
    · obtain rfl := Option.some.inj h
      omega
  unfold directoryEntry at h
  split at h
  · dsimp only at h
    split at h
    · exact hfits h
    · obtain ⟨found, -, h⟩ := Option.bind_eq_some_iff.mp h
      exact hfits h
  · split at h
    · obtain ⟨slot, -, h⟩ := Option.bind_eq_some_iff.mp h
      exact hfits h
    · cases h

namespace FileKernel

variable {k : FileKernel} {caller : Option ProcessId}

theorem openFd_lt {path : Bytes} {flags fd : Nat}
    (h : (k.openFd caller path flags).1 = some fd) : fd < 3 + maxFds := by
  have htake : ∀ {k : FileKernel} {path : Bytes},
      (k.takeDescriptor caller path flags).1 = some fd → fd < 3 + maxFds := by
    intro k path h
    unfold takeDescriptor at h
    split at h
    · cases h
    · rename_i index hfree
      have hlt : index < maxFds :=
        List.mem_range.mp (List.mem_of_find?_eq_some hfree)
      split at h
      · obtain rfl := Option.some.inj h
        omega
      · cases h
  unfold openFd at h
  split at h
  · cases h
  · split at h
    · split at h
      · exact htake h
      · cases h
    · split at h
      · cases h
      · exact htake h

theorem length_read_le {fd capacity : Nat} {bytes : Bytes}
    (h : (k.read caller fd capacity).1 = some bytes) :
    bytes.length ≤ capacity := by
  unfold read at h
  split at h
  · cases h
  · dsimp only at h
    split at h
    · split at h
      · unfold readFile at h
        dsimp only at h
        split at h
        · cases h
        · obtain rfl := Option.some.inj h
          exact List.length_take_le _ _
      · unfold readDirectory at h
        dsimp only at h
        split at h
        · cases h
        · split at h
          · obtain rfl := Option.some.inj h
            exact Nat.zero_le _
          · rename_i hroom _ name hname
            obtain rfl := Option.some.inj h
            have hlength := Files.length_directoryEntry hname
            rw [List.length_append, List.length_singleton]
            omega
      · cases h
    · cases h

theorem write_eq {fd count : Nat} {input : Bytes}
    (h : (k.write caller fd input).1 = some count) : count = input.length := by
  unfold write at h
  split at h
  · cases h
  · dsimp only at h
    split at h
    · split at h
      · cases h
      · exact (Option.some.inj h).symm
    · cases h

theorem length_getcwd_lt {capacity : Nat} {cwd : Bytes}
    (h : k.getcwd caller capacity = some cwd) : cwd.length < capacity := by
  unfold getcwd at h
  split at h
  · cases h
  · obtain rfl := Option.some.inj h
    omega

/-- A seek fails, or it returns the position asked for. -/
theorem seek_eq_some {fd : Nat} {offset : Int} {whence position : Nat} :
    (k.seek caller fd offset whence).1 = some position ↔
      ∃ index base, fdIndex fd = some index ∧
        ((k.state caller).descriptors index).kind ≠ .empty ∧
        k.seekBase ((k.state caller).descriptors index) whence = some base ∧
        base + offset = position ∧ base + offset < 2 ^ 63 := by
  unfold seek
  cases hindex : fdIndex fd with
  | none => simp
  | some index =>
    dsimp only
    by_cases hkind : ((k.state caller).descriptors index).kind = .empty
    · simp [hkind]
    rw [if_neg hkind]
    cases hbase : k.seekBase ((k.state caller).descriptors index) whence with
    | none => simp [hbase]
    | some base =>
      by_cases hfits : -2 ^ 63 ≤ base + offset ∧ base + offset < 2 ^ 63
      · have hadd : checkedAddI64 base offset = some (base + offset) :=
          if_pos hfits
        simp only [Option.bind_some, hadd]
        by_cases hnonneg : 0 ≤ base + offset
        · rw [if_pos hnonneg]
          simp only [Option.some.injEq]
          constructor
          · intro hposition
            exact ⟨index, base, rfl, hkind, hbase, by omega, hfits.2⟩
          · rintro ⟨index', base', hindex', -, hbase', hposition, -⟩
            obtain rfl := hindex'
            rw [hbase] at hbase'
            obtain rfl := Option.some.inj hbase'
            omega
        · rw [if_neg hnonneg]
          simp only [reduceCtorEq, false_iff, not_exists, not_and]
          intro index' base' hindex' _ hbase' hposition _
          obtain rfl := Option.some.inj hindex'
          rw [hbase] at hbase'
          obtain rfl := Option.some.inj hbase'
          omega
      · have hadd : checkedAddI64 base offset = none := if_neg hfits
        simp only [Option.bind_some, hadd, reduceCtorEq, false_iff, not_exists,
          not_and]
        intro index' base' hindex' _ hbase' hposition hlt
        obtain rfl := Option.some.inj hindex'
        rw [hbase] at hbase'
        obtain rfl := Option.some.inj hbase'
        exact hfits ⟨by omega, hlt⟩

/-- The wrapper of `seek` is right exactly when the position is 0. -/
theorem seek_decodable (fd : Nat) (offset : Int) (whence : Nat) :
    Outcome.ofSuccess
        ((k.seek caller fd offset whence).1.getD Kernel.failure == 0) =
      .ofSuccess (k.seek caller fd offset whence).1.isSome ↔
      ¬ k.SeeksForward caller fd offset whence := by
  have hforward : k.SeeksForward caller fd offset whence ↔
      ∃ position, (k.seek caller fd offset whence).1 = some position ∧
        position ≠ 0 := by
    simp only [seek_eq_some]
    constructor
    · rintro ⟨index, base, hindex, hkind, hbase, hpos, hlt⟩
      exact ⟨(base + offset).toNat,
        ⟨index, base, hindex, hkind, hbase, by omega, hlt⟩, by omega⟩
    · rintro ⟨position, ⟨index, base, hindex, hkind, hbase, heq, hlt⟩, hne⟩
      exact ⟨index, base, hindex, hkind, hbase, by omega, hlt⟩
  rw [hforward]
  cases (k.seek caller fd offset whence).1 with
  | none => simp [Outcome.ofSuccess, Kernel.failure]
  | some position =>
    by_cases hzero : position = 0 <;> simp [Outcome.ofSuccess, hzero]

end FileKernel

namespace System

variable (s : System)

/-- `user::spawn` fails, or it returns a pid. -/
theorem spawn_result (path : Bytes) (argv : List Bytes) :
    Spec (Quiet s.kernel) (s.spawn path argv)
      (fun process k => process < Kernel.failure ∧
        k.resuming = s.kernel.resuming)
      (fun _ k => k.resuming = s.kernel.resuming) := by
  unfold spawn
  split
  · exact fun k hk => hk.resuming
  · exact Kernel.spawnProgram_result _ _ _

/-- The word of a spawn, and what the wrapper makes of it. -/
theorem spawn_decoded (hr : s.kernel.resuming = none) (path : Bytes)
    (argv : List Bytes) :
    ((s.kernel.call (s.spawn path argv)).bind Kernel.returnedWord).map
        decodeValue =
      match s.spawn path argv s.kernel with
      | .ok process _ => some (.value process)
      | .error .failed _ => some .failed
      | .error .halted _ => none := by
  have hspec := s.spawn_result path argv s.kernel (.refl _)
  unfold Kernel.call
  cases hspawn : s.spawn path argv s.kernel with
  | ok process k =>
    rw [hspawn] at hspec
    have hlt : process ≠ Kernel.failure := Nat.ne_of_lt hspec.1
    dsimp only
    rw [Option.bind_some, Kernel.returnedWord_returnValue (hspec.2.trans hr)]
    simp [decodeValue, hlt]
  | error stop k =>
    rw [hspawn] at hspec
    cases stop with
    | halted => rfl
    | failed =>
      dsimp only
      rw [Option.bind_some, Kernel.returnedWord_returnValue (hspec.trans hr)]
      simp [decodeValue]

/-- A status is decoded unless it is all ones. -/
theorem map_decodeValue (result : Option (Option Nat)) :
    (result.map (·.getD Kernel.failure)).map decodeValue =
        result.map .ofValue ↔
      result ≠ some (some Kernel.failure) := by
  cases result with
  | none => simp
  | some value =>
    simp only [Option.map_some, Option.some.injEq, ne_eq]
    exact decodeValue_getD value

/-- The same for a call that has blocked. -/
theorem joined_decoded (thread : ThreadId) :
    (some ((s.kernel.joinedResult thread).getD Kernel.failure)).map
        decodeValue =
      some (.ofValue (s.kernel.joinedResult thread)) ↔
    ((s.kernel.threads thread).state = .exited →
      (s.kernel.threads thread).exitStatus ≠ Kernel.failure) := by
  rw [Option.map_some, Option.some.injEq, decodeValue_getD,
    Kernel.joinedResult]
  by_cases hexited : (s.kernel.threads thread).state = .exited <;>
    simp [hexited]

end System

/-! ## Calls on pseudo-terminals -/

namespace Terminals

variable {t : Terminals}

theorem openPty_lt {id : Nat} (h : t.openPty.1 = some id) : id < ptyCount :=
  (Ptys.openPty_of_some (Prod.ext h rfl)).1

theorem length_readMaster_le {id buffer length : Nat} {bytes : Bytes}
    (h : (t.readMaster id buffer length).1 = some bytes) :
    bytes.length ≤ 256 := by
  unfold readMaster at h
  split at h
  · rename_i haccepted
    have hlength := Kernel.length_le_of_userBytes haccepted
    simp only [Ptys.readMaster] at h
    split at h
    · obtain rfl := Option.some.inj h
      rw [Ring.drain_fst]
      exact Nat.le_trans (List.length_take_le _ _) hlength
    · cases h
  · cases h

theorem writeMaster_le {id buffer count : Nat} {input : Bytes}
    (h : (t.writeMaster id buffer input).1 = some count) :
    count ≤ input.length := by
  unfold writeMaster at h
  split at h
  · simp only [Ptys.writeMaster] at h
    split at h
    · obtain rfl := Option.some.inj h
      rw [Ring.fill_fst]
      exact Nat.min_le_left _ _
    · cases h
  · cases h

end Terminals

/-! ## Calls with a buffer -/

/-- An input buffer that is refused is a failure like any other. -/
theorem decode_input (input : Option Bytes) (f : Bytes → Option Nat)
    (h : ∀ bytes word, input = some bytes → f bytes = some word →
      word < Kernel.failure) :
    (match input with
      | none => some Kernel.failure
      | some bytes => some ((f bytes).getD Kernel.failure)).map decodeValue =
      some (.ofValue (input.bind f)) := by
  cases input with
  | none => simp [decodeValue, Outcome.ofValue]
  | some bytes =>
    exact congrArg some (decodeValue_of_lt fun word => h bytes word rfl)

/-- An output buffer that is refused is one too. -/
theorem decode_output (accepted : Bool) (value : Option Nat)
    (h : accepted = true → ∀ word, value = some word →
      word < Kernel.failure) :
    (if accepted then some (value.getD Kernel.failure)
      else some Kernel.failure).map decodeValue =
      if accepted then some (.ofValue value) else some .failed := by
  cases accepted with
  | false => simp [decodeValue]
  | true => exact congrArg some (decodeValue_of_lt (h rfl))

/-- The bytes that fit into a buffer are fewer than the word for a
failure. -/
theorem length_lt_failure {pointer length maximum : Nat} {bytes : Bytes}
    (hmaximum : maximum ≤ 4096)
    (haccepted : Kernel.userBytes pointer length maximum = true)
    (hbytes : bytes.length ≤ length) : bytes.length < Kernel.failure := by
  have hlength := Kernel.length_le_of_userBytes haccepted
  have hfailure : 4096 < Kernel.failure := by decide
  omega

/-- `executable_info` returns the entry where the wrapper expects the length
of the path. -/
theorem executableInfo_decoded (k : Kernel) (length : Nat) :
    decodeValue
        (((k.executableInfo length).map Prod.fst).getD Kernel.failure) =
      .ofValue ((k.executableInfo length).map fun result =>
        result.2.length) ↔
      (executablePath.length < length →
        (k.userStates k.currentStateSlot).executableEntry =
          executablePath.length) := by
  have hpath : executablePath.length ≠ Kernel.failure := by decide +kernel
  unfold Kernel.executableInfo
  by_cases hroom : length < executablePath.length + 1
  · have hlength : ¬ executablePath.length < length := by omega
    simp [hroom, hlength, decodeValue, Outcome.ofValue]
  · have hlength : executablePath.length < length := by omega
    simp only [if_neg hroom, Option.map_some, Option.getD_some, decodeValue,
      Outcome.ofValue, Option.elim_some, hlength, forall_const]
    constructor
    · intro hdecoded
      split at hdecoded
      · exact Outcome.value.inj hdecoded
      · cases hdecoded
    · intro hentry
      rw [hentry, if_pos hpath]

/-! ## The wrappers of the system -/

/-- The wrappers report what the operations of the kernel have done, the
requests apart whose result is not `Decodable`. -/
theorem syscall_results_decoded (s : System) (hr : s.kernel.resuming = none)
    (request : Request) :
    (s.syscallDispatch request).map request.decode = s.outcome request ↔
      request.Decodable s := by
  have hfailure : 4096 < Kernel.failure := by decide
  cases request with
  | vfsOpen path length flags =>
    refine iff_of_true (decode_input _ _ fun bytes fd _ hfd => ?_) trivial
    have hlt := FileKernel.openFd_lt hfd
    have hfds : 3 + maxFds ≤ 4096 := by decide
    omega
  | vfsRead fd buffer length =>
    refine iff_of_true (decode_output _ _ fun haccepted word hword => ?_)
      trivial
    obtain ⟨bytes, hbytes, rfl⟩ := Option.map_eq_some_iff.mp hword
    exact length_lt_failure (Nat.le_refl _) haccepted
      (FileKernel.length_read_le hbytes)
  | vfsWrite fd bytes length =>
    refine iff_of_true (decode_input _ _ fun input count hinput hcount => ?_)
      trivial
    have hlength := UserMemory.length_slice hinput
    have heq := FileKernel.write_eq hcount
    omega
  | vfsSeek fd offset whence =>
    simp only [System.syscallDispatch, System.outcome, Option.map_some,
      Option.some.injEq]
    exact FileKernel.seek_decodable fd (toI64 offset) whence
  | vfsClose fd =>
    exact iff_of_true (congrArg some (ofSuccess_zero _)) trivial
  | setCwd path length =>
    refine iff_of_true ?_ trivial
    simp only [System.syscallDispatch, System.outcome]
    cases s.user.slice path length 64 with
    | none => rfl
    | some path => exact congrArg some (ofSuccess_zero _)
  | getCwd buffer length =>
    refine iff_of_true (decode_output _ _ fun haccepted word hword => ?_)
      trivial
    obtain ⟨cwd, hcwd, rfl⟩ := Option.map_eq_some_iff.mp hword
    exact length_lt_failure (by decide) haccepted
      (Nat.le_of_lt (FileKernel.length_getcwd_lt hcwd))
  | executablePath buffer length =>
    simp only [System.syscallDispatch, System.outcome, Request.Decodable]
    cases haccepted : Kernel.userBytes buffer length 64 with
    | false => simp [Request.decode, decodeValue]
    | true =>
      simp only [if_true, Option.map_some, Option.some.injEq, forall_const]
      exact executableInfo_decoded s.kernel length
  | spawnProcess path length argv =>
    refine iff_of_true ?_ trivial
    simp only [System.syscallDispatch, System.outcome]
    cases s.user.processSpawn path length argv with
    | none => simp [Request.decode, decodeValue]
    | some request => exact s.spawn_decoded hr request.1 request.2
  | waitProcess process =>
    simp only [System.syscallDispatch, System.outcome]
    rw [Kernel.returnedWord_waitProcess hr process]
    refine (System.map_decodeValue _).trans ?_
    simp only [Request.Decodable, Kernel.waitResult]
    cases s.kernel.currentProcess.bind (s.kernel.childMainThread process) with
    | none => simp
    | some thread =>
      simp only [ne_eq, Kernel.joinResult_eq_failure, not_and,
        Option.some.injEq, forall_eq']
  | waitProcessJoined process thread =>
    have hword := Kernel.returnedWord_finishJoin hr thread
      (Kernel.finishWait process thread) fun status k' hr' =>
        Kernel.returnedWord_finishWait hr' process thread status
    simp only [System.syscallDispatch, System.outcome, Kernel.goOn,
      Option.bind_some, hword]
    exact s.joined_decoded thread
  | joinThread thread =>
    simp only [System.syscallDispatch, System.outcome]
    rw [Kernel.returnedWord_join hr thread (.joining thread)
      Kernel.finishJoinCall fun status k' hr' =>
        Kernel.returnedWord_returnValue hr' _]
    refine (System.map_decodeValue _).trans ?_
    simp only [Request.Decodable, ne_eq, Kernel.joinResult_eq_failure, not_and]
  | joinThreadBlocked thread =>
    have hword := Kernel.returnedWord_finishJoin hr thread
      Kernel.finishJoinCall fun status k' hr' =>
        Kernel.returnedWord_returnValue hr' _
    simp only [System.syscallDispatch, System.outcome, Kernel.goOn,
      Option.bind_some, hword]
    exact s.joined_decoded thread
  | terminateProcess process =>
    exact iff_of_true (congrArg some (ofSuccess_one _)) trivial
  | openPty =>
    refine iff_of_true (congrArg some (decodeValue_of_lt fun id hid => ?_))
      trivial
    have hlt := Terminals.openPty_lt hid
    have hcount : ptyCount ≤ 4096 := by decide
    omega
  | readPtyMaster id buffer length =>
    refine iff_of_true (congrArg some (decodeValue_of_lt fun word hword => ?_))
      trivial
    obtain ⟨bytes, hbytes, rfl⟩ := Option.map_eq_some_iff.mp hword
    have hle := Terminals.length_readMaster_le hbytes
    omega
  | writePtyMaster id bytes length =>
    refine iff_of_true (decode_input _ _ fun input count hinput hcount => ?_)
      trivial
    have hlength := UserMemory.length_slice hinput
    have hle := Terminals.writeMaster_le hcount
    omega
  | attachPty id =>
    exact iff_of_true (congrArg some (ofSuccess_zero _)) trivial
  | closePty id =>
    refine iff_of_false (fun hcontra => ?_) fun hfalse => hfalse
    simp only [System.syscallDispatch, System.outcome, Request.decode,
      Option.map_some, Option.some.injEq] at hcontra
    cases hclosed : (s.closePty id).1 <;> rw [hclosed] at hcontra <;>
      cases hcontra

/-- PID 1 has opened a pseudo-terminal, and its second thread has ended with
that status. -/
def exampleSystem (status : Nat) : System :=
  { kernel :=
      { Kernel.initial Kernel.plainMemory with
        currentThread := 1
        threads := fun thread =>
          if thread = 2 then
            { Thread.empty with
              process := some userProcessId
              state := .exited
              exitStatus := status }
          else
            { Thread.empty with
              process := some userProcessId
              isUser := true
              state := .running } }
    ptys := (Ptys.empty.openPty (some userProcessId)).2
    consoles := fun _ => .tty 0
    files := { files := .booted, states := fun _ => .spawned }
    user := fun _ => 0 }

/-- A status other than all ones comes back from a join. -/
theorem syscall_results_decoded_join :
    ((exampleSystem 7).syscallDispatch (.joinThread 2)).map decodeValue =
      some (.value 7) := by
  have hdecoded := (syscall_results_decoded (exampleSystem 7) rfl
    (.joinThread 2)).mpr fun _ => by decide
  exact hdecoded

/-- The close of a pseudo-terminal succeeds, and its wrapper says that it
failed. -/
theorem syscall_result_inverted :
    ¬ ∀ (s : System) (request : Request), s.kernel.resuming = none →
      (s.syscallDispatch request).map request.decode = s.outcome request := by
  intro h
  have hclose := h (exampleSystem 0) (.closePty 0) rfl
  revert hclose
  decide

end OpenKernel
