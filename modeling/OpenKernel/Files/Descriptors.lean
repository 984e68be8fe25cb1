import OpenKernel.Files.Vfs
import OpenKernel.Kernel.Step

/-!
# File descriptors

The model of the file syscalls: `open`, `read`, `write`, `seek`, `stat`,
`close`, `chdir` and `getcwd` of `user.rs`, behind the range checks of
`arch.rs`.  A function that returns `u64::MAX` when it fails returns `none`
here.

A user buffer is a pointer and a length, and the bytes of an input are what
user memory holds there.
-/

namespace OpenKernel

open Lib

def maxFds : Nat := 16
def fdPathLength : Nat := 64

/-- The bits of the flags of `open`. -/
def openWrite (flags : Nat) : Bool := flags.testBit 0
def openCreate (flags : Nat) : Bool := flags.testBit 1
def openDirectory (flags : Nat) : Bool := flags.testBit 2

inductive DescriptorKind
  | empty
  | file
  | directory
  deriving DecidableEq, Repr

structure Descriptor where
  kind : DescriptorKind
  path : Bytes
  position : Nat
  writable : Bool
  path_lt : path.length < fdPathLength

/-- `Descriptor::EMPTY`. -/
def Descriptor.empty : Descriptor :=
  { kind := .empty
    path := []
    position := 0
    writable := false
    path_lt := by decide }

/-- The part of `ProcessUserState` that the file syscalls use. -/
structure ProcessFiles where
  cwd : Bytes
  descriptors : Nat → Descriptor

/-- `ProcessUserState::EMPTY`, whose directory is one zero byte. -/
def ProcessFiles.empty : ProcessFiles :=
  { cwd := [0]
    descriptors := fun _ => .empty }

/-- What `spawn` and `run_demo` give to a new process. -/
def ProcessFiles.spawned : ProcessFiles :=
  { cwd := rootDirectory
    descriptors := fun _ => .empty }

/-- The file system with the `PROCESS_STATE` of every slot. -/
structure FileKernel where
  files : Files
  states : Nat → ProcessFiles

/-! ## Conversions -/

/-- Whether the bytes are valid UTF-8, as `from_utf8` decides it. -/
def validUtf8 : Bytes → Bool
  | [] => true
  | a :: rest =>
    if a < 0x80 then validUtf8 rest
    else
      match rest with
      | [] => false
      | b :: rest =>
        if 0xC2 ≤ a && a ≤ 0xDF && 0x80 ≤ b && b ≤ 0xBF then validUtf8 rest
        else
          match rest with
          | [] => false
          | c :: rest =>
            if 0x80 ≤ c && c ≤ 0xBF &&
                (a == 0xE0 && 0xA0 ≤ b && b ≤ 0xBF ||
                  0xE1 ≤ a && a ≤ 0xEC && 0x80 ≤ b && b ≤ 0xBF ||
                  a == 0xED && 0x80 ≤ b && b ≤ 0x9F ||
                  0xEE ≤ a && a ≤ 0xEF && 0x80 ≤ b && b ≤ 0xBF) then
              validUtf8 rest
            else
              match rest with
              | [] => false
              | d :: rest =>
                0x80 ≤ c && c ≤ 0xBF && 0x80 ≤ d && d ≤ 0xBF &&
                  (a == 0xF0 && 0x90 ≤ b && b ≤ 0xBF ||
                    0xF1 ≤ a && a ≤ 0xF3 && 0x80 ≤ b && b ≤ 0xBF ||
                    a == 0xF4 && 0x80 ≤ b && b ≤ 0x8F) &&
                  validUtf8 rest

/-- The cast of a `u64` to an `i64`. -/
def toI64 (value : Nat) : Int :=
  if value % 2 ^ 64 < 2 ^ 63 then (value % 2 ^ 64 : Nat)
  else (value % 2 ^ 64 : Nat) - 2 ^ 64

/-- `i64::checked_add`. -/
def checkedAddI64 (a b : Int) : Option Int :=
  if -2 ^ 63 ≤ a + b ∧ a + b < 2 ^ 63 then some (a + b) else none

/-- The descriptor index of a file descriptor. -/
def fdIndex (fd : Nat) : Option Nat :=
  if 3 ≤ fd ∧ fd - 3 < maxFds then some (fd - 3) else none

/-- `current_state_slot` for a thread of `caller`. -/
def stateSlot (caller : Option ProcessId) : Nat :=
  min (caller.getD 1 - 1) 7

/-- `resolve_path`. -/
def resolvePath (cwd path : Bytes) : Option Bytes :=
  if path.head? = some slash then finish []
  else if fdPathLength ≤ cwd.length + 1 + path.length then none
  else finish (if cwd.length = 1 then cwd else cwd ++ [slash])
where
  finish (base : Bytes) : Option Bytes :=
    if base.length + path.length < fdPathLength ∧ validUtf8 (base ++ path) then
      some (base ++ path)
    else none

/-- What `stat` writes: the kind, the read-only flag and the size. -/
structure Stat where
  kind : UInt8
  readOnly : UInt8
  size : Bytes
  deriving DecidableEq

namespace FileKernel

/-- The state of the calling process. -/
def state (k : FileKernel) (caller : Option ProcessId) : ProcessFiles :=
  k.states (stateSlot caller)

/-- Write one descriptor of the calling process. -/
def setDescriptor (k : FileKernel) (caller : Option ProcessId) (index : Nat)
    (descriptor : Descriptor) : FileKernel :=
  { k with
    states := put k.states (stateSlot caller)
      { k.state caller with
        descriptors := put (k.state caller).descriptors index descriptor } }

def setPosition (k : FileKernel) (caller : Option ProcessId) (index : Nat)
    (position : Nat) : FileKernel :=
  k.setDescriptor caller index
    { (k.state caller).descriptors index with position }

/-- The first descriptor that is not in use. -/
def freeDescriptor (k : FileKernel) (caller : Option ProcessId) : Option Nat :=
  (List.range maxFds).find? fun index =>
    ((k.state caller).descriptors index).kind == .empty

/-- The loop of `open` over the descriptors. -/
def takeDescriptor (k : FileKernel) (caller : Option ProcessId) (path : Bytes)
    (flags : Nat) : Option Nat × FileKernel :=
  match k.freeDescriptor caller with
  | none => (none, k)
  | some index =>
    if h : path.length < fdPathLength then
      (some (index + 3),
        k.setDescriptor caller index
          { kind := if openDirectory flags then .directory else .file
            path
            position := 0
            writable := openWrite flags
            path_lt := h })
    else (none, k)

/-- `open`. -/
def openFd (k : FileKernel) (caller : Option ProcessId) (path : Bytes)
    (flags : Nat) : Option Nat × FileKernel :=
  match resolvePath (k.state caller).cwd path with
  | none => (none, k)
  | some path =>
    if openDirectory flags then
      if Files.isDirectory path then k.takeDescriptor caller path flags
      else (none, k)
    else
      match k.files.vfsOpenFile path (openWrite flags) (openCreate flags) with
      | .error _ => (none, k)
      | .ok files => { k with files }.takeDescriptor caller path flags

/-- `read` of a file.  The result is what it puts into `output`. -/
def readFile (k : FileKernel) (caller : Option ProcessId) (index : Nat)
    (capacity : Nat) : Option Bytes × FileKernel :=
  let descriptor := (k.state caller).descriptors index
  match k.files.vfsOpen descriptor.path with
  | none => (none, k)
  | some data =>
    let bytes := (data.drop descriptor.position).take capacity
    (some bytes,
      k.setPosition caller index (descriptor.position + bytes.length))

/-- `read` of a directory.  An entry comes with a zero byte; the end of the
directory is an empty read. -/
def readDirectory (k : FileKernel) (caller : Option ProcessId) (index : Nat)
    (capacity : Nat) : Option Bytes × FileKernel :=
  let descriptor := (k.state caller).descriptors index
  if capacity < 2 then (none, k)
  else
    match k.files.directoryEntry descriptor.path descriptor.position
        (capacity - 1) with
    | none => (some [], k)
    | some name =>
      (some (name ++ [0]),
        k.setPosition caller index (descriptor.position + 1))

/-- `read`. -/
def read (k : FileKernel) (caller : Option ProcessId) (fd capacity : Nat) :
    Option Bytes × FileKernel :=
  match fdIndex fd with
  | none => (none, k)
  | some index =>
    let descriptor := (k.state caller).descriptors index
    if validUtf8 descriptor.path then
      match descriptor.kind with
      | .file => k.readFile caller index capacity
      | .directory => k.readDirectory caller index capacity
      | .empty => (none, k)
    else (none, k)

/-- `write`. -/
def write (k : FileKernel) (caller : Option ProcessId) (fd : Nat)
    (input : Bytes) : Option Nat × FileKernel :=
  match fdIndex fd with
  | none => (none, k)
  | some index =>
    let descriptor := (k.state caller).descriptors index
    if descriptor.kind = .file ∧ descriptor.writable = true ∧
        validUtf8 descriptor.path = true then
      match k.files.vfsWriteAt descriptor.path descriptor.position input with
      | .error _ => (none, k)
      | .ok files =>
        (some input.length,
          { k with files }.setPosition caller index
            (descriptor.position + input.length))
    else (none, k)

/-- `close`. -/
def close (k : FileKernel) (caller : Option ProcessId) (fd : Nat) :
    Bool × FileKernel :=
  match fdIndex fd with
  | none => (false, k)
  | some index =>
    if ((k.state caller).descriptors index).kind = .empty then (false, k)
    else (true, k.setDescriptor caller index .empty)

/-- The length of a file, or 0 if it is not found. -/
def lengthOf (k : FileKernel) (path : Bytes) : Nat :=
  ((k.files.vfsOpen path).map List.length).getD 0

/-- `stat`. -/
def stat (k : FileKernel) (caller : Option ProcessId) (fd capacity : Nat) :
    Option Stat :=
  if capacity < 16 then none
  else
    match fdIndex fd with
    | none => none
    | some index =>
      let descriptor := (k.state caller).descriptors index
      if validUtf8 descriptor.path then
        match descriptor.kind with
        | .file =>
          some
            { kind := 1
              readOnly := if descriptor.writable then 0 else 1
              size := littleEndianBytes (k.lengthOf descriptor.path) }
        | .directory =>
          some
            { kind := 2
              readOnly := if descriptor.writable then 0 else 1
              size := littleEndianBytes 0 }
        | .empty => none
      else none

/-- The position that `seek` counts from. -/
def seekBase (k : FileKernel) (descriptor : Descriptor) (whence : Nat) :
    Option Int :=
  if whence = 0 then some 0
  else if whence = 1 then some (toI64 descriptor.position)
  else if whence = 2 ∧ descriptor.kind = .file ∧
      validUtf8 descriptor.path = true then
    some (toI64 (k.lengthOf descriptor.path))
  else none

/-- `seek`. -/
def seek (k : FileKernel) (caller : Option ProcessId) (fd : Nat) (offset : Int)
    (whence : Nat) : Option Nat × FileKernel :=
  match fdIndex fd with
  | none => (none, k)
  | some index =>
    let descriptor := (k.state caller).descriptors index
    if descriptor.kind = .empty then (none, k)
    else
      match (k.seekBase descriptor whence).bind fun base =>
          checkedAddI64 base offset with
      | none => (none, k)
      | some position =>
        if 0 ≤ position then
          (some position.toNat, k.setPosition caller index position.toNat)
        else (none, k)

/-- `chdir`. -/
def chdir (k : FileKernel) (caller : Option ProcessId) (path : Bytes) :
    Bool × FileKernel :=
  match resolvePath (k.state caller).cwd path with
  | none => (false, k)
  | some path =>
    if Files.isDirectory path then
      (true,
        { k with
          states := put k.states (stateSlot caller)
            { k.state caller with cwd := path } })
    else (false, k)

/-- `getcwd`.  The length it returns is without the zero byte that it writes
behind the path. -/
def getcwd (k : FileKernel) (caller : Option ProcessId) (capacity : Nat) :
    Option Bytes :=
  if capacity < (k.state caller).cwd.length + 1 then none
  else some (k.state caller).cwd

end FileKernel

/-! ## The syscalls on files -/

/-- A file syscall.  A pointer comes with the bytes or the length of the user
buffer behind it. -/
inductive FileCall
  | openFd (pointer : Nat) (path : Bytes) (flags : Nat)
  | read (fd pointer length : Nat)
  | write (fd pointer : Nat) (input : Bytes)
  | close (fd : Nat)
  | seek (fd offset whence : Nat)
  | stat (fd pointer length : Nat)

/-- What a file syscall returns, with the bytes that it writes to user
memory. -/
inductive FileReply
  | failed
  | opened (fd : Nat)
  | read (bytes : Bytes)
  | written (count : Nat)
  | closed
  | positioned (position : Nat)
  | status (stat : Stat)
  deriving DecidableEq

namespace FileKernel

/-- `syscall_vfs_open`, `syscall_vfs_read`, `syscall_vfs_write`, `close`,
`seek` and `syscall_vfs_stat`. -/
def perform (k : FileKernel) (caller : Option ProcessId) :
    FileCall → FileReply × FileKernel
  | .openFd pointer path flags =>
    if Kernel.userBytes pointer path.length 64 then
      let (fd, k) := k.openFd caller path flags
      (fd.elim .failed .opened, k)
    else (.failed, k)
  | .read fd pointer length =>
    if Kernel.userBytes pointer length 4096 then
      let (bytes, k) := k.read caller fd length
      (bytes.elim .failed .read, k)
    else (.failed, k)
  | .write fd pointer input =>
    if Kernel.userBytes pointer input.length 4096 then
      let (count, k) := k.write caller fd input
      (count.elim .failed .written, k)
    else (.failed, k)
  | .close fd =>
    let (success, k) := k.close caller fd
    (if success then .closed else .failed, k)
  | .seek fd offset whence =>
    let (position, k) := k.seek caller fd (toI64 offset) whence
    (position.elim .failed .positioned, k)
  | .stat fd pointer length =>
    if Kernel.userBytes pointer length 16 then
      ((k.stat caller fd length).elim .failed .status, k)
    else (.failed, k)

end FileKernel

end OpenKernel
