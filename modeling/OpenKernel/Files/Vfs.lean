import OpenKernel.Files.Storage

/-!
# The virtual file system

The model of `vfs.rs`.  A path is a byte string.  The root mount serves the
files of the root directory; `/tmp` is not a mount but a case of its own in
every function.
-/

namespace OpenKernel

open Lib

/-- The byte of a `/`. -/
def slash : UInt8 := 0x2F

/-- `"/tmp/"`. -/
def tmpPrefix : Bytes := [slash, 0x74, 0x6D, 0x70, slash]

/-- `"/tmp"`. -/
def tmpDirectory : Bytes := [slash, 0x74, 0x6D, 0x70]

/-- `"/"`. -/
def rootDirectory : Bytes := [slash]

inductive VfsError
  | alreadyMounted
  | invalidMountPoint
  | notMounted
  | notFound
  | readOnly
  | invalidPath
  | nameTooLong
  | noSpace
  deriving DecidableEq

/-- The two implementations of the trait `FileSystem`. -/
inductive FileSystem
  | initRamFs
  | ramFs
  deriving DecidableEq

/-- The method `open` of the trait. -/
def FileSystem.openFile (fileSystem : FileSystem) (s : Storage)
    (name : Bytes) : Option Bytes :=
  match fileSystem with
  | .initRamFs => s.openFile name
  | .ramFs => s.read name

/-- `Mount`. -/
structure Mount where
  mountPoint : Bytes
  fileSystem : FileSystem
  deriving DecidableEq

/-- The statics of `storage.rs` with `ROOT_MOUNT`. -/
structure Files extends Storage where
  rootMount : Option Mount

/-- `ram_error`. -/
def ramError : RamFsError → VfsError
  | .notFound => .notFound
  | .nameTooLong => .nameTooLong
  | .noSpace | .fileTooLarge => .noSpace
  | .alreadyExists => .invalidPath

namespace Files

def empty : Files := { Storage.empty with rootMount := none }

/-- `mount_initramfs`. -/
def mountInitramfs (f : Files) : Except VfsError Files :=
  if f.rootMount.isSome then .error .alreadyMounted
  else
    .ok { f with
      rootMount :=
        some { mountPoint := rootDirectory, fileSystem := .initRamFs } }

/-- The file system that `mount_initramfs` leaves at boot. -/
def booted : Files := empty.mountInitramfs.toOption.getD empty

/-- `open`. -/
def vfsOpen (f : Files) (path : Bytes) : Option Bytes := do
  let relativePath ← rootDirectory.isPrefixOf? path
  let mount ← f.rootMount
  if mount.mountPoint ≠ rootDirectory then none
  else
    match tmpPrefix.tail.isPrefixOf? relativePath with
    | some name =>
      if name = [] ∨ slash ∈ name then none else f.read name
    | none =>
      if relativePath = [] ∨ slash ∈ relativePath then none
      else mount.fileSystem.openFile f.toStorage relativePath

/-- `open_file`. -/
def vfsOpenFile (f : Files) (path : Bytes) (writable create : Bool) :
    Except VfsError Files :=
  if path = rootDirectory ∨ path = tmpDirectory then .error .invalidPath
  else
    match tmpPrefix.isPrefixOf? path with
    | some name =>
      if name = [] ∨ slash ∈ name then .error .invalidPath
      else if (f.read name).isSome then .ok f
      else if create then
        match f.toStorage.create name with
        | .ok s => .ok { f with toStorage := s }
        | .error e => .error (ramError e)
      else .error .notFound
    | none =>
      if writable || create then .error .readOnly
      else
        match f.vfsOpen path with
        | some _ => .ok f
        | none => .error .notFound

/-- `write_at`. -/
def vfsWriteAt (f : Files) (path : Bytes) (offset : Nat) (data : Bytes) :
    Except VfsError Files :=
  match tmpPrefix.isPrefixOf? path with
  | none => .error .readOnly
  | some name =>
    match f.toStorage.writeAt name offset data with
    | .ok s => .ok { f with toStorage := s }
    | .error e => .error (ramError e)

/-- `directory_entry`, with an output of `capacity` bytes. -/
def directoryEntry (f : Files) (path : Bytes) (index capacity : Nat) :
    Option Bytes :=
  if path = rootDirectory then do
    let name ←
      if index = 0 then some tmpDirectory.tail else f.bootFileName (index - 1)
    if capacity < name.length then none else some name
  else if path = tmpDirectory then f.ramFileName index capacity
  else none

/-- `is_directory`. -/
def isDirectory (path : Bytes) : Bool :=
  path == rootDirectory || path == tmpDirectory

/-! ## Under the root mount -/

/-- The initramfs is mounted. -/
def Mounted (f : Files) : Prop :=
  f.rootMount =
    some { mountPoint := rootDirectory, fileSystem := .initRamFs }

/-- `open` with the root prefix taken off. -/
theorem Mounted.vfsOpen_eq {f : Files} (h : f.Mounted) (name : Bytes) :
    f.vfsOpen (slash :: name) =
      match tmpPrefix.tail.isPrefixOf? name with
      | some name => if name = [] ∨ slash ∈ name then none else f.read name
      | none =>
        if name = [] ∨ slash ∈ name then none
        else f.toStorage.openFile name := by
  have hroot : rootDirectory.isPrefixOf? (slash :: name) = some name :=
    List.isPrefixOf?_eq_some_iff_append_eq.mpr rfl
  simp only [vfsOpen, hroot, show f.rootMount = some _ from h,
    Option.bind_eq_bind, Option.bind_some, ne_eq, not_true_eq_false, if_false]
  rfl

/-- `open` on a path of `/tmp`. -/
theorem Mounted.vfsOpen_tmp_eq {f : Files} (h : f.Mounted) (name : Bytes) :
    f.vfsOpen (tmpPrefix ++ name) =
      if name = [] ∨ slash ∈ name then none else f.read name := by
  have htmp : tmpPrefix.tail.isPrefixOf? (tmpPrefix.tail ++ name) =
      some name :=
    List.isPrefixOf?_eq_some_iff_append_eq.mpr rfl
  show f.vfsOpen (slash :: (tmpPrefix.tail ++ name)) = _
  rw [h.vfsOpen_eq, htmp]

end Files

end OpenKernel
