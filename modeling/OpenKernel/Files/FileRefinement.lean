import Mathlib.Data.List.Find
import OpenKernel.Files.FileModel

/-!
# The file syscalls against the file model

`FileKernel.perform` works on descriptor slots, paths and buffers,
`FileModel.perform` on two maps.  `Refines` relates their states, and each
syscall of either gives the same reply and related states again
(`Refines.perform`).  For any sequence of syscalls by any processes on the
paths of `/tmp` this makes the replies the same (`files_refine_model`).
-/

namespace OpenKernel

open Lib

/-- The descriptor is this open file, or none. -/
def Represents (f : Files) (d : Descriptor) : Option OpenFile → Prop
  | none => d.kind = .empty
  | some file =>
    d.kind = .file ∧ d.path = tmpPrefix ++ file.name ∧
      d.position = file.position ∧ d.writable = file.writable ∧
      FileName file.name ∧ f.HasRamFile file.name ∧ file.position < 2 ^ 63

/-- A process of the table. -/
def IsProcess (p : ProcessId) : Prop := 1 ≤ p ∧ p ≤ maxProcesses

instance : DecidablePred IsProcess := fun p =>
  inferInstanceAs (Decidable (1 ≤ p ∧ p ≤ maxProcesses))

/-- The entry of the descriptor table with that number. -/
def FileKernel.entry (k : FileKernel) (p : ProcessId) (fd : Nat) :
    Option Descriptor :=
  (fdIndex fd).map ((k.state (some p)).descriptors ·)

structure Refines (k : FileKernel) (m : FileModel) : Prop where
  mounted : k.files.Mounted
  stores : Stores k.files.toStorage m.contents
  tables : ∀ p, IsProcess p → ∀ fd,
    match k.entry p fd with
    | none => m.tables p fd = none
    | some d => Represents k.files d (m.tables p fd)

/-! ## Slots of processes -/

theorem stateSlot_eq {p : ProcessId} (hp : IsProcess p) :
    stateSlot (some p) = p - 1 :=
  Nat.min_eq_left (Nat.sub_le_sub_right hp.2 1)

theorem stateSlot_ne {p q : ProcessId} (hp : IsProcess p) (hq : IsProcess q)
    (hne : q ≠ p) : stateSlot (some q) ≠ stateSlot (some p) := by
  rw [stateSlot_eq hp, stateSlot_eq hq]
  intro h
  exact hne (Nat.sub_one_cancel hq.1 hp.1 h)

theorem fdIndex_eq_some {fd index : Nat} :
    fdIndex fd = some index ↔ fd = index + 3 ∧ index < maxFds := by
  unfold fdIndex
  split
  · rw [Option.some.injEq]
    omega
  · simp only [reduceCtorEq, false_iff]
    omega

namespace FileKernel

variable {k : FileKernel} {p q : ProcessId} {fd index : Nat}

@[simp] theorem setDescriptor_files {caller : Option ProcessId}
    {d : Descriptor} : (k.setDescriptor caller index d).files = k.files := rfl

theorem entry_setDescriptor_self {d : Descriptor}
    (hindex : fdIndex fd = some index) :
    (k.setDescriptor (some p) index d).entry p fd = some d := by
  simp [entry, hindex, state, setDescriptor]

theorem entry_setDescriptor_fd {d : Descriptor} (hindex : fdIndex fd ≠ some index) :
    (k.setDescriptor (some p) index d).entry p fd = k.entry p fd := by
  cases hfd : fdIndex fd with
  | none => simp [entry, hfd]
  | some index' =>
    have hne : index' ≠ index := by
      rintro rfl
      exact hindex hfd
    simp [entry, hfd, state, setDescriptor, hne]

theorem entry_setDescriptor_process {d : Descriptor} (hp : IsProcess p)
    (hq : IsProcess q) (hne : q ≠ p) :
    (k.setDescriptor (some p) index d).entry q fd = k.entry q fd := by
  have hslot := stateSlot_ne hp hq hne
  simp [entry, state, setDescriptor, hslot]

end FileKernel

/-! ## One descriptor changes -/

namespace Refines

variable {k : FileKernel} {m : FileModel} {p : ProcessId} {fd index : Nat}

/-- The file of a descriptor in the table. -/
theorem represents (h : Refines k m) (hp : IsProcess p)
    (hindex : fdIndex fd = some index) :
    Represents k.files ((k.state (some p)).descriptors index)
      (m.tables p fd) := by
  have htable := h.tables p hp fd
  rwa [FileKernel.entry, hindex] at htable

theorem tables_eq_none (h : Refines k m) (hp : IsProcess p)
    (hindex : fdIndex fd = none) : m.tables p fd = none := by
  have htable := h.tables p hp fd
  rwa [FileKernel.entry, hindex] at htable

theorem setDescriptor (h : Refines k m) (hp : IsProcess p)
    (hindex : fdIndex fd = some index) {d : Descriptor}
    {file : Option OpenFile} (hd : Represents k.files d file) :
    Refines (k.setDescriptor (some p) index d) (m.setFile p fd file) := by
  refine ⟨h.mounted, h.stores, fun q hq fd' => ?_⟩
  by_cases hqp : q = p
  · subst hqp
    by_cases hfd : fd' = fd
    · subst hfd
      rw [FileKernel.entry_setDescriptor_self hindex]
      simpa [FileModel.setFile] using hd
    · have hother : fdIndex fd' ≠ some index := by
        intro hsame
        rw [fdIndex_eq_some] at hsame hindex
        exact hfd (hsame.1.trans hindex.1.symm)
      rw [FileKernel.entry_setDescriptor_fd hother]
      simpa [FileModel.setFile, hfd] using h.tables q hq fd'
  · rw [FileKernel.entry_setDescriptor_process hp hq hqp]
    simpa [FileModel.setFile, hqp] using h.tables q hq fd'

/-- The files change, and none disappears. -/
theorem setFiles (h : Refines k m) {s : Storage}
    {contents : Bytes → Option Bytes} (hstores : Stores s contents)
    (hkeeps : ∀ name, k.files.HasRamFile name → s.HasRamFile name) :
    Refines { k with files := { k.files with toStorage := s } }
      { m with contents } := by
  refine ⟨h.mounted, hstores, fun q hq fd' => ?_⟩
  have htable := h.tables q hq fd'
  show match k.entry q fd' with
    | none => m.tables q fd' = none
    | some d => Represents { k.files with toStorage := s } d (m.tables q fd')
  cases hentry : k.entry q fd' with
  | none =>
    rw [hentry] at htable
    exact htable
  | some d =>
    rw [hentry] at htable
    cases hfile : m.tables q fd' with
    | none =>
      simp only [hfile] at htable
      exact htable
    | some file =>
      simp only [hfile] at htable
      obtain ⟨h1, h2, h3, h4, h5, hram, h7⟩ := htable
      exact ⟨h1, h2, h3, h4, h5, hkeeps _ hram, h7⟩

/-! ## Files by their path -/

theorem vfsOpen_eq (h : Refines k m) {name : Bytes} (hname : FileName name) :
    k.files.vfsOpen (tmpPrefix ++ name) = m.contents name := by
  have hvalid : ¬ (name = [] ∨ slash ∈ name) := by
    rintro (hnil | hmem)
    · exact hname.1 hnil
    · exact hname.2.1 hmem
  rw [h.mounted.vfsOpen_tmp_eq, if_neg hvalid]
  exact h.stores.read name

theorem isSome_contents (h : Refines k m) {name : Bytes} :
    (m.contents name).isSome = true ↔ k.files.HasRamFile name :=
  h.stores.isSome_contents

/-- What `open` finds behind a descriptor. -/
theorem vfsOpen_of_represents (h : Refines k m) {d : Descriptor}
    {file : OpenFile} (hd : Represents k.files d (some file)) :
    k.files.vfsOpen d.path = some (m.bytesOf file) := by
  obtain ⟨-, hpath, -, -, hname, hram, -⟩ := hd
  obtain ⟨bytes, hbytes⟩ :=
    Option.isSome_iff_exists.mp (h.isSome_contents.mpr hram)
  rw [hpath, h.vfsOpen_eq hname, FileModel.bytesOf, hbytes]
  rfl

end Refines

theorem validUtf8_ascii {a : UInt8} (rest : Bytes) (h : a < 0x80) :
    validUtf8 (a :: rest) = validUtf8 rest := by
  conv_lhs => rw [validUtf8.eq_def]
  exact if_pos h

/-- A path of `/tmp` is valid UTF-8 if its name is. -/
theorem validUtf8_tmp (name : Bytes) :
    validUtf8 (tmpPrefix ++ name) = validUtf8 name := by
  simp only [tmpPrefix, List.cons_append, List.nil_append]
  iterate 5 rw [validUtf8_ascii _ (by decide)]

theorem validUtf8_of_represents {f : Files} {d : Descriptor} {file : OpenFile}
    (hd : Represents f d (some file)) : validUtf8 d.path = true := by
  rw [hd.2.1, validUtf8_tmp]
  exact hd.2.2.2.2.1.2.2.2

/-- The call opens nothing outside `/tmp`. -/
def FileCall.OnTmp : FileCall → Prop
  | .openFd _ path _ => ∃ name, path = tmpPrefix ++ name
  | .read _ _ _ | .write _ _ _ | .close _ | .seek _ _ _ | .stat _ _ _ => True

/-- The two systems answer the call alike and stay related. -/
def Agree (k : FileKernel) (m : FileModel) (p : ProcessId)
    (call : FileCall) : Prop :=
  (k.perform (some p) call).1 = (m.perform p call).1 ∧
    Refines (k.perform (some p) call).2 (m.perform p call).2

theorem Agree.of_eq {k k' : FileKernel} {m m' : FileModel} {p : ProcessId}
    {call : FileCall} (reply : FileReply)
    (hk : k.perform (some p) call = (reply, k'))
    (hm : m.perform p call = (reply, m')) (h : Refines k' m') :
    Agree k m p call := by
  rw [Agree, hk, hm]
  exact ⟨rfl, h⟩

namespace Refines

variable {k : FileKernel} {m : FileModel} {p : ProcessId}

/-- A descriptor number is out of range, free, or an open file. -/
theorem descriptor_cases (h : Refines k m) (hp : IsProcess p) (fd : Nat) :
    (fdIndex fd = none ∧ m.tables p fd = none) ∨
      (∃ index, fdIndex fd = some index ∧ m.tables p fd = none ∧
        ((k.state (some p)).descriptors index).kind = .empty) ∨
      ∃ index file, fdIndex fd = some index ∧ m.tables p fd = some file ∧
        Represents k.files ((k.state (some p)).descriptors index)
          (some file) := by
  cases hindex : fdIndex fd with
  | none => exact Or.inl ⟨rfl, h.tables_eq_none hp hindex⟩
  | some index =>
    have hd := h.represents hp hindex
    cases hfile : m.tables p fd with
    | none =>
      rw [hfile] at hd
      exact Or.inr (Or.inl ⟨index, rfl, rfl, hd⟩)
    | some file =>
      rw [hfile] at hd
      exact Or.inr (Or.inr ⟨index, file, rfl, rfl, hd⟩)

theorem length_bytesOf_le (h : Refines k m) {d : Descriptor} {file : OpenFile}
    (hd : Represents k.files d (some file)) :
    (m.bytesOf file).length ≤ maxRamFileSize := by
  obtain ⟨-, -, -, -, -, ⟨slot, hslot⟩, -⟩ := hd
  rw [FileModel.bytesOf, ← h.stores.read, h.stores.read_eq hslot,
    Option.getD_some, RamFile.length_contents]
  exact (k.files.ramFiles slot).length_le

/-- A descriptor with a new position is the file with that position. -/
theorem setPosition (h : Refines k m) (hp : IsProcess p) {fd index : Nat}
    {file : OpenFile} (hindex : fdIndex fd = some index)
    (hd : Represents k.files ((k.state (some p)).descriptors index)
      (some file)) {position : Nat} (hlt : position < 2 ^ 63) :
    Refines (k.setPosition (some p) index position)
      (m.setFile p fd (some { file with position })) := by
  obtain ⟨hkind, hpath, -, hwritable, hname, hram, -⟩ := hd
  apply h.setDescriptor hp hindex
  exact ⟨hkind, hpath, rfl, hwritable, hname, hram, hlt⟩

theorem read (h : Refines k m) (hp : IsProcess p) (fd pointer length : Nat) :
    Agree k m p (.read fd pointer length) := by
  by_cases hrange : Kernel.userBytes pointer length 4096 = true
  · rcases h.descriptor_cases hp fd with ⟨hindex, hfile⟩ |
      ⟨index, hindex, hfile, hkind⟩ | ⟨index, file, hindex, hfile, hd⟩
    · simpa [Agree, FileKernel.perform, FileModel.perform, hrange,
        FileKernel.read, hindex, hfile] using h
    · simpa [Agree, FileKernel.perform, FileModel.perform, hrange,
        FileKernel.read, hindex, hfile, hkind] using h
    · have hutf := validUtf8_of_represents hd
      have hopen := h.vfsOpen_of_represents hd
      have hsize := h.length_bytesOf_le hd
      obtain ⟨hkind, hpath, hposition, hrest⟩ := id hd
      have hlt : file.position + (((m.bytesOf file).drop
          file.position).take length).length < 2 ^ 63 := by
        have hmax : maxRamFileSize = 4096 := rfl
        have hpos := hrest.2.2.2
        rw [List.length_take, List.length_drop]
        omega
      have hread : k.perform (some p) (.read fd pointer length) =
          (.read (((m.bytesOf file).drop file.position).take length),
            k.setPosition (some p) index (file.position +
              (((m.bytesOf file).drop file.position).take length).length)) := by
        simp [FileKernel.perform, hrange, FileKernel.read, hindex, hutf,
          hkind, FileKernel.readFile, hopen, hposition]
      rw [Agree, hread]
      simp only [FileModel.perform, hfile, hrange, if_true]
      exact ⟨rfl, h.setPosition hp hindex hd hlt⟩
  · rw [Bool.not_eq_true] at hrange
    cases hfile : m.tables p fd <;>
      simpa [Agree, FileKernel.perform, FileModel.perform, hrange, hfile]
        using h

theorem length_lt_of_fileName {name : Bytes} (hname : FileName name) :
    name.length < maxFileName := by
  have hlt := hname.2.2.1
  have hlength : tmpPrefix.length = 5 := rfl
  have hfd : fdPathLength = 64 := rfl
  show name.length < 64
  omega

/-- What `write_at` does through a writable descriptor. -/
theorem vfsWriteAt_cases {d : Descriptor} {file : OpenFile}
    (hd : Represents k.files d (some file)) (input : Bytes) :
    (∃ e, k.files.vfsWriteAt d.path d.position input = .error e ∧
      maxRamFileSize < file.position + input.length) ∨
    ∃ s, k.files.vfsWriteAt d.path d.position input =
        .ok { k.files with toStorage := s } ∧
      k.files.toStorage.writeAt file.name file.position input = .ok s ∧
      file.position + input.length ≤ maxRamFileSize := by
  obtain ⟨-, hpath, hposition, -, hname, hram, -⟩ := hd
  have hstrip : tmpPrefix.isPrefixOf? d.path = some file.name := by
    rw [hpath]
    exact List.isPrefixOf?_eq_some_iff_append_eq.mpr rfl
  rw [Files.vfsWriteAt, hstrip, hposition]
  cases hwrite : k.files.toStorage.writeAt file.name file.position input with
  | error e =>
    exact Or.inl ⟨ramError e, by simp [hwrite],
      Storage.lt_of_writeAt_error hname.1 (length_lt_of_fileName hname) hram
        hwrite⟩
  | ok s =>
    obtain ⟨-, hfits, -, -⟩ := Storage.writeAt_spec hwrite
    exact Or.inr ⟨s, by simp [hwrite], rfl, hfits⟩

theorem hasRamFile_writeAt {s t : Storage} {name name' data : Bytes}
    {offset : Nat} (hwrite : s.writeAt name offset data = .ok t)
    (hram : s.HasRamFile name') : t.HasRamFile name' := by
  obtain ⟨slot, hfits, -, rfl⟩ := Storage.writeAt_spec hwrite
  obtain ⟨slot', hslot', hused, hname⟩ := hram
  refine ⟨slot', hslot', ?_, ?_⟩
  · by_cases heq : slot' = slot
    · subst heq
      simpa [Storage.storeAt] using hused
    · simpa [heq] using hused
  · by_cases heq : slot' = slot
    · subst heq
      simpa [Storage.storeAt] using hname
    · simpa [heq] using hname

theorem write (h : Refines k m) (hp : IsProcess p) (fd pointer : Nat)
    (input : Bytes) : Agree k m p (.write fd pointer input) := by
  by_cases hrange : Kernel.userBytes pointer input.length 4096 = true
  · rcases h.descriptor_cases hp fd with ⟨hindex, hfile⟩ |
      ⟨index, hindex, hfile, hkind⟩ | ⟨index, file, hindex, hfile, hd⟩
    · simpa [Agree, FileKernel.perform, FileModel.perform, hrange,
        FileKernel.write, hindex, hfile] using h
    · simpa [Agree, FileKernel.perform, FileModel.perform, hrange,
        FileKernel.write, hindex, hfile, hkind] using h
    · have hutf := validUtf8_of_represents hd
      obtain ⟨hkind, hpath, hposition, hwritable, hname, hram, hlt⟩ := id hd
      by_cases hmay : file.writable = true
      · rcases vfsWriteAt_cases hd input with
          ⟨e, hfails, htoobig⟩ | ⟨s, hstores, hwrite, hfits⟩
        · have hnot : ¬ file.position + input.length ≤ maxRamFileSize := by
            omega
          simpa [Agree, FileKernel.perform, FileModel.perform, hrange,
            FileKernel.write, hindex, hfile, hkind, hutf, hwritable, hmay,
            hfails, FileModel.write, hnot] using h
        · have hfiles := h.setFiles (h.stores.writeAt hwrite)
            (fun _ => hasRamFile_writeAt hwrite)
          have hnew : file.position + input.length < 2 ^ 63 := by
            have hmax : maxRamFileSize = 4096 := rfl
            omega
          have hd' : Represents { k.files with toStorage := s }
              ((k.state (some p)).descriptors index) (some file) :=
            ⟨hkind, hpath, hposition, hwritable, hname,
              hasRamFile_writeAt hwrite hram, hlt⟩
          have hset := hfiles.setPosition hp hindex hd' hnew
          rw [← hposition] at hset
          refine Agree.of_eq (.written input.length) ?_ ?_ hset
          · simp [FileKernel.perform, hrange, FileKernel.write, hindex, hkind,
              hwritable, hmay, hutf, hstores]
          · simp [FileModel.perform, hfile, hrange, FileModel.write, hmay,
              hfits, hposition, FileModel.setContents, FileModel.bytesOf]
      · simpa [Agree, FileKernel.perform, FileModel.perform, hrange,
          FileKernel.write, hindex, hfile, hkind, hwritable, hmay,
          FileModel.write] using h
  · rw [Bool.not_eq_true] at hrange
    cases hfile : m.tables p fd <;>
      simpa [Agree, FileKernel.perform, FileModel.perform, hrange, hfile]
        using h

theorem close (h : Refines k m) (hp : IsProcess p) (fd : Nat) :
    Agree k m p (.close fd) := by
  rcases h.descriptor_cases hp fd with ⟨hindex, hfile⟩ |
    ⟨index, hindex, hfile, hkind⟩ | ⟨index, file, hindex, hfile, hd⟩
  · simpa [Agree, FileKernel.perform, FileModel.perform, FileKernel.close,
      hindex, hfile] using h
  · simpa [Agree, FileKernel.perform, FileModel.perform, FileKernel.close,
      hindex, hfile, hkind] using h
  · have hset : Refines (k.setDescriptor (some p) index .empty)
        (m.setFile p fd none) :=
      h.setDescriptor hp hindex rfl
    simpa [Agree, FileKernel.perform, FileModel.perform, FileKernel.close,
      hindex, hfile, hd.1] using hset

theorem stat (h : Refines k m) (hp : IsProcess p) (fd pointer length : Nat) :
    Agree k m p (.stat fd pointer length) := by
  by_cases hrange : Kernel.userBytes pointer length 16 = true ∧ 16 ≤ length
  · have hlt : ¬ length < 16 := Nat.not_lt.mpr hrange.2
    rcases h.descriptor_cases hp fd with ⟨hindex, hfile⟩ |
      ⟨index, hindex, hfile, hkind⟩ | ⟨index, file, hindex, hfile, hd⟩
    · simpa [Agree, FileKernel.perform, FileModel.perform, hrange,
        FileKernel.stat, hlt, hindex, hfile] using h
    · simpa [Agree, FileKernel.perform, FileModel.perform, hrange,
        FileKernel.stat, hlt, hindex, hfile, hkind] using h
    · have hutf := validUtf8_of_represents hd
      have hopen := h.vfsOpen_of_represents hd
      simpa [Agree, FileKernel.perform, FileModel.perform, hrange,
        FileKernel.stat, hlt, hindex, hfile, hutf, hd.1, hd.2.2.2.1,
        FileKernel.lengthOf, hopen, FileModel.stat] using h
  · have hfails : (k.perform (some p) (.stat fd pointer length)) =
        (.failed, k) := by
      rw [not_and_or] at hrange
      rcases hrange with hrange | hshort
      · simp [FileKernel.perform, hrange]
      · rw [Nat.not_le] at hshort
        simp [FileKernel.perform, FileKernel.stat, hshort]
    rw [Agree, hfails]
    cases hfile : m.tables p fd <;>
      simpa [FileModel.perform, hfile, hrange] using h

/-- A number below `2 ^ 63` keeps its value as an `i64`. -/
theorem toI64_of_lt {value : Nat} (h : value < 2 ^ 63) :
    toI64 value = value := by
  have hmod : value % 2 ^ 64 = value := Nat.mod_eq_of_lt (by omega)
  rw [toI64, hmod, if_pos h]

theorem neg_le_toI64 (value : Nat) : -2 ^ 63 ≤ toI64 value := by
  have hlt : value % 2 ^ 64 < 2 ^ 64 := Nat.mod_lt _ (by decide)
  unfold toI64
  split <;> omega

theorem seekBase_eq (h : Refines k m) {d : Descriptor} {file : OpenFile}
    (hd : Represents k.files d (some file)) (whence : Nat) :
    k.seekBase d whence = m.seekBase file whence := by
  have hutf := validUtf8_of_represents hd
  have hopen := h.vfsOpen_of_represents hd
  have hsize := h.length_bytesOf_le hd
  have hmax : maxRamFileSize = 4096 := rfl
  have hlength : toI64 (k.lengthOf d.path) = (m.bytesOf file).length := by
    rw [FileKernel.lengthOf, hopen, Option.map_some, Option.getD_some]
    exact toI64_of_lt (by omega)
  obtain ⟨hkind, -, hposition, -, -, -, hlt⟩ := hd
  rw [FileKernel.seekBase, FileModel.seekBase, hlength, hposition,
    toI64_of_lt hlt, hkind, hutf]
  simp

theorem seekBase_nonneg {file : OpenFile} {whence : Nat} {base : Int}
    (hbase : m.seekBase file whence = some base) : 0 ≤ base := by
  unfold FileModel.seekBase at hbase
  split at hbase
  · obtain rfl := Option.some.inj hbase
    exact Int.le_refl 0
  · split at hbase
    · obtain rfl := Option.some.inj hbase
      exact Int.natCast_nonneg _
    · split at hbase
      · obtain rfl := Option.some.inj hbase
        exact Int.natCast_nonneg _
      · cases hbase

theorem seek (h : Refines k m) (hp : IsProcess p) (fd offset whence : Nat) :
    Agree k m p (.seek fd offset whence) := by
  rcases h.descriptor_cases hp fd with ⟨hindex, hfile⟩ |
    ⟨index, hindex, hfile, hkind⟩ | ⟨index, file, hindex, hfile, hd⟩
  · simpa [Agree, FileKernel.perform, FileModel.perform, FileKernel.seek,
      hindex, hfile] using h
  · simpa [Agree, FileKernel.perform, FileModel.perform, FileKernel.seek,
      hindex, hfile, hkind] using h
  · have hsame := h.seekBase_eq hd whence
    cases hbase : m.seekBase file whence with
    | none =>
      simpa [Agree, FileKernel.perform, FileModel.perform, FileKernel.seek,
        hindex, hfile, hd.1, hsame, hbase, FileModel.seek] using h
    | some base =>
      have hnonneg := seekBase_nonneg hbase
      have hoffset := neg_le_toI64 offset
      by_cases hfits : 0 ≤ base + toI64 offset ∧ base + toI64 offset < 2 ^ 63
      · have hadd : checkedAddI64 base (toI64 offset) =
            some (base + toI64 offset) := if_pos ⟨by omega, hfits.2⟩
        have hlt : (base + toI64 offset).toNat < 2 ^ 63 := by omega
        refine Agree.of_eq (.positioned (base + toI64 offset).toNat) ?_ ?_
          (h.setPosition hp hindex hd hlt)
        · simp [FileKernel.perform, FileKernel.seek, hindex, hd.1, hsame,
            hbase, hadd, hfits.1]
        · simp only [FileModel.perform, hfile, FileModel.seek, hbase]
          rw [if_pos hfits]
      · have hk : k.perform (some p) (.seek fd offset whence) =
            (.failed, k) := by
          cases hadd : checkedAddI64 base (toI64 offset) with
          | none =>
            simp [FileKernel.perform, FileKernel.seek, hindex, hd.1, hsame,
              hbase, hadd]
          | some position =>
            have hneg : ¬ 0 ≤ position := by
              intro hpos
              unfold checkedAddI64 at hadd
              split at hadd
              · rename_i hin
                obtain rfl := Option.some.inj hadd
                exact hfits ⟨hpos, hin.2⟩
              · cases hadd
            simp [FileKernel.perform, FileKernel.seek, hindex, hd.1, hsame,
              hbase, hadd, hneg]
        refine Agree.of_eq .failed hk ?_ h
        simp only [FileModel.perform, hfile, FileModel.seek, hbase]
        rw [if_neg hfits]

/-- The first free descriptors have the same number. -/
theorem freeFd_eq (h : Refines k m) (hp : IsProcess p) :
    m.freeFd p = (k.freeDescriptor (some p)).map (· + 3) := by
  have hsame : ∀ index ∈ List.range maxFds,
      (m.tables p (index + 3)).isNone =
        (((k.state (some p)).descriptors index).kind == .empty) := by
    intro index hindex
    have hfd : fdIndex (index + 3) = some index :=
      fdIndex_eq_some.mpr ⟨rfl, List.mem_range.mp hindex⟩
    have hd := h.represents hp hfd
    cases hfile : m.tables p (index + 3) with
    | none =>
      rw [hfile] at hd
      rw [show _ = DescriptorKind.empty from hd]
      rfl
    | some file =>
      rw [hfile] at hd
      rw [hd.1]
      rfl
  have hrange : List.range' 3 maxFds = (List.range maxFds).map (· + 3) := by
    decide
  rw [FileModel.freeFd, FileKernel.freeDescriptor, hrange, List.find?_map]
  congr 1
  exact List.find?_congr hsame

/-- A path of `/tmp` resolves to itself if it fits. -/
theorem resolvePath_tmp (cwd name : Bytes) :
    resolvePath cwd (tmpPrefix ++ name) =
      if tmpPrefix.length + name.length < fdPathLength ∧
          validUtf8 name = true then
        some (tmpPrefix ++ name)
      else none := by
  have hhead : (tmpPrefix ++ name).head? = some slash := rfl
  rw [resolvePath, if_pos hhead, resolvePath.finish, List.nil_append,
    validUtf8_tmp, List.length_append, List.length_nil, Nat.zero_add]

theorem isDirectory_tmp (name : Bytes) :
    Files.isDirectory (tmpPrefix ++ name) = false := by
  simp [Files.isDirectory, tmpPrefix, rootDirectory, tmpDirectory]

/-- `open_file` on a path of `/tmp`. -/
theorem vfsOpenFile_tmp (f : Files) (name : Bytes) (writable create : Bool) :
    f.vfsOpenFile (tmpPrefix ++ name) writable create =
      if name = [] ∨ slash ∈ name then .error .invalidPath
      else if (f.read name).isSome then .ok f
      else if create then
        match f.toStorage.create name with
        | .ok s => .ok { f with toStorage := s }
        | .error e => .error (ramError e)
      else .error .notFound := by
  have hstrip : tmpPrefix.isPrefixOf? (tmpPrefix ++ name) = some name :=
    List.isPrefixOf?_eq_some_iff_append_eq.mpr rfl
  have hpath : ¬ (tmpPrefix ++ name = rootDirectory ∨
      tmpPrefix ++ name = tmpDirectory) := by
    simp [tmpPrefix, rootDirectory, tmpDirectory]
  rewrite [Files.vfsOpenFile, if_neg hpath, hstrip]
  rfl

theorem hasRamFile_create {s t : Storage} {name name' : Bytes}
    (hcreate : s.create name = .ok t) (hram : s.HasRamFile name') :
    t.HasRamFile name' := by
  obtain ⟨slot, valid, -, -, hfree, rfl⟩ := Storage.create_spec hcreate
  obtain ⟨slot', hslot', hused, hname⟩ := hram
  have hne : slot' ≠ slot := by
    rintro rfl
    rw [(Storage.freeSlot_spec hfree).2] at hused
    cases hused
  exact ⟨slot', hslot', by simpa [hne] using hused,
    by simpa [hne] using hname⟩

/-- `open_file` finds or creates the file as the model does. -/
theorem ensure (h : Refines k m) {name : Bytes} (hname : FileName name)
    (writable create : Bool) :
    (∃ e, k.files.vfsOpenFile (tmpPrefix ++ name) writable create =
        .error e ∧ m.ensure name create = none) ∨
    ∃ files m', k.files.vfsOpenFile (tmpPrefix ++ name) writable create =
        .ok files ∧ m.ensure name create = some m' ∧
      Refines { k with files } m' ∧ files.HasRamFile name := by
  have hvalid : ¬ (name = [] ∨ slash ∈ name) := by
    rintro (hnil | hmem)
    · exact hname.1 hnil
    · exact hname.2.1 hmem
  rw [vfsOpenFile_tmp, if_neg hvalid, FileModel.ensure, h.stores.read]
  by_cases hexists : (m.contents name).isSome = true
  · rw [if_pos hexists, if_pos hexists]
    exact Or.inr ⟨k.files, m, rfl, rfl, h, h.isSome_contents.mp hexists⟩
  · rw [if_neg hexists, if_neg hexists]
    have hnew := mt h.isSome_contents.mpr hexists
    cases create with
    | false => exact Or.inl ⟨.notFound, rfl, by simp⟩
    | true =>
      have hroom : k.files.freeSlot.isSome = true ↔ m.HasRoom :=
        h.stores.freeSlot_isSome
      cases hcreate : k.files.toStorage.create name with
      | error e =>
        have hfull := Storage.freeSlot_of_create_error hname.1
          (length_lt_of_fileName hname) hnew hcreate
        rw [hfull] at hroom
        have hnone : ¬ m.HasRoom := fun hr => nomatch hroom.mpr hr
        exact Or.inl ⟨ramError e, rfl, by simp [hnone]⟩
      | ok s =>
        obtain ⟨slot, valid, hok, -, hfree, hs⟩ :=
          Storage.create_spec hcreate
        have hhas : m.HasRoom := hroom.mp (by rw [hfree]; rfl)
        have hram : s.HasRamFile name := by
          subst hs
          exact ⟨slot, (Storage.freeSlot_spec hfree).1, by simp,
            by simpa using Storage.validateName_eq_ok hok⟩
        exact Or.inr ⟨{ k.files with toStorage := s }, m.setContents name [],
          rfl, by simp [hhas],
          h.setFiles (h.stores.create hcreate)
            (fun _ => hasRamFile_create hcreate), hram⟩

/-- The loop over the descriptors takes the one that the model takes. -/
theorem takeDescriptor (h : Refines k m) (hp : IsProcess p) {name : Bytes}
    (hname : FileName name) (hram : k.files.HasRamFile name) {flags : Nat}
    (hfile : openDirectory flags = false) :
    (k.freeDescriptor (some p) = none ∧ m.freeFd p = none ∧
      k.takeDescriptor (some p) (tmpPrefix ++ name) flags = (none, k)) ∨
    ∃ fd k', m.freeFd p = some fd ∧
      k.takeDescriptor (some p) (tmpPrefix ++ name) flags = (some fd, k') ∧
      Refines k' (m.setFile p fd (some ⟨name, 0, openWrite flags⟩)) := by
  have hfree := h.freeFd_eq hp
  have hlt : (tmpPrefix ++ name).length < fdPathLength := by
    rw [List.length_append]
    exact hname.2.2.1
  cases hindex : k.freeDescriptor (some p) with
  | none =>
    rw [hindex] at hfree
    exact Or.inl ⟨rfl, hfree, by simp [FileKernel.takeDescriptor, hindex]⟩
  | some index =>
    rw [hindex] at hfree
    have hrange : index < maxFds :=
      List.mem_range.mp (List.mem_of_find?_eq_some hindex)
    have hfd : fdIndex (index + 3) = some index :=
      fdIndex_eq_some.mpr ⟨rfl, hrange⟩
    have hset := h.setDescriptor hp hfd
      (show Represents k.files
          { kind := if openDirectory flags then .directory else .file
            path := tmpPrefix ++ name
            position := 0
            writable := openWrite flags
            path_lt := hlt } (some ⟨name, 0, openWrite flags⟩) from
        ⟨by simp [hfile], rfl, rfl, rfl, hname, hram, by simp⟩)
    refine Or.inr ⟨index + 3, _, hfree, ?_, hset⟩
    simp only [FileKernel.takeDescriptor, hindex, dif_pos hlt]

theorem openFd (h : Refines k m) (hp : IsProcess p) (pointer : Nat)
    (name : Bytes) (flags : Nat) :
    Agree k m p (.openFd pointer (tmpPrefix ++ name) flags) := by
  have hstrip : tmpPrefix.isPrefixOf? (tmpPrefix ++ name) = some name :=
    List.isPrefixOf?_eq_some_iff_append_eq.mpr rfl
  have hk : Kernel.userBytes pointer (tmpPrefix ++ name).length 64 = true →
      k.perform (some p) (.openFd pointer (tmpPrefix ++ name) flags) =
        ((k.openFd (some p) (tmpPrefix ++ name) flags).1.elim .failed .opened,
          (k.openFd (some p) (tmpPrefix ++ name) flags).2) := by
    intro hrange
    rw [FileKernel.perform, if_pos hrange]
  by_cases hok : Kernel.userBytes pointer (tmpPrefix ++ name).length 64 = true ∧
      FileName name ∧ openDirectory flags = false
  · obtain ⟨hrange, hname, hfile⟩ := hok
    have hresolve := resolvePath_tmp (k.state (some p)).cwd name
    rw [if_pos ⟨hname.2.2.1, hname.2.2.2⟩] at hresolve
    have hm : m.perform p (.openFd pointer (tmpPrefix ++ name) flags) =
        m.openFd p name flags := by
      simp only [FileModel.perform, hstrip]
      rw [if_pos ⟨hrange, hname, hfile⟩]
    rcases h.ensure hname (openWrite flags) (openCreate flags) with
      ⟨e, hfails, hnone⟩ | ⟨files, m', hopens, hsome, h', hram⟩
    · refine Agree.of_eq .failed ?_ ?_ h
      · rw [hk hrange]
        simp [FileKernel.openFd, hresolve, hfile, hfails]
      · rw [hm]
        simp [FileModel.openFd, hnone]
    · rcases h'.takeDescriptor hp hname hram hfile with
        ⟨-, hfull, htake⟩ | ⟨fd, k', hfd, htake, hset⟩
      · refine Agree.of_eq .failed ?_ ?_ h'
        · rw [hk hrange]
          simp [FileKernel.openFd, hresolve, hfile, hopens, htake]
        · rw [hm]
          simp [FileModel.openFd, hsome, hfull]
      · refine Agree.of_eq (.opened fd) ?_ ?_ hset
        · rw [hk hrange]
          simp [FileKernel.openFd, hresolve, hfile, hopens, htake]
        · rw [hm]
          simp [FileModel.openFd, hsome, hfd]
  · have hm : m.perform p (.openFd pointer (tmpPrefix ++ name) flags) =
        (.failed, m) := by
      simp only [FileModel.perform, hstrip]
      rw [if_neg hok]
    refine Agree.of_eq .failed ?_ hm h
    by_cases hrange :
        Kernel.userBytes pointer (tmpPrefix ++ name).length 64 = true
    · rw [hk hrange]
      have hresolve := resolvePath_tmp (k.state (some p)).cwd name
      by_cases hfits : tmpPrefix.length + name.length < fdPathLength ∧
          validUtf8 name = true
      · rw [if_pos hfits] at hresolve
        cases hflag : openDirectory flags with
        | true =>
          simp [FileKernel.openFd, hresolve, hflag, isDirectory_tmp]
        | false =>
          have hbad : name = [] ∨ slash ∈ name := by
            by_contra hgood
            rw [not_or] at hgood
            exact hok ⟨hrange, ⟨hgood.1, hgood.2, hfits.1, hfits.2⟩, hflag⟩
          have hfails := vfsOpenFile_tmp k.files name (openWrite flags)
            (openCreate flags)
          rw [if_pos hbad] at hfails
          simp [FileKernel.openFd, hresolve, hflag, hfails]
      · rw [if_neg hfits] at hresolve
        simp [FileKernel.openFd, hresolve]
    · rw [FileKernel.perform, if_neg hrange]

/-- One syscall on the paths of `/tmp`. -/
theorem perform (h : Refines k m) (hp : IsProcess p) (call : FileCall)
    (htmp : call.OnTmp) : Agree k m p call := by
  cases call with
  | openFd pointer path flags =>
    obtain ⟨name, rfl⟩ := htmp
    exact h.openFd hp pointer name flags
  | read fd pointer length => exact h.read hp fd pointer length
  | write fd pointer input => exact h.write hp fd pointer input
  | close fd => exact h.close hp fd
  | seek fd offset whence => exact h.seek hp fd offset whence
  | stat fd pointer length => exact h.stat hp fd pointer length

end Refines

/-! ## Sequences of syscalls -/

/-- The states of the other processes are untouched. -/
theorem FileKernel.state_perform_other {k : FileKernel} {p q : ProcessId}
    (hp : IsProcess p) (hq : IsProcess q) (hne : q ≠ p) (call : FileCall) :
    (k.perform (some p) call).2.state (some q) = k.state (some q) := by
  have hslot := stateSlot_ne hp hq hne
  have hset : ∀ (k : FileKernel) index d,
      (k.setDescriptor (some p) index d).state (some q) = k.state (some q) := by
    intro k index d
    exact put_other hslot
  have htake : ∀ (k : FileKernel) path flags,
      (k.takeDescriptor (some p) path flags).2.state (some q) =
        k.state (some q) := by
    intro k path flags
    unfold takeDescriptor
    split
    · rfl
    · split
      · exact hset _ _ _
      · rfl
  cases call with
  | openFd pointer path flags =>
    simp only [perform]
    split
    · simp only [openFd]
      split
      · rfl
      · split
        · split
          · exact htake _ _ _
          · rfl
        · split
          · rfl
          · exact htake _ _ _
    · rfl
  | read fd pointer length =>
    simp only [perform]
    split
    · simp only [read]
      split
      · rfl
      · split
        · split
          · simp only [readFile]
            split
            · rfl
            · exact hset _ _ _
          · simp only [readDirectory]
            split
            · rfl
            · split
              · rfl
              · exact hset _ _ _
          · rfl
        · rfl
    · rfl
  | write fd pointer input =>
    simp only [perform]
    split
    · simp only [write]
      split
      · rfl
      · split
        · split
          · rfl
          · exact hset _ _ _
        · rfl
    · rfl
  | close fd =>
    simp only [perform, close]
    split
    · rfl
    · split
      · rfl
      · exact hset _ _ _
  | seek fd offset whence =>
    simp only [perform, seek]
    split
    · rfl
    · split
      · rfl
      · split
        · rfl
        · split
          · exact hset _ _ _
          · rfl
  | stat fd pointer length =>
    simp only [perform]
    split <;> rfl

/-- The replies to a list of calls, and the state after them. -/
def FileKernel.run (k : FileKernel) :
    List (ProcessId × FileCall) → List FileReply × FileKernel
  | [] => ([], k)
  | (p, call) :: calls =>
    let (reply, k) := k.perform (some p) call
    let (replies, k) := k.run calls
    (reply :: replies, k)

noncomputable def FileModel.run (m : FileModel) :
    List (ProcessId × FileCall) → List FileReply × FileModel
  | [] => ([], m)
  | (p, call) :: calls =>
    let (reply, m) := m.perform p call
    let (replies, m) := m.run calls
    (reply :: replies, m)

theorem Refines.run {calls : List (ProcessId × FileCall)}
    (hcalls : ∀ c ∈ calls, IsProcess c.1 ∧ c.2.OnTmp) {k : FileKernel}
    {m : FileModel} (h : Refines k m) :
    (k.run calls).1 = (m.run calls).1 ∧
      Refines (k.run calls).2 (m.run calls).2 := by
  induction calls generalizing k m with
  | nil => exact ⟨rfl, h⟩
  | cons c calls ih =>
    obtain ⟨p, call⟩ := c
    obtain ⟨hp, htmp⟩ := hcalls (p, call) (by simp)
    obtain ⟨hreply, hnext⟩ : Agree k m p call := h.perform hp call htmp
    obtain ⟨hreplies, hend⟩ := ih (fun c hc => hcalls c (by simp [hc])) hnext
    exact ⟨congrArg₂ List.cons hreply hreplies, hend⟩

/-- The system when the first process starts: boot files, no RAM file and no
open file. -/
def FileKernel.booted (boots : List File) (h : boots.length ≤ maxFiles) :
    FileKernel :=
  { files :=
      { Files.booted with
        files := boots
        files_le := h }
    states := fun _ => .spawned }

theorem Refines.booted (boots : List File) (h : boots.length ≤ maxFiles) :
    Refines (.booted boots h) .empty := by
  refine ⟨rfl, ⟨fun name => ?_, ?_, fun _ _ _ => rfl, fun _ _ => rfl⟩, ?_⟩
  · exact Stores.read_eq_none fun ⟨_, _, hused, _⟩ => nomatch hused
  · intro name slot slot' hslot
    exact nomatch hslot.2.1
  · intro p hp fd
    unfold FileKernel.entry
    cases fdIndex fd with
    | none => rfl
    | some index => rfl

/-- Any sequence of file syscalls of any processes on the paths of `/tmp` gets
the replies of the file model and ends in a state that is related to the one
of the model; and no syscall changes the descriptors of another process. -/
theorem files_refine_model (boots : List File)
    (hboots : boots.length ≤ maxFiles) (calls : List (ProcessId × FileCall))
    (hcalls : ∀ c ∈ calls, IsProcess c.1 ∧ c.2.OnTmp) :
    ((FileKernel.booted boots hboots).run calls).1 =
        (FileModel.empty.run calls).1 ∧
      Refines ((FileKernel.booted boots hboots).run calls).2
        (FileModel.empty.run calls).2 ∧
      ∀ (k : FileKernel) p q call, IsProcess p → IsProcess q → q ≠ p →
        (k.perform (some p) call).2.state (some q) = k.state (some q) := by
  obtain ⟨hreplies, hrefines⟩ :=
    Refines.run hcalls (Refines.booted boots hboots)
  refine ⟨hreplies, hrefines, fun k p q call hp hq hne => ?_⟩
  exact FileKernel.state_perform_other hp hq hne call

/-- PID 1 writes three bytes to `/tmp/a`; PID 2 opens the file, seeks past its
end and writes there. -/
def twoWriters : List (ProcessId × FileCall) :=
  [(1, .openFd 0x4000_0000_0000 (tmpPrefix ++ [0x61]) 3),
    (1, .write 3 0x4000_0000_0000 [1, 2, 3]),
    (2, .openFd 0x4000_0000_0000 (tmpPrefix ++ [0x61]) 1),
    (2, .seek 3 1 2),
    (2, .write 3 0x4000_0000_0000 [9]),
    (1, .seek 3 0 0),
    (1, .read 3 0x4000_0000_0000 16)]

theorem files_refine_model_twoWriters :
    (FileModel.empty.run twoWriters).1 =
      [.opened 3, .written 3, .opened 3, .positioned 4, .written 1,
        .positioned 0, .read [1, 2, 3, 0, 9]] := by
  have hcalls : ∀ c ∈ twoWriters, IsProcess c.1 ∧ c.2.OnTmp := by
    simp [twoWriters, FileCall.OnTmp, IsProcess, maxProcesses, maxThreads]
  rw [← (files_refine_model [] (Nat.zero_le _) twoWriters hcalls).1]
  decide

end OpenKernel
