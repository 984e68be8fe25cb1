import Mathlib.Data.List.ReduceOption
import OpenKernel.Files.OpenFailure
import OpenKernel.Files.RamStore

/-!
# Reading a directory

A directory descriptor counts the entries that it has returned.  `listing` is
what its reads should return.  `read` gets a `None` from `directory_entry` both
at the end of the directory and when a name does not fit, and returns 0 for
both.  So the reads list the directory exactly when every entry fits the buffer
that it is read with (`directory_reads`).
-/

namespace OpenKernel

open Lib

/-! ## Listings -/

/-- What the reads of a directory return, by the lengths of their buffers: the
next entry with a zero byte, an error if it does not fit, and nothing once all
entries have been returned. -/
def listing : (entries : List Bytes) → (lengths : List Nat) → List (Option Bytes)
  | _, [] => []
  | [], _ :: lengths => some [] :: listing [] lengths
  | name :: rest, length :: lengths =>
    if name.length + 1 ≤ length then some (name ++ [0]) :: listing rest lengths
    else none :: listing (name :: rest) lengths

/-- Each entry fits the buffer that it is read with. -/
def AllFit : (entries : List Bytes) → (lengths : List Nat) → Prop
  | name :: rest, length :: lengths => name.length + 1 ≤ length ∧ AllFit rest lengths
  | _, _ => True

/-- A read that returns 0 for an entry that does not fit. -/
def hiddenListing : (entries : List Bytes) → (lengths : List Nat) → List (Option Bytes)
  | _, [] => []
  | [], _ :: lengths => some [] :: hiddenListing [] lengths
  | name :: rest, length :: lengths =>
    if name.length + 1 ≤ length then some (name ++ [0]) :: hiddenListing rest lengths
    else some [] :: hiddenListing (name :: rest) lengths

/-- Before the first 0 of a listing come all entries, each once. -/
theorem listing_finished {entries : List Bytes} {lengths : List Nat} {index : Nat}
    (h : (listing entries lengths)[index]? = some (some []))
    (hfirst : ∀ i < index, (listing entries lengths)[i]? ≠ some (some [])) :
    ((listing entries lengths).take index).reduceOption = entries.map (· ++ [0]) := by
  induction lengths generalizing entries index with
  | nil => cases entries <;> simp [listing] at h
  | cons length lengths ih =>
    cases entries with
    | nil =>
      cases index with
      | zero => rfl
      | succ index => exact absurd rfl (hfirst 0 (Nat.succ_pos index))
    | cons name rest =>
      have hlater : ∀ {entries' : List Bytes} {reply : Option Bytes} {index : Nat},
          listing (name :: rest) (length :: lengths) = reply :: listing entries' lengths →
          (∀ i < index + 1,
            (listing (name :: rest) (length :: lengths))[i]? ≠ some (some [])) →
          ∀ i < index, (listing entries' lengths)[i]? ≠ some (some []) := by
        intro entries' reply index heq hfirst i hi
        have hnext := hfirst (i + 1) (Nat.succ_lt_succ hi)
        rwa [heq, List.getElem?_cons_succ] at hnext
      by_cases hfits : name.length + 1 ≤ length
      · have heq : listing (name :: rest) (length :: lengths) =
            some (name ++ [0]) :: listing rest lengths := if_pos hfits
        cases index with
        | zero =>
          rw [heq] at h
          simp at h
        | succ index =>
          have hrest := hlater heq hfirst
          rw [heq, List.getElem?_cons_succ] at h
          rw [heq, List.take_succ_cons, List.reduceOption_cons_of_some, List.map_cons,
            ih h hrest]
      · have heq : listing (name :: rest) (length :: lengths) =
            none :: listing (name :: rest) lengths := if_neg hfits
        cases index with
        | zero =>
          rw [heq] at h
          simp at h
        | succ index =>
          have hrest := hlater heq hfirst
          rw [heq, List.getElem?_cons_succ] at h
          rw [heq, List.take_succ_cons, List.reduceOption_cons_of_none, ih h hrest]

/-- The hidden entries are the only difference. -/
theorem hiddenListing_eq (entries : List Bytes) (lengths : List Nat) :
    hiddenListing entries lengths = listing entries lengths ↔ AllFit entries lengths := by
  induction lengths generalizing entries with
  | nil => cases entries <;> simp [hiddenListing, listing, AllFit]
  | cons length lengths ih =>
    cases entries with
    | nil =>
      have hnil : AllFit [] lengths := by
        cases lengths <;> trivial
      simp [hiddenListing, listing, AllFit, (ih []).mpr hnil]
    | cons name rest =>
      by_cases hfits : name.length + 1 ≤ length
      · simp [hiddenListing, listing, AllFit, hfits, ih]
      · simp [hiddenListing, listing, AllFit, hfits]

/-! ## Directories -/

/-- The names in a directory. -/
def Files.entries (f : Files) (path : Bytes) : List Bytes :=
  if path = rootDirectory then tmpDirectory.tail :: f.files.map (·.name)
  else if path = tmpDirectory then f.ramFileNames
  else []

/-- The two directories. -/
def IsDirectory (path : Bytes) : Prop := path = rootDirectory ∨ path = tmpDirectory

theorem ramFileName_short (s : Storage) (index capacity : Nat) :
    s.ramFileName index capacity =
      s.ramFileNames[index]?.bind fun name =>
        if capacity < name.length then none else some name := by
  unfold Storage.ramFileName Storage.ramFileNames
  rw [List.getElem?_map]
  show (do let slot ← s.usedSlots[index]?; _) = _
  cases s.usedSlots[index]? <;> rfl

/-- `directory_entry` finds the entry of that number, if it fits. -/
theorem directoryEntry_eq (f : Files) {path : Bytes} (hpath : IsDirectory path)
    (index capacity : Nat) :
    f.directoryEntry path index capacity =
      (f.entries path)[index]?.bind fun name =>
        if capacity < name.length then none else some name := by
  rcases hpath with rfl | rfl
  · unfold Files.directoryEntry Files.entries
    rw [if_pos rfl, if_pos rfl]
    cases index with
    | zero => rfl
    | succ index =>
      rw [if_neg (Nat.succ_ne_zero index), List.getElem?_cons_succ, List.getElem?_map]
      rfl
  · unfold Files.directoryEntry Files.entries
    rw [if_neg (by decide), if_pos rfl, if_neg (by decide), if_pos rfl]
    exact ramFileName_short f.toStorage index capacity

namespace FileKernel

/-- The descriptor is this directory, and so many entries have been
returned. -/
structure ReadsAt (k : FileKernel) (caller : Option ProcessId) (index : Nat)
    (path : Bytes) (position : Nat) : Prop where
  kind : ((k.state caller).descriptors index).kind = .directory
  path : ((k.state caller).descriptors index).path = path
  position : ((k.state caller).descriptors index).position = position

/-- A syscall on other descriptors that creates no file. -/
def Elsewhere (k : FileKernel) (p : ProcessId) (fd : Nat) (q : ProcessId) :
    FileCall → Prop
  | .openFd _ path flags => ¬ k.CreatesFile (some q) path flags
  | .read fd' _ _ | .close fd' | .seek fd' _ _ =>
    fd' ≠ fd ∨ stateSlot (some q) ≠ stateSlot (some p)
  | .write _ _ _ | .stat _ _ _ => True

/-- Reads of one descriptor with buffers of these lengths and these results;
other syscalls may come in between. -/
inductive Reads (p : ProcessId) (fd : Nat) :
    FileKernel → List Nat → List (Option Bytes) → Prop
  | done (k : FileKernel) : Reads p fd k [] []
  | other {k : FileKernel} {lengths : List Nat} {replies : List (Option Bytes)}
      (q : ProcessId) (call : FileCall) (helsewhere : k.Elsewhere p fd q call)
      (rest : Reads p fd (k.perform (some q) call).2 lengths replies) :
      Reads p fd k lengths replies
  | read {k : FileKernel} {lengths : List Nat} {replies : List (Option Bytes)}
      (length : Nat) (hlength : 2 ≤ length)
      (rest : Reads p fd (k.read (some p) fd length).2 lengths replies) :
      Reads p fd k (length :: lengths) ((k.read (some p) fd length).1 :: replies)

section Steps

variable {k : FileKernel} {p : ProcessId} {fd index position : Nat} {path : Bytes}

theorem descriptor_setDescriptor (k : FileKernel) (caller caller' : Option ProcessId)
    (index index' : Nat) (d : Descriptor) :
    ((k.setDescriptor caller' index' d).state caller).descriptors index =
      if stateSlot caller' = stateSlot caller ∧ index' = index then d
      else (k.state caller).descriptors index := by
  unfold setDescriptor state
  dsimp only
  by_cases hslot : stateSlot caller = stateSlot caller'
  · rw [hslot, put_same]
    dsimp only
    by_cases hindex : index = index'
    · rw [hindex, put_same, if_pos ⟨rfl, rfl⟩]
    · rw [put_other hindex, if_neg fun h => hindex h.2.symm]
  · rw [put_other hslot, if_neg fun h => hslot h.1.symm]

theorem ReadsAt.setDescriptor {caller : Option ProcessId}
    (h : k.ReadsAt caller index path position) {caller' : Option ProcessId} {index' : Nat}
    (hother : ¬ (stateSlot caller' = stateSlot caller ∧ index' = index)) (d : Descriptor) :
    (k.setDescriptor caller' index' d).ReadsAt caller index path position := by
  have hsame := k.descriptor_setDescriptor caller caller' index index' d
  rw [if_neg hother] at hsame
  refine ⟨?_, ?_, ?_⟩ <;> rw [hsame]
  · exact h.kind
  · exact h.path
  · exact h.position

/-- A descriptor of another kind is another descriptor. -/
theorem ReadsAt.ne_of_kind {caller caller' : Option ProcessId} {index' : Nat}
    (h : k.ReadsAt caller index path position)
    (hkind : ((k.state caller').descriptors index').kind ≠ .directory) :
    ¬ (stateSlot caller' = stateSlot caller ∧ index' = index) := by
  rintro ⟨hslot, rfl⟩
  apply hkind
  unfold state
  rw [hslot]
  exact h.kind

/-- The files with the same names in each directory. -/
def SameNames (f f' : Files) : Prop := ∀ path, f'.entries path = f.entries path

theorem sameNames_of_names {f f' : Files} (hboot : f'.files = f.files)
    (hused : ∀ slot, (f'.ramFiles slot).used = (f.ramFiles slot).used)
    (hname : ∀ slot, (f'.ramFiles slot).name = (f.ramFiles slot).name) :
    SameNames f f' := by
  intro path
  have hnames : f'.ramFileNames = f.ramFileNames := by
    unfold Storage.ramFileNames Storage.usedSlots
    simp only [hused, hname]
  unfold Files.entries
  rw [hboot, hnames]

/-- A write changes no name. -/
theorem sameNames_vfsWriteAt {f f' : Files} {offset : Nat} {data : Bytes}
    (h : f.vfsWriteAt path offset data = .ok f') : SameNames f f' := by
  unfold Files.vfsWriteAt at h
  split at h
  · cases h
  · split at h
    · rename_i s hwrite
      obtain ⟨slot, hfits, hfind, rfl⟩ := Storage.writeAt_spec hwrite
      obtain rfl := Except.ok.inj h
      have hput : ∀ slot', put f.ramFiles slot
          (Storage.storeAt (f.ramFiles slot) offset data hfits) slot' =
          if slot' = slot then Storage.storeAt (f.ramFiles slot) offset data hfits
          else f.ramFiles slot' := fun slot' => put_apply ..
      refine sameNames_of_names rfl (fun slot' => ?_) fun slot' => ?_
      · show (put f.ramFiles slot _ slot').used = _
        rw [hput]
        split
        · rename_i heq
          rw [heq]
          rfl
        · rfl
      · show (put f.ramFiles slot _ slot').name = _
        rw [hput]
        split
        · rename_i heq
          rw [heq]
          rfl
        · rfl
    · cases h

theorem SameNames.refl (f : Files) : SameNames f f := fun _ => rfl

/-- An `open` that creates nothing takes a descriptor that was free. -/
theorem ReadsAt.openFd {caller caller' : Option ProcessId}
    (h : k.ReadsAt caller index path position) {path' : Bytes} {flags : Nat}
    (hcreates : ¬ k.CreatesFile caller' path' flags) :
    (k.openFd caller' path' flags).2.ReadsAt caller index path position ∧
      SameNames k.files (k.openFd caller' path' flags).2.files := by
  have htake : ∀ resolved, (k.takeDescriptor caller' resolved flags).2.ReadsAt caller index
      path position ∧
      SameNames k.files (k.takeDescriptor caller' resolved flags).2.files := by
    intro resolved
    unfold takeDescriptor
    cases hfree : k.freeDescriptor caller' with
    | none => exact ⟨h, .refl _⟩
    | some index' =>
      have hempty := List.find?_some hfree
      rw [beq_iff_eq] at hempty
      dsimp only
      split
      · refine ⟨h.setDescriptor (h.ne_of_kind ?_) _, .refl _⟩
        rw [hempty]
        decide
      · exact ⟨h, .refl _⟩
  unfold FileKernel.openFd
  cases hresolve : resolvePath (k.state caller').cwd path' with
  | none => exact ⟨h, .refl _⟩
  | some resolved =>
    dsimp only
    split
    · split
      · exact htake resolved
      · exact ⟨h, .refl _⟩
    · rename_i hdirectory
      cases hopen : k.files.vfsOpenFile resolved (openWrite flags) (openCreate flags) with
      | error e => exact ⟨h, .refl _⟩
      | ok files =>
        rcases vfsOpenFile_ok hopen with rfl | ⟨hcreate, name, s, rfl, hne, hslash,
          hmissing, hs, -⟩
        · exact htake resolved
        · obtain ⟨slot, -, -, -, hfree, -⟩ := Storage.create_spec hs
          refine absurd ⟨Bool.eq_false_iff.mpr hdirectory, hcreate, name, hresolve, hne,
            hslash, hmissing, ?_⟩ hcreates
          rw [hfree]
          rfl

/-- A syscall on another number of the same table goes to another
descriptor. -/
theorem ne_of_fd {q : ProcessId} {fd' index' : Nat} (hindex : fdIndex fd = some index)
    (hindex' : fdIndex fd' = some index')
    (h : fd' ≠ fd ∨ stateSlot (some q) ≠ stateSlot (some p)) :
    ¬ (stateSlot (some q) = stateSlot (some p) ∧ index' = index) := by
  rintro ⟨hslot, rfl⟩
  rw [fdIndex_eq_some] at hindex hindex'
  rcases h with hfd | hother
  · exact hfd (hindex'.1.trans hindex.1.symm)
  · exact hother hslot

/-- Other syscalls leave the descriptor and the names. -/
theorem ReadsAt.perform (h : k.ReadsAt (some p) index path position)
    (hindex : fdIndex fd = some index) {q : ProcessId} {call : FileCall}
    (helsewhere : k.Elsewhere p fd q call) :
    (k.perform (some q) call).2.ReadsAt (some p) index path position ∧
      SameNames k.files (k.perform (some q) call).2.files := by
  have hkept : k.ReadsAt (some p) index path position ∧ SameNames k.files k.files :=
    ⟨h, .refl _⟩
  cases call with
  | openFd pointer path' flags =>
    unfold FileKernel.perform
    dsimp only
    split
    · exact h.openFd helsewhere
    · exact hkept
  | read fd' pointer length =>
    unfold FileKernel.perform FileKernel.read
    dsimp only
    split
    · cases hindex' : fdIndex fd' with
      | none => exact hkept
      | some index' =>
        have hother := ne_of_fd hindex hindex' helsewhere
        dsimp only
        split
        · split
          · unfold readFile
            dsimp only
            split
            · exact hkept
            · exact ⟨h.setDescriptor hother _, .refl _⟩
          · unfold readDirectory
            dsimp only
            split
            · exact hkept
            · split
              · exact hkept
              · exact ⟨h.setDescriptor hother _, .refl _⟩
          · exact hkept
        · exact hkept
    · exact hkept
  | write fd' pointer input =>
    unfold FileKernel.perform FileKernel.write
    dsimp only
    split
    · cases hindex' : fdIndex fd' with
      | none => exact hkept
      | some index' =>
        dsimp only
        split
        · rename_i hfile
          have hother : ¬ (stateSlot (some q) = stateSlot (some p) ∧ index' = index) := by
            apply h.ne_of_kind
            rw [hfile.1]
            decide
          cases hwrite : k.files.vfsWriteAt
              ((k.state (some q)).descriptors index').path
              ((k.state (some q)).descriptors index').position input with
          | error e => exact hkept
          | ok files =>
            have hfiles : ({ k with files } : FileKernel).ReadsAt (some p) index path
              position := ⟨h.kind, h.path, h.position⟩
            exact ⟨hfiles.setDescriptor hother _, sameNames_vfsWriteAt hwrite⟩
        · exact hkept
    · exact hkept
  | close fd' =>
    unfold FileKernel.perform FileKernel.close
    dsimp only
    cases hindex' : fdIndex fd' with
    | none => exact hkept
    | some index' =>
      dsimp only
      split
      · exact hkept
      · exact ⟨h.setDescriptor (ne_of_fd hindex hindex' helsewhere) _, .refl _⟩
  | seek fd' offset whence =>
    unfold FileKernel.perform FileKernel.seek
    dsimp only
    cases hindex' : fdIndex fd' with
    | none => exact hkept
    | some index' =>
      dsimp only
      split
      · exact hkept
      · split
        · exact hkept
        · split
          · exact ⟨h.setDescriptor (ne_of_fd hindex hindex' helsewhere) _, .refl _⟩
          · exact hkept
  | stat fd' pointer length =>
    unfold FileKernel.perform
    dsimp only
    split <;> exact hkept

/-- What a read of the directory returns, and where it goes on. -/
theorem ReadsAt.read (h : k.ReadsAt (some p) index path position)
    (hindex : fdIndex fd = some index) (hpath : IsDirectory path) {length : Nat}
    (hlength : 2 ≤ length) :
    match (k.files.entries path)[position]? with
    | none => k.read (some p) fd length = (some [], k)
    | some name =>
      if name.length + 1 ≤ length then
        (k.read (some p) fd length).1 = some (name ++ [0]) ∧
          (k.read (some p) fd length).2.ReadsAt (some p) index path (position + 1) ∧
          (k.read (some p) fd length).2.files = k.files
      else k.read (some p) fd length = (some [], k) := by
  have hread : k.read (some p) fd length = k.readDirectory (some p) index length := by
    have hvalid : validUtf8 path = true := by
      rcases hpath with rfl | rfl <;> decide
    unfold FileKernel.read
    rw [hindex]
    dsimp only
    rw [h.path, hvalid, if_pos rfl, h.kind]
  have hentry := directoryEntry_eq k.files hpath position (length - 1)
  rw [hread]
  unfold readDirectory
  dsimp only
  rw [if_neg (Nat.not_lt_of_le hlength), h.path, h.position, hentry]
  cases (k.files.entries path)[position]? with
  | none => rfl
  | some name =>
    dsimp only [Option.bind_some]
    by_cases hfits : name.length + 1 ≤ length
    · rw [if_pos hfits, if_neg (by omega)]
      refine ⟨rfl, ?_, rfl⟩
      have hself := k.descriptor_setDescriptor (some p) (some p) index index
        { (k.state (some p)).descriptors index with position := position + 1 }
      rw [if_pos ⟨rfl, rfl⟩] at hself
      refine ⟨?_, ?_, ?_⟩
      · exact (congrArg Descriptor.kind hself).trans h.kind
      · exact (congrArg Descriptor.path hself).trans h.path
      · exact congrArg Descriptor.position hself
    · rw [if_neg hfits, if_pos (by omega)]

end Steps

/-- The reads return the entries from the position of the descriptor on. -/
theorem Reads.replies {p : ProcessId} {fd index position : Nat} {path : Bytes}
    {k : FileKernel} {lengths : List Nat} {replies : List (Option Bytes)}
    (hreads : Reads p fd k lengths replies) (hindex : fdIndex fd = some index)
    (hpath : IsDirectory path) (h : k.ReadsAt (some p) index path position) :
    replies = hiddenListing ((k.files.entries path).drop position) lengths := by
  induction hreads generalizing position with
  | done k => cases (k.files.entries path).drop position <;> rfl
  | other q call helsewhere rest ih =>
    obtain ⟨hnext, hnames⟩ := h.perform hindex helsewhere
    rw [ih hnext, hnames]
  | @read k lengths replies length hlength rest ih =>
    have hread := h.read hindex hpath hlength
    cases hentry : (k.files.entries path)[position]? with
    | none =>
      rw [hentry] at hread
      dsimp only at hread
      rw [hread] at ih ⊢
      have hend : (k.files.entries path).drop position = [] :=
        List.drop_eq_nil_of_le (List.getElem?_eq_none_iff.mp hentry)
      rw [ih h, hend]
      rfl
    | some name =>
      rw [hentry] at hread
      dsimp only at hread
      have hdrop : (k.files.entries path).drop position =
          name :: (k.files.entries path).drop (position + 1) := by
        obtain ⟨hlt, hname⟩ := List.getElem?_eq_some_iff.mp hentry
        rw [List.drop_eq_getElem_cons hlt, hname]
      rw [hdrop, hiddenListing]
      by_cases hfits : name.length + 1 ≤ length
      · rw [if_pos hfits] at hread ⊢
        obtain ⟨hreply, hnext, hfiles⟩ := hread
        rw [hreply, ih hnext, hfiles]
      · rw [if_neg hfits] at hread ⊢
        rw [hread] at ih ⊢
        rw [ih h, hdrop]

/-- The reads of a directory, from its start on, list the directory exactly if
each entry fits the buffer that it is read with.  Then the results before the
first 0 are the entries, each once and with a zero byte. -/
theorem directory_reads {p : ProcessId} {fd index : Nat} {path : Bytes} {k : FileKernel}
    {lengths : List Nat} {replies : List (Option Bytes)} (hindex : fdIndex fd = some index)
    (hpath : IsDirectory path) (hstart : k.ReadsAt (some p) index path 0)
    (hreads : Reads p fd k lengths replies) :
    (replies = listing (k.files.entries path) lengths ↔
      AllFit (k.files.entries path) lengths) ∧
    (AllFit (k.files.entries path) lengths → ∀ last, replies[last]? = some (some []) →
      (∀ i < last, replies[i]? ≠ some (some [])) →
        (replies.take last).reduceOption = (k.files.entries path).map (· ++ [0])) := by
  have hreplies := hreads.replies hindex hpath hstart
  rw [List.drop_zero] at hreplies
  have hiff : replies = listing (k.files.entries path) lengths ↔
      AllFit (k.files.entries path) lengths := by
    rw [hreplies]
    exact hiddenListing_eq _ _
  refine ⟨hiff, fun hfit last hlast hfirst => ?_⟩
  rw [hiff.mpr hfit] at hlast hfirst ⊢
  exact listing_finished hlast hfirst

/-- PID 1 has opened the root directory. -/
def rootOpened (boots : List File) (h : boots.length ≤ maxFiles) : FileKernel :=
  ((FileKernel.booted boots h).openFd (some 1) rootDirectory 4).2

theorem readsAt_rootOpened (boots : List File) (h : boots.length ≤ maxFiles) :
    (rootOpened boots h).ReadsAt (some 1) 0 rootDirectory 0 := ⟨rfl, rfl, rfl⟩

/-- Without boot files the root directory has one entry. -/
theorem directory_reads_root : ∃ replies,
    Reads 1 3 (rootOpened [] (Nat.zero_le _)) [64, 64] replies ∧
      replies = listing [[0x74, 0x6D, 0x70]] [64, 64] := by
  refine ⟨_, .read 64 (by decide) (.read 64 (by decide) (.done _)), ?_⟩
  exact (directory_reads rfl (.inl rfl) (readsAt_rootOpened [] (Nat.zero_le _))
    (.read 64 (by decide) (.read 64 (by decide) (.done _)))).1.mpr ⟨by decide, trivial⟩

/-- With a buffer of two bytes the first read of the root directory returns
0. -/
theorem directory_reads_hidden : ∃ replies,
    Reads 1 3 (rootOpened [] (Nat.zero_le _)) [2] replies ∧
      (rootOpened [] (Nat.zero_le _)).ReadsAt (some 1) 0 rootDirectory 0 ∧
      replies ≠ listing ((rootOpened [] (Nat.zero_le _)).files.entries rootDirectory) [2] := by
  refine ⟨_, .read 2 (by decide) (.done _), readsAt_rootOpened [] (Nat.zero_le _), ?_⟩
  decide

end FileKernel

end OpenKernel
