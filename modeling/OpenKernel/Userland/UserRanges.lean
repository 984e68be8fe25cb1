import OpenKernel.Kernel.Boot
import OpenKernel.Memory.KernelHalf
import OpenKernel.Memory.PartialMap
import OpenKernel.Userland.SpawnArguments

/-!
# Ranges of user memory

`user_bytes`, `user_bytes_mut` and `valid_user_word` admit a range by
arithmetic on its bounds; the kernel then uses the range through the page
tables of the caller.  `syscallRanges` collects the ranges that one syscall
admits, those that it finds by following pointers in user memory included.

No check looks at the page tables.  A call is safe when the buffers that it
names, and the pointers and windows of `argv` as far as the kernel follows
them, have their pages mapped (`BacksCall`).  That is so for every call only if
there is not one unmapped page in user space (`user_ranges_protected`).
-/

namespace OpenKernel

open Lib Kernel

/-- A range that a check has admitted. -/
structure UserRange where
  pointer : Nat
  length : Nat
  /-- whether the kernel writes to it -/
  output : Bool
  deriving DecidableEq, Repr

/-- `user_bytes`. -/
def admitBytes (pointer length maximum : Nat) : Option UserRange :=
  if userBytes pointer length maximum then
    some { pointer, length, output := false }
  else none

/-- `user_bytes_mut`. -/
def admitBytesMut (pointer length maximum : Nat) : Option UserRange :=
  (admitBytes pointer length maximum).map fun range =>
    { range with output := true }

/-- `valid_user_word`. -/
def admitWord (address : Nat) : Option UserRange :=
  if validUserWord address then
    some { pointer := address, length := 4, output := false }
  else none

namespace Memory

variable (m : Memory)

/-- Load the byte at a virtual address; `none` is a page fault. -/
def loadByte (virtualAddress : Nat) : Option UInt8 :=
  (m.translate virtualAddress).map fun address =>
    UInt8.ofNat (m.words (address / pageSize * pageSize)
      (address % pageSize / 8) >>> (8 * (address % 8)) % 256)

/-- `u64::from_le_bytes` of eight bytes of user memory. -/
def loadWord (pointer : Nat) : Option Nat :=
  ((List.range 8).mapM fun index => m.loadByte (pointer + index)).map
    littleEndianWord

/-- `position` of the first zero byte, from `pointer` on: whether there is one
among so many bytes. -/
def findZero (pointer : Nat) : Nat → Option Bool
  | 0 => some false
  | remaining + 1 =>
    match m.loadByte pointer with
    | none => none
    | some byte =>
      if byte = 0 then some true else findZero (pointer + 1) remaining

/-- The loop of `syscall_process_spawn` over the pointers, up to the first
fault. -/
def argumentRanges (argv : Nat) : Nat → Nat → List UserRange
  | _, 0 => []
  | index, remaining + 1 =>
    match admitBytes (argv + index * 8) 8 8 with
    | none => []
    | some word => word ::
      match m.loadWord (argv + index * 8) with
      | none => []
      | some pointer =>
        if pointer = 0 then []
        else
          match admitBytes pointer argumentWindow argumentWindow with
          | none => []
          | some value => value ::
            if m.findZero pointer argumentWindow = some true then
              argumentRanges argv (index + 1) remaining
            else []

/-- The ranges of `syscall_process_spawn`. -/
def spawnRanges (path length argv : Nat) : List UserRange :=
  match admitBytes path length 64 with
  | none => []
  | some bytes =>
    bytes :: if argv = 0 then [] else m.argumentRanges argv 0 maxArguments

/-- The ranges that the arms of `syscall_dispatch` admit, by number and
argument registers.  `reaped` says whether `reap_any_child` has found a
child. -/
def syscallRanges (reaped : Bool) (number pointer length argument : Nat) :
    List UserRange :=
  match number with
  | 1 => (admitBytes pointer length 256).toList
  | 19 => (admitBytes pointer length 64).toList
  | 20 => (admitBytesMut length argument 4096).toList
  | 21 => (admitBytes length argument 4096).toList
  | 24 => (admitBytes pointer length 64).toList
  | 25 => (admitBytesMut pointer length 64).toList
  | 26 => (admitBytesMut pointer length 64).toList
  | 28 => (admitWord pointer).toList
  | 29 => (admitWord pointer).toList
  | 31 => (admitBytesMut pointer length 4096).toList
  | 32 => (admitBytesMut length argument 16).toList
  | 33 => m.spawnRanges pointer length argument
  | 40 =>
    if reaped ∧ pointer ≠ 0 then (admitBytesMut pointer 8 8).toList else []
  | 43 => (admitBytesMut length argument 256).toList
  | 44 => (admitBytes length argument 256).toList
  | _ => []

/-- Every entry on the way from a table has these bits. -/
def allows (bits : Nat) : List Nat → Nat → Bool
  | [], _ => true
  | index :: rest, table =>
    m.words table index &&& bits == bits &&
      allows bits rest (target (m.words table index))

/-- The page is mapped writable: every entry on the way has the bit. -/
def isUserWritable (virtualAddress : Nat) : Bool :=
  m.allows writableBit
    (upperIndices virtualAddress ++ [leafIndex virtualAddress]) (target m.cr3)

end Memory

namespace UserRange

/-- All bytes of the range are mapped for user access, and writable where the
kernel writes to them, and none of them raises a fault. -/
structure Protected (m : Memory) (range : UserRange) : Prop where
  mapped : ∀ address, range.pointer ≤ address →
    address < range.pointer + range.length → m.isUserMapped address = true
  writable : range.output = true → ∀ address, range.pointer ≤ address →
    address < range.pointer + range.length → m.isUserWritable address = true
  noFault : ∀ address, range.pointer ≤ address →
    address < range.pointer + range.length → (m.translate address).isSome

end UserRange

/-! ## What a call needs -/

/-- The arithmetic of `user_bytes`. -/
def Admitted (pointer length maximum : Nat) : Prop :=
  futureUserSpaceBase ≤ pointer ∧ pointer + length ≤ userSpaceEnd ∧ length ≤ maximum

namespace Memory

variable (m : Memory)

/-- The pages that these bytes lie in are mapped for user access, and writable
if the kernel writes. -/
def Backs (pointer length : Nat) (output : Bool) : Prop :=
  0 < length → ∀ page, page * pageSize < pointer + length → pointer < (page + 1) * pageSize →
    m.isUserMapped (page * pageSize) = true ∧
      (output = true → m.isUserWritable (page * pageSize) = true)

/-- The caller backs the buffer that it names, if the arithmetic lets it pass. -/
def BacksBuffer (pointer length maximum : Nat) (output : Bool) : Prop :=
  Admitted pointer length maximum → m.Backs pointer length output

/-- The kernel follows the pointer at `index` of `argv` and goes on to the
next one. -/
def PassesArgument (argv index : Nat) : Prop :=
  Admitted (argv + index * 8) 8 8 ∧ ∃ pointer, m.loadWord (argv + index * 8) = some pointer ∧
    pointer ≠ 0 ∧ Admitted pointer argumentWindow argumentWindow ∧
    m.findZero pointer argumentWindow = some true

/-- The caller backs the pointer at `index` of `argv`, and the window behind it. -/
def BacksArgument (argv index : Nat) : Prop :=
  Admitted (argv + index * 8) 8 8 →
    m.Backs (argv + index * 8) 8 false ∧
      ∀ pointer, m.loadWord (argv + index * 8) = some pointer → pointer ≠ 0 →
        m.BacksBuffer pointer argumentWindow argumentWindow false

/-- The caller backs what `syscall_process_spawn` reads. -/
def BacksSpawn (path length argv : Nat) : Prop :=
  Admitted path length 64 → m.Backs path length false ∧
    (argv ≠ 0 → ∀ index < maxArguments, (∀ earlier < index, m.PassesArgument argv earlier) →
      m.BacksArgument argv index)

/-- The caller backs what the syscall with this number uses. -/
def BacksCall (reaped : Bool) (number pointer length argument : Nat) : Prop :=
  match number with
  | 1 => m.BacksBuffer pointer length 256 false
  | 19 | 24 => m.BacksBuffer pointer length 64 false
  | 20 => m.BacksBuffer length argument 4096 true
  | 21 => m.BacksBuffer length argument 4096 false
  | 25 | 26 => m.BacksBuffer pointer length 64 true
  | 28 | 29 => pointer % 4 = 0 → m.BacksBuffer pointer 4 4 false
  | 31 => m.BacksBuffer pointer length 4096 true
  | 32 => m.BacksBuffer length argument 16 true
  | 33 => m.BacksSpawn pointer length argument
  | 40 => reaped = true → pointer ≠ 0 → m.BacksBuffer pointer 8 8 true
  | 43 => m.BacksBuffer length argument 256 true
  | 44 => m.BacksBuffer length argument 256 false
  | _ => True

/-- There is no page in user space that the caller has not mapped writable. -/
def FullyMapped : Prop :=
  ∀ v, InUserSpace v → v % pageSize = 0 → m.isUserMapped v = true ∧ m.isUserWritable v = true

end Memory

/-! ## Pages -/

section Pages

variable {m : Memory} {v w table final : Nat} {indices : List Nat}

/-- The tables are indexed by the number of the page. -/
theorem indices_of_page (h : v / pageSize = w / pageSize) :
    upperIndices v = upperIndices w ∧ leafIndex v = leafIndex w := by
  have hpage : pageSize = 4096 := rfl
  rw [hpage] at h
  unfold upperIndices leafIndex
  simp only [index_eq, List.cons.injEq, and_true]
  omega

theorem inUserSpace_of_page (h : v / pageSize = w / pageSize) :
    InUserSpace v ↔ InUserSpace w := by
  have hpage : pageSize = 4096 := rfl
  have hbase : futureUserSpaceBase = 4096 * 262144 := by decide
  have hend : userSpaceEnd = 4096 * 34359738368 := by decide
  rw [hpage] at h
  unfold InUserSpace
  omega

theorem isUserMapped_of_page (h : v / pageSize = w / pageSize)
    (hv : m.isUserMapped v = true) : m.isUserMapped w = true := by
  obtain ⟨hupper, hleaf⟩ := indices_of_page h
  have hspace := inUserSpace_of_page h
  have hsame : m.userLeaf v = m.userLeaf w := by
    by_cases hin : InUserSpace v
    · have hin' := hspace.mp hin
      unfold Memory.userLeaf
      rw [if_neg (not_or.mpr ⟨Nat.not_lt.mpr hin.1, Nat.not_le.mpr hin.2⟩),
        if_neg (not_or.mpr ⟨Nat.not_lt.mpr hin'.1, Nat.not_le.mpr hin'.2⟩),
        hupper, hleaf]
    · rw [userLeaf_outside hin, userLeaf_outside (mt hspace.mpr hin)]
  unfold Memory.isUserMapped at hv ⊢
  rw [← hsame]
  exact hv

theorem isUserWritable_of_page (h : v / pageSize = w / pageSize)
    (hv : m.isUserWritable v = true) : m.isUserWritable w = true := by
  obtain ⟨hupper, hleaf⟩ := indices_of_page h
  unfold Memory.isUserWritable at hv ⊢
  rw [← hupper, ← hleaf]
  exact hv

/-- The walk of the queries is a walk of the kernel. -/
theorem walk_of_userWalk (h : m.userWalk indices table = some final) :
    m.walk indices table = some final := by
  induction indices generalizing table with
  | nil => exact h
  | cons index indices ih =>
    unfold Memory.userWalk at h
    dsimp only at h
    split at h
    · cases h
    · rename_i huser
      obtain ⟨hp, hh⟩ := of_userLink (not_not.mp huser)
      unfold Memory.walk
      dsimp only
      rw [if_neg (not_or.mpr ⟨not_not.mpr hp, hh⟩)]
      exact ih h

/-- A page that is mapped for user access has a translation. -/
theorem translate_of_isUserMapped (h : m.isUserMapped v = true) :
    (m.translate v).isSome := by
  unfold Memory.isUserMapped at h
  cases hleaf : m.userLeaf v with
  | none =>
    rw [hleaf] at h
    cases h
  | some leaf =>
    rw [hleaf] at h
    unfold Memory.userLeaf at hleaf
    split at hleaf
    · cases hleaf
    · obtain ⟨table, hwalk, hentry⟩ := Option.map_eq_some_iff.mp hleaf
      have hp : Present leaf := UserLeaf.present (eq_of_beq h)
      have hlookup : m.lookup m.cr3 v = some leaf := by
        unfold Memory.lookup
        rw [walk_of_userWalk hwalk, Option.bind_some, hentry]
        exact if_pos hp
      unfold Memory.translate
      rw [translateIn_of_lookup hlookup]
      rfl

end Pages

/-! ## Ranges -/

section Ranges

variable {m : Memory} {pointer length maximum : Nat} {output : Bool}

theorem userBytes_iff : userBytes pointer length maximum = true ↔
    Admitted pointer length maximum := by
  have hend : userSpaceEnd < 2 ^ 64 := by decide
  unfold userBytes Admitted
  simp only [Bool.and_eq_true, decide_eq_true_eq, and_assoc]
  omega

theorem validUserWord_iff : validUserWord pointer = true ↔
    pointer % 4 = 0 ∧ Admitted pointer 4 4 := by
  unfold validUserWord Admitted
  simp only [Bool.and_eq_true, decide_eq_true_eq, beq_iff_eq, and_assoc, Nat.le_refl, and_true]

/-- A range is protected when its pages are. -/
theorem protected_iff :
    UserRange.Protected m ⟨pointer, length, output⟩ ↔ m.Backs pointer length output := by
  have hsize : pageSize = 4096 := rfl
  constructor
  · intro h hpos page hlo hhi
    -- The first byte of the range that lies in the page.
    have hsame : max pointer (page * pageSize) / pageSize = page * pageSize / pageSize := by
      rw [hsize] at *
      omega
    have hin : pointer ≤ max pointer (page * pageSize) ∧
        max pointer (page * pageSize) < pointer + length := by
      omega
    refine ⟨isUserMapped_of_page hsame (h.mapped _ hin.1 hin.2), fun hout => ?_⟩
    exact isUserWritable_of_page hsame (h.writable hout _ hin.1 hin.2)
  · intro h
    have hpages : ∀ address, pointer ≤ address → address < pointer + length →
        m.isUserMapped (address / pageSize * pageSize) = true ∧
          (output = true → m.isUserWritable (address / pageSize * pageSize) = true) := by
      intro address hlo hhi
      apply h (by omega) <;>
        · rw [hsize]
          omega
    have hsame : ∀ address, address / pageSize * pageSize / pageSize = address / pageSize :=
      fun address => Nat.mul_div_cancel _ (by decide)
    have hmapped : ∀ address, pointer ≤ address → address < pointer + length →
        m.isUserMapped address = true := by
      intro address hlo hhi
      exact isUserMapped_of_page (hsame address) (hpages address hlo hhi).1
    refine ⟨hmapped, fun hout address hlo hhi => ?_, fun address hlo hhi => ?_⟩
    · exact isUserWritable_of_page (hsame address) ((hpages address hlo hhi).2 hout)
    · exact translate_of_isUserMapped (hmapped address hlo hhi)

/-- A check that passes a range by its bounds. -/
theorem forall_admitted (m : Memory) (pointer length maximum : Nat) (output : Bool) :
    (∀ range ∈ (if userBytes pointer length maximum then
        some (⟨pointer, length, output⟩ : UserRange) else none).toList, range.Protected m) ↔
      m.BacksBuffer pointer length maximum output := by
  unfold Memory.BacksBuffer
  split
  · rename_i hadmitted
    rw [Option.toList_some, List.forall_mem_singleton, protected_iff]
    exact (imp_iff_right (userBytes_iff.mp hadmitted)).symm
  · rename_i hrefused
    rw [Option.toList_none]
    exact ⟨fun _ h => absurd (userBytes_iff.mpr h) hrefused, fun _ _ h => nomatch h⟩

theorem forall_admitBytes (m : Memory) (pointer length maximum : Nat) :
    (∀ range ∈ (admitBytes pointer length maximum).toList, range.Protected m) ↔
      m.BacksBuffer pointer length maximum false :=
  forall_admitted m pointer length maximum false

theorem forall_admitBytesMut (m : Memory) (pointer length maximum : Nat) :
    (∀ range ∈ (admitBytesMut pointer length maximum).toList, range.Protected m) ↔
      m.BacksBuffer pointer length maximum true := by
  unfold admitBytesMut admitBytes
  rw [apply_ite (Option.map _)]
  exact forall_admitted m pointer length maximum true

theorem forall_admitWord (m : Memory) (address : Nat) :
    (∀ range ∈ (admitWord address).toList, range.Protected m) ↔
      (address % 4 = 0 → m.BacksBuffer address 4 4 false) := by
  unfold admitWord Memory.BacksBuffer
  split
  · rename_i hvalid
    obtain ⟨haligned, hadmitted⟩ := validUserWord_iff.mp hvalid
    rw [Option.toList_some, List.forall_mem_singleton, protected_iff]
    exact ⟨fun h _ _ => h, fun h => h haligned hadmitted⟩
  · rename_i hrefused
    rw [Option.toList_none]
    exact ⟨fun _ haligned h => absurd (validUserWord_iff.mpr ⟨haligned, h⟩) hrefused,
      fun _ _ h => nomatch h⟩

/-- The turns of a loop from `index` on that it comes to, by its first turn. -/
theorem forall_turns_succ {passes sound : Nat → Prop} {index remaining : Nat} :
    (∀ turn < remaining + 1, (∀ earlier < turn, passes (index + earlier)) →
        sound (index + turn)) ↔
      sound index ∧ (passes index → ∀ turn < remaining,
        (∀ earlier < turn, passes (index + 1 + earlier)) → sound (index + 1 + turn)) := by
  have hshift : ∀ turn, index + (turn + 1) = index + 1 + turn := by
    intro turn
    omega
  constructor
  · intro h
    refine ⟨h 0 (Nat.zero_lt_succ _) fun earlier hlt => absurd hlt (Nat.not_lt_zero _),
      fun hpass turn hturn hearlier => ?_⟩
    rw [← hshift]
    apply h (turn + 1) (Nat.succ_lt_succ hturn)
    intro earlier hlt
    cases earlier with
    | zero => exact hpass
    | succ earlier =>
      rw [hshift]
      exact hearlier earlier (Nat.lt_of_succ_lt_succ hlt)
  · intro ⟨hfirst, hrest⟩ turn hturn hearlier
    cases turn with
    | zero => exact hfirst
    | succ turn =>
      rw [hshift]
      apply hrest (hearlier 0 (Nat.zero_lt_succ _)) turn (Nat.lt_of_succ_lt_succ hturn)
      intro earlier hlt
      rw [← hshift]
      exact hearlier (earlier + 1) (Nat.succ_lt_succ hlt)

/-- The loop over `argv` from `index` on: what it reads is backed if each
pointer that it comes to is. -/
theorem forall_argumentRanges (m : Memory) (argv index remaining : Nat) :
    (∀ range ∈ m.argumentRanges argv index remaining, range.Protected m) ↔
      ∀ turn < remaining, (∀ earlier < turn, m.PassesArgument argv (index + earlier)) →
        m.BacksArgument argv (index + turn) := by
  induction remaining generalizing index with
  | zero =>
    unfold Memory.argumentRanges
    exact ⟨fun _ turn hturn => absurd hturn (Nat.not_lt_zero turn), fun _ _ h => nomatch h⟩
  | succ remaining ih =>
    rw [@forall_turns_succ (m.PassesArgument argv) (m.BacksArgument argv), ← ih (index + 1),
      Memory.argumentRanges]
    unfold admitBytes
    by_cases hword : userBytes (argv + index * 8) 8 8 = true
    · have hadmitted := userBytes_iff.mp hword
      rw [if_pos hword]
      dsimp only
      rw [List.forall_mem_cons, protected_iff]
      unfold Memory.BacksArgument Memory.PassesArgument
      rw [forall_prop_of_true hadmitted, and_iff_right hadmitted, and_assoc]
      apply and_congr_right
      intro _
      cases hload : m.loadWord (argv + index * 8) with
      | none => simp
      | some value =>
        dsimp only
        by_cases hzero : value = 0
        · simp [hzero]
        · rw [if_neg hzero]
          by_cases hwindow : userBytes value argumentWindow argumentWindow = true
          · have hvalue := userBytes_iff.mp hwindow
            rw [if_pos hwindow]
            dsimp only
            rw [List.forall_mem_cons, protected_iff]
            unfold Memory.BacksBuffer
            by_cases hfind : m.findZero value argumentWindow = some true
            · simp [hzero, hvalue, hfind]
            · simp [hzero, hvalue, hfind]
          · have hvalue := mt userBytes_iff.mpr hwindow
            rw [if_neg hwindow]
            unfold Memory.BacksBuffer
            simp [hvalue]
    · have hrefused := mt userBytes_iff.mpr hword
      rw [if_neg hword]
      unfold Memory.BacksArgument Memory.PassesArgument
      simp [hrefused]

theorem forall_spawnRanges (m : Memory) (path length argv : Nat) :
    (∀ range ∈ m.spawnRanges path length argv, range.Protected m) ↔
      m.BacksSpawn path length argv := by
  unfold Memory.spawnRanges admitBytes Memory.BacksSpawn
  by_cases hpath : userBytes path length 64 = true
  · rw [if_pos hpath, forall_prop_of_true (userBytes_iff.mp hpath)]
    dsimp only
    rw [List.forall_mem_cons, protected_iff]
    apply and_congr_right
    intro _
    split
    · rename_i hnull
      exact ⟨fun _ hne => absurd hnull hne, fun _ _ h => nomatch h⟩
    · rename_i hargv
      rw [forall_argumentRanges, forall_prop_of_true hargv]
      simp only [Nat.zero_add]
  · rw [if_neg hpath]
    exact ⟨fun _ h => absurd (userBytes_iff.mpr h) hpath, fun _ _ h => nomatch h⟩

theorem backsBuffer_of_fullyMapped (h : m.FullyMapped) (pointer length maximum : Nat)
    (output : Bool) : m.BacksBuffer pointer length maximum output := by
  have hsize : pageSize = 4096 := rfl
  have hbase : futureUserSpaceBase = 4096 * 262144 := by decide
  intro ⟨hlo, hhi, _⟩ _ page hstart hend
  have hpage : InUserSpace (page * pageSize) := by
    unfold InUserSpace
    rw [hsize] at *
    omega
  obtain ⟨hmapped, hwritable⟩ := h _ hpage (Nat.mul_mod_left _ _)
  exact ⟨hmapped, fun _ => hwritable⟩

end Ranges

/-- The ranges that a syscall admits are protected if and only if the caller
backs what the call names and what the kernel finds through it. -/
theorem forall_syscallRanges (m : Memory) (reaped : Bool)
    (number pointer length argument : Nat) :
    (∀ range ∈ m.syscallRanges reaped number pointer length argument, range.Protected m) ↔
      m.BacksCall reaped number pointer length argument := by
  unfold Memory.syscallRanges Memory.BacksCall
  split
  · exact forall_admitBytes ..
  · exact forall_admitBytes ..
  · exact forall_admitBytesMut ..
  · exact forall_admitBytes ..
  · exact forall_admitBytes ..
  · exact forall_admitBytesMut ..
  · exact forall_admitBytesMut ..
  · exact forall_admitWord ..
  · exact forall_admitWord ..
  · exact forall_admitBytesMut ..
  · exact forall_admitBytesMut ..
  · exact forall_spawnRanges ..
  · split
    · rename_i h
      rw [forall_admitBytesMut]
      exact ⟨fun hb _ _ => hb, fun hb => hb h.1 h.2⟩
    · rename_i h
      exact ⟨fun _ hreaped hne => absurd ⟨hreaped, hne⟩ h, fun _ _ hmem => nomatch hmem⟩
  · exact forall_admitBytesMut ..
  · exact forall_admitBytes ..
  · simp

theorem backsCall_of_fullyMapped {m : Memory} (h : m.FullyMapped) (reaped : Bool)
    (number pointer length argument : Nat) :
    m.BacksCall reaped number pointer length argument := by
  have hbuffer : ∀ pointer length maximum output,
      m.BacksBuffer pointer length maximum output := backsBuffer_of_fullyMapped h
  unfold Memory.BacksCall
  split
  · exact hbuffer _ _ _ _
  · exact hbuffer _ _ _ _
  · exact hbuffer _ _ _ _
  · exact hbuffer _ _ _ _
  · exact hbuffer _ _ _ _
  · exact hbuffer _ _ _ _
  · exact hbuffer _ _ _ _
  · intro _
    exact hbuffer _ _ _ _
  · intro _
    exact hbuffer _ _ _ _
  · exact hbuffer _ _ _ _
  · exact hbuffer _ _ _ _
  · intro hpath
    refine ⟨hbuffer _ _ 64 _ hpath, fun _ index _ _ hword => ?_⟩
    exact ⟨hbuffer _ _ 8 _ hword, fun pointer _ _ => hbuffer _ _ _ _⟩
  · intro _ _
    exact hbuffer _ _ _ _
  · exact hbuffer _ _ _ _
  · exact hbuffer _ _ _ _
  · trivial

/-- What each call needs to be safe, and what the page tables need for every
call to be. -/
theorem user_ranges_protected (m : Memory) :
    (∀ reaped number pointer length argument,
      (∀ range ∈ m.syscallRanges reaped number pointer length argument, range.Protected m) ↔
        m.BacksCall reaped number pointer length argument) ∧
    ((∀ reaped number pointer length argument,
      ∀ range ∈ m.syscallRanges reaped number pointer length argument, range.Protected m) ↔
        m.FullyMapped) := by
  refine ⟨forall_syscallRanges m, fun h v hv haligned => ?_, fun h => ?_⟩
  · -- `getcwd` with one byte of the page as its buffer
    have hcall := (forall_syscallRanges m false 25 v 1 0).mp (h false 25 v 1 0)
    have hbacks : m.Backs v 1 true := hcall ⟨hv.1, hv.2, by decide⟩
    have hsize : pageSize = 4096 := rfl
    have hpage : v / pageSize * pageSize = v :=
      Nat.div_mul_cancel (Nat.dvd_of_mod_eq_zero haligned)
    have hbyte := hbacks Nat.one_pos (v / pageSize) (by omega) (by rw [hsize]; omega)
    rw [hpage] at hbyte
    exact ⟨hbyte.1, hbyte.2 rfl⟩
  · intro reaped number pointer length argument
    apply (forall_syscallRanges m reaped number pointer length argument).mpr
    exact backsCall_of_fullyMapped h reaped number pointer length argument

/-- A table that leads back to itself with every entry. -/
def loopMemory : Memory :=
  { frames :=
      { frameBitmap := { bytes := 2 ^ 256 - 1 }
        allocatedBitmap := { bytes := 0 }
        freeFrames := maxPhysicalFrames - 256 }
    words := fun _ _ => 0x1007
    cr3 := 0x1000
    physicalMemoryOffset := 0 }

/-- There are page tables for which every call is safe. -/
theorem user_ranges_protected_loop :
    (∀ reaped number pointer length argument,
      ∀ range ∈ loopMemory.syscallRanges reaped number pointer length argument,
        range.Protected loopMemory) := by
  apply (user_ranges_protected loopMemory).2.mpr
  intro v hv _
  have hmapped : loopMemory.isUserMapped v = true := by
    unfold Memory.isUserMapped Memory.userLeaf
    rw [if_neg (not_or.mpr ⟨Nat.not_lt.mpr hv.1, Nat.not_le.mpr hv.2⟩)]
    simp [upperIndices, Memory.userWalk, loopMemory, presentBit, userBit, hugePageBit]
  refine ⟨hmapped, ?_⟩
  simp [Memory.isUserWritable, upperIndices, Memory.allows, loopMemory, writableBit]

set_option maxRecDepth 100000 in
/-- PID 1 writes a byte from a page that it has not mapped. -/
theorem user_range_unmapped : ∃ k, ReachedFrom plainMemory Always k ∧
    (k.threads k.currentThread).isUser = true ∧
    ¬ ∀ range ∈ k.memory.syscallRanges false 1 0x5000_0000 1 0,
      range.Protected k.memory := by
  have hrun : ((boot plainMemory smallImage).bind (exec step Always
      [.resume])).any fun k => (k.threads k.currentThread).isUser &&
        (k.memory.translate 0x5000_0000).isNone := by
    decide +kernel
  obtain ⟨k, hk, hfound⟩ := ReachedFrom.of_exec hrun
  obtain ⟨huser, hnone⟩ := Bool.and_eq_true_iff.mp hfound
  refine ⟨k, hk, huser, fun h => ?_⟩
  have hrange : (⟨0x5000_0000, 1, false⟩ : UserRange) ∈
      k.memory.syscallRanges false 1 0x5000_0000 1 0 := by
    show _ ∈ (admitBytes 0x5000_0000 1 256).toList
    decide
  have hsome := (h _ hrange).noFault 0x5000_0000 le_rfl (by decide)
  rw [Option.isNone_iff_eq_none.mp hnone] at hsome
  cases hsome

end OpenKernel
