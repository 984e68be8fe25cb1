import OpenKernel.Memory.BootFrames
import OpenKernel.Memory.KernelMappings

/-!
# The Multiboot2 bootstrap

The 32-bit code at `_start` builds page tables in `.bss` and turns on long
mode; `kernel_main` then hands the memory map to the allocator.  Wherever the
linker puts the tables and whatever the memory map says, the kernel gets what
its address spaces rely on (`bootstrapped`).

The first half runs the two loops of the code over memory as 32-bit code sees
it, dword by dword.  The second half reads the result as the processor does in
long mode, in words of two dwords.
-/

namespace OpenKernel

open Lib

/-- Memory in dwords, by their addresses. -/
abbrev Dwords := Nat → UInt32

/-! ## The code -/

/-- `rep stosl`. -/
def repStosl : Nat → Nat → UInt32 → Dwords → Dwords
  | 0, _, _, memory => memory
  | ecx + 1, edi, eax, memory => repStosl ecx (edi + 4) eax (put memory edi eax)

/-- The loop at `1:`, which writes an entry for a large page in each turn. -/
def mapPages : Nat → Nat → UInt32 → Dwords → Dwords
  | 0, _, _, memory => memory
  | ecx + 1, edi, eax, memory => mapPages ecx (edi + 8) (eax + 0x20_0000) (put memory edi eax)

/-- What `_start` does to memory.  `p3_table` and `p2_tables` follow `p4_table`. -/
def startTables (p4Table : Nat) (memory : Dwords) : Dwords :=
  let p3Table := p4Table + 4096
  let p2Tables := p3Table + 4096
  let memory := repStosl 3072 p4Table 0 memory
  let memory := put memory p4Table (UInt32.ofNat p3Table ||| 0x3)
  let eax := UInt32.ofNat p2Tables ||| 0x3
  let memory := put memory p3Table eax
  let eax := eax + 0x1000
  let memory := put memory (p3Table + 8) eax
  let eax := eax + 0x1000
  let memory := put memory (p3Table + 16) eax
  let eax := eax + 0x1000
  let memory := put memory (p3Table + 24) eax
  mapPages 2048 p2Tables 0x83 memory

/-- A word is two dwords. -/
def wordsOf (memory : Dwords) (frame index : Nat) : Nat :=
  (memory (frame + 8 * index)).toNat + 2 ^ 32 * (memory (frame + 8 * index + 4)).toNat

/-- The memory when `kernel_main` calls `initialize_virtual_memory`. -/
def multiboot2Memory (p4Table kernelStart kernelEnd : Nat) (memory : Dwords)
    (regions : List MemoryRegion) (modules : List PhysicalMemoryRange) : Memory :=
  { frames := .initializePhysicalMemory regions
      ({ base := kernelStart, length := kernelEnd - kernelStart } :: modules)
    words := wordsOf (startTables p4Table memory)
    cr3 := p4Table
    physicalMemoryOffset := 0 }

/-- The six tables lie in the `.bss` of the kernel, which the boot loader has
zeroed. -/
structure BssTables (p4Table kernelStart kernelEnd : Nat) (memory : Dwords) : Prop where
  aligned : p4Table % pageSize = 0
  after : kernelStart ≤ p4Table
  before : p4Table + 6 * pageSize ≤ kernelEnd
  below : kernelEnd ≤ maxPhysicalAddress
  zeroed : ∀ address, p4Table ≤ address → address < p4Table + 6 * pageSize → memory address = 0

/-! ## The loops -/

theorem repStosl_apply (ecx edi : Nat) (eax : UInt32) (memory : Dwords) (address : Nat) :
    repStosl ecx edi eax memory address =
      if edi ≤ address ∧ address < edi + 4 * ecx ∧ (address - edi) % 4 = 0 then eax
      else memory address := by
  induction ecx generalizing edi memory with
  | zero => rw [repStosl, if_neg (by omega)]
  | succ ecx ih =>
    rw [repStosl, ih, put_apply]
    by_cases hfirst : address = edi
    · rw [if_neg (by omega), if_pos hfirst, if_pos (by omega)]
    · rw [if_neg hfirst]
      congr 1
      apply propext
      omega

theorem mapPages_apply (ecx edi : Nat) (eax : UInt32) (memory : Dwords) (address : Nat) :
    mapPages ecx edi eax memory address =
      if edi ≤ address ∧ address < edi + 8 * ecx ∧ (address - edi) % 8 = 0 then
        eax + UInt32.ofNat ((address - edi) / 8) * 0x20_0000
      else memory address := by
  induction ecx generalizing edi eax memory with
  | zero => rw [mapPages, if_neg (by omega)]
  | succ ecx ih =>
    rw [mapPages, ih, put_apply]
    by_cases hfirst : address = edi
    · rw [if_neg (by omega), if_pos hfirst, if_pos (by omega), hfirst, Nat.sub_self]
      simp
    · rw [if_neg hfirst]
      by_cases hlater : edi + 8 ≤ address ∧ address < edi + 8 + 8 * ecx ∧
          (address - (edi + 8)) % 8 = 0
      · have hcount : (address - edi) / 8 = 1 + (address - (edi + 8)) / 8 := by omega
        rw [if_pos hlater, if_pos (by omega), hcount, UInt32.ofNat_add, UInt32.add_mul]
        rw [← UInt32.add_assoc]
        rfl
      · rw [if_neg hlater, if_neg (by omega)]

/-! ## The tables -/

section Tables

variable {p4Table kernelStart kernelEnd : Nat} {memory : Dwords}

theorem startTables_root (p4Table : Nat) (memory : Dwords) :
    startTables p4Table memory p4Table = UInt32.ofNat (p4Table + 4096) ||| 0x3 := by
  unfold startTables
  rw [mapPages_apply, if_neg (by omega)]
  simp only [put_apply]
  rw [if_neg (by omega), if_neg (by omega), if_neg (by omega), if_neg (by omega), if_pos trivial]

theorem startTables_link (p4Table : Nat) (memory : Dwords) {index : Nat} (hindex : index < 4) :
    startTables p4Table memory (p4Table + 4096 + 8 * index) =
      (UInt32.ofNat (p4Table + 4096 + 4096) ||| 0x3) + UInt32.ofNat index * 0x1000 := by
  unfold startTables
  rw [mapPages_apply, if_neg (by omega)]
  simp only [put_apply]
  generalize UInt32.ofNat (p4Table + 4096 + 4096) ||| 0x3 = eax
  match index, hindex with
  | 0, _ =>
    rw [if_neg (by omega), if_neg (by omega), if_neg (by omega), if_pos (by omega)]
    simp
  | 1, _ =>
    rw [if_neg (by omega), if_neg (by omega), if_pos (by omega)]
    rfl
  | 2, _ =>
    rw [if_neg (by omega), if_pos (by omega), UInt32.add_assoc]
    rfl
  | 3, _ =>
    rw [if_pos (by omega), UInt32.add_assoc, UInt32.add_assoc]
    rfl

theorem startTables_page (p4Table : Nat) (memory : Dwords) {page : Nat} (hpage : page < 2048) :
    startTables p4Table memory (p4Table + 2 * 4096 + 8 * page) =
      0x83 + UInt32.ofNat page * 0x20_0000 := by
  unfold startTables
  rw [mapPages_apply, if_pos (by omega),
    show (p4Table + 2 * 4096 + 8 * page - (p4Table + 4096 + 4096)) / 8 = page by omega]

/-- The rest of the tables is as the boot loader has left it. -/
theorem startTables_zero (h : BssTables p4Table kernelStart kernelEnd memory) {address : Nat}
    (hlo : p4Table ≤ address) (hhi : address < p4Table + 0x6000) (hroot : address ≠ p4Table)
    (hlink : ∀ index < 4, address ≠ p4Table + 4096 + 8 * index)
    (hpage : p4Table + 2 * 4096 ≤ address → (address - (p4Table + 2 * 4096)) % 8 ≠ 0) :
    startTables p4Table memory address = 0 := by
  have hlink₀ := hlink 0 (by decide)
  have hlink₁ := hlink 1 (by decide)
  have hlink₂ := hlink 2 (by decide)
  have hlink₃ := hlink 3 (by decide)
  unfold startTables
  rw [mapPages_apply, if_neg (by omega)]
  simp only [put_apply]
  rw [if_neg (by omega), if_neg (by omega), if_neg (by omega), if_neg (by omega), if_neg hroot,
    repStosl_apply]
  split
  · rfl
  · exact h.zeroed address hlo hhi

theorem wordsOf_eq {memory : Dwords} {frame index value : Nat}
    (hlow : (memory (frame + 8 * index)).toNat = value)
    (hhigh : memory (frame + 8 * index + 4) = 0) : wordsOf memory frame index = value := by
  unfold wordsOf
  rw [hlow, hhigh]
  rfl

/-- Flags below the lowest bit of an address. -/
theorem or_flags {address flags : Nat} (k : Nat) (haddress : address % 2 ^ k = 0)
    (hflags : flags < 2 ^ k) : address ||| flags = address + flags := by
  have hmul : 2 ^ k * (address / 2 ^ k) = address :=
    Nat.mul_div_cancel' (Nat.dvd_of_mod_eq_zero haddress)
  rw [← hmul]
  exact (Nat.two_pow_add_eq_or_of_lt hflags _).symm

theorem toNat_or_three {address : Nat} (haddress : address % 4 = 0) (hlt : address < 2 ^ 32) :
    (UInt32.ofNat address ||| 0x3).toNat = address + 3 := by
  rw [UInt32.toNat_or, UInt32.toNat_ofNat', Nat.mod_eq_of_lt hlt]
  exact or_flags 2 haddress (by decide)

/-- The three levels. -/
structure IdentityTables (p4Table : Nat) (words : Nat → Nat → Nat) : Prop where
  root : words p4Table 0 = (p4Table + 0x1000) ||| 3
  rootRest : ∀ index, 0 < index → index < 512 → index ≠ windowEntry → words p4Table index = 0
  link : ∀ index < 4, words (p4Table + 0x1000) index =
    (p4Table + 0x2000 + index * 0x1000) ||| 3
  linkRest : ∀ index, 4 ≤ index → index < 512 → words (p4Table + 0x1000) index = 0
  page : ∀ page < 2048, words (p4Table + 0x2000 + page / 512 * 0x1000) (page % 512) =
    page * 0x20_0000 ||| 0x83

theorem BssTables.root_zero (h : BssTables p4Table kernelStart kernelEnd memory) {index : Nat}
    (hpos : 0 < index) (hlt : index < 512) :
    wordsOf (startTables p4Table memory) p4Table index = 0 := by
  apply wordsOf_eq
  · rw [startTables_zero h (by omega) (by omega) (by omega) (by omega) (by omega)]
    rfl
  · apply startTables_zero h <;> omega

/-- What the code leaves in `.bss`. -/
theorem BssTables.identityTables (h : BssTables p4Table kernelStart kernelEnd memory) :
    IdentityTables p4Table (wordsOf (startTables p4Table memory)) := by
  have hbelow : p4Table + 0x6000 ≤ 2 ^ 32 := Nat.le_trans h.before h.below
  have haligned : p4Table % 0x1000 = 0 := h.aligned
  refine ⟨?_, ?_, ?_, ?_, ?_⟩
  · apply wordsOf_eq
    · rw [Nat.mul_zero, Nat.add_zero, startTables_root]
      rw [toNat_or_three (by omega) (by omega)]
      exact (or_flags 2 (by omega) (by decide)).symm
    · apply startTables_zero h <;> omega
  · intro index hpos hlt _
    exact h.root_zero hpos hlt
  · intro index hindex
    apply wordsOf_eq
    · rw [startTables_link _ _ hindex, UInt32.toNat_add, UInt32.toNat_mul]
      rw [toNat_or_three (by omega) (by omega), UInt32.toNat_ofNat']
      rw [or_flags 2 (by omega) (by decide)]
      show (_ + index % 2 ^ 32 * 4096 % 2 ^ 32) % 2 ^ 32 = _
      omega
    · apply startTables_zero h <;> omega
  · intro index hpos hlt
    apply wordsOf_eq
    · rw [startTables_zero h (by omega) (by omega) (by omega) (by omega) (by omega)]
      rfl
    · apply startTables_zero h <;> omega
  · intro page hpage
    apply wordsOf_eq
    · rw [show p4Table + 0x2000 + page / 512 * 0x1000 + 8 * (page % 512) =
        p4Table + 2 * 4096 + 8 * page by omega]
      rw [startTables_page _ _ hpage, UInt32.toNat_add, UInt32.toNat_mul, UInt32.toNat_ofNat']
      rw [or_flags 21 (by omega) (by decide)]
      show (131 + page % 2 ^ 32 * 2097152 % 2 ^ 32) % 2 ^ 32 = _
      omega
    · apply startTables_zero h <;> omega

end Tables

/-! ## What the processor makes of them -/

section Translation

variable {p4Table v : Nat} {m : Memory}

/-- A link to a table of the kernel. -/
theorem link_entry {t : Nat} (haligned : t % pageSize = 0) (hlt : t < 2 ^ 52) :
    Present (t ||| 3) ∧ ¬ Huge (t ||| 3) ∧ target (t ||| 3) = t := by
  have htarget := target_of_aligned haligned hlt
  unfold Present Huge
  rw [or_and_of_target htarget (by decide), or_and_of_target htarget (by decide),
    target_or htarget (by decide)]
  exact ⟨by decide, by decide, rfl⟩

theorem IdentityTables.translate (h : IdentityTables p4Table m.words)
    (hcr3 : target m.cr3 = p4Table) (haligned : p4Table % pageSize = 0)
    (hbelow : p4Table + 6 * pageSize ≤ maxPhysicalAddress) (hv : v < maxPhysicalAddress) :
    m.translate v = some v := by
  have hsize : pageSize = 0x1000 := rfl
  have hmax : maxPhysicalAddress = 2 ^ 32 := rfl
  rw [hsize] at haligned hbelow
  rw [hmax] at hbelow hv
  have h39 : (v >>> 39) &&& 0x1FF = 0 := by
    rw [index_eq]
    omega
  have h30 : (v >>> 30) &&& 0x1FF = v / 2 ^ 30 := by
    rw [index_eq]
    omega
  have h21 : (v >>> 21) &&& 0x1FF = v / 2 ^ 21 % 512 := index_eq v 21
  obtain ⟨hpresent, hopen, htarget⟩ :=
    link_entry (t := p4Table + 0x1000) (by rw [hsize]; omega) (by omega)
  obtain ⟨hpresent', hopen', htarget'⟩ :=
    link_entry (t := p4Table + 0x2000 + v / 2 ^ 30 * 0x1000) (by rw [hsize]; omega) (by omega)
  have hlink := h.link (v / 2 ^ 30) (by omega)
  have hpage := h.page (v / 2 ^ 21) (by omega)
  rw [show v / 2 ^ 21 / 512 = v / 2 ^ 30 by omega] at hpage
  obtain ⟨hlarge, hhuge, hbase⟩ := largePage_bootstrap (x := v / 2 ^ 21) (by omega)
  have hsplit : v / 2 ^ 21 * 0x20_0000 + v % 2 ^ 21 = v := by omega
  unfold Memory.translate Memory.translateIn
  rw [hcr3, translateFrom_link (by rw [h39, h.root]; exact hpresent)
    (by rw [h39, h.root]; exact hopen), h39, h.root, htarget]
  rw [translateFrom_link (by rw [h30, hlink]; exact hpresent')
    (by rw [h30, hlink]; exact hopen'), h30, hlink, htarget']
  rw [translateFrom_largePage (by rw [h21, hpage]; exact hlarge)
    (by rw [h21, hpage]; exact hhuge), h21, hpage, hbase, hsplit]

/-- The rest of the user half. -/
theorem IdentityTables.translate_none (h : IdentityTables p4Table m.words)
    (hcr3 : target m.cr3 = p4Table) (haligned : p4Table % pageSize = 0)
    (hbelow : p4Table + 6 * pageSize ≤ maxPhysicalAddress) (hlo : maxPhysicalAddress ≤ v)
    (hhi : v < userSpaceEnd) : m.translate v = none := by
  have hsize : pageSize = 0x1000 := rfl
  have hmax : maxPhysicalAddress = 2 ^ 32 := rfl
  have hend : userSpaceEnd = 2 ^ 47 := rfl
  have hentry : windowEntry = 510 := rfl
  rw [hsize] at haligned hbelow
  rw [hmax] at hbelow hlo
  rw [hend] at hhi
  unfold Memory.translate Memory.translateIn
  rw [hcr3]
  by_cases hfirst : v / 2 ^ 39 = 0
  · have h39 : (v >>> 39) &&& 0x1FF = 0 := by
      rw [index_eq]
      omega
    obtain ⟨hpresent, hopen, htarget⟩ :=
      link_entry (t := p4Table + 0x1000) (by rw [hsize]; omega) (by omega)
    rw [translateFrom_link (by rw [h39, h.root]; exact hpresent)
      (by rw [h39, h.root]; exact hopen), h39, h.root, htarget]
    apply translateFrom_absent
    rw [index_eq, h.linkRest _ (by omega) (by omega)]
    exact not_present_zero
  · apply translateFrom_absent
    rw [index_eq, h.rootRest _ (by omega) (by omega) (by omega)]
    exact not_present_zero

/-- No page is a user's. -/
theorem IdentityTables.userLeaf (h : IdentityTables p4Table m.words)
    (hcr3 : target m.cr3 = p4Table) (haligned : p4Table % pageSize = 0)
    (hbelow : p4Table + 6 * pageSize ≤ maxPhysicalAddress) (v : Nat) : m.userLeaf v = none := by
  have hsize : pageSize = 0x1000 := rfl
  have hmax : maxPhysicalAddress = 2 ^ 32 := rfl
  have hend : userSpaceEnd = 2 ^ 47 := rfl
  have hentry : windowEntry = 510 := rfl
  rw [hsize] at haligned hbelow
  rw [hmax] at hbelow
  by_cases hv : InUserSpace v
  · obtain ⟨-, hhi⟩ := hv
    have hroot : m.words p4Table (v / 2 ^ 39 % 512) &&&
        (presentBit ||| userBit ||| hugePageBit) ≠ presentBit ||| userBit := by
      by_cases hfirst : v / 2 ^ 39 = 0
      · have htarget : target (p4Table + 0x1000) = p4Table + 0x1000 :=
          target_of_aligned (by rw [hsize]; omega) (by omega)
        rw [hfirst, h.root, or_and_of_target htarget (by decide)]
        decide
      · rw [h.rootRest _ (by omega) (by omega) (by omega), Nat.zero_and]
        decide
    unfold Memory.userLeaf
    split
    · rfl
    · rw [hcr3]
      unfold upperIndices Memory.userWalk
      rw [index_eq]
      dsimp only
      rw [if_pos hroot]
      rfl
  · apply if_pos
    unfold InUserSpace at hv
    omega

end Translation

/-! ## The start of the kernel -/

/-- Virtual addresses of the user half are physical ones, for the kernel. -/
structure IdentityMapped (m : Memory) : Prop where
  below : ∀ v < maxPhysicalAddress, m.translate v = some v
  above : ∀ v, maxPhysicalAddress ≤ v → v < userSpaceEnd → m.translate v = none
  noUser : ∀ v, m.userLeaf v = none

section Start

variable {p4Table kernelStart kernelEnd : Nat} {memory : Dwords} {m : Memory}

theorem IdentityTables.identityMapped (h : IdentityTables p4Table m.words)
    (hcr3 : target m.cr3 = p4Table) (haligned : p4Table % pageSize = 0)
    (hbelow : p4Table + 6 * pageSize ≤ maxPhysicalAddress) : IdentityMapped m where
  below _ hv := h.translate hcr3 haligned hbelow hv
  above _ hlo hhi := h.translate_none hcr3 haligned hbelow hlo hhi
  noUser := h.userLeaf hcr3 haligned hbelow

theorem BssTables.target_eq (h : BssTables p4Table kernelStart kernelEnd memory) :
    target p4Table = p4Table := by
  have hsize : pageSize = 0x1000 := rfl
  have hmax : maxPhysicalAddress = 2 ^ 32 := rfl
  have hbefore := h.before
  have hbelow := h.below
  exact target_of_aligned h.aligned (by omega)

/-- The kernel's own range keeps the tables from the allocator. -/
theorem BssTables.notFree (h : BssTables p4Table kernelStart kernelEnd memory)
    (regions : List MemoryRegion) (modules : List PhysicalMemoryRange) {f : Nat}
    (hlo : p4Table ≤ f) (hhi : f < p4Table + 6 * pageSize) :
    ¬ (multiboot2Memory p4Table kernelStart kernelEnd memory regions modules).frames.IsFree f := by
  rintro ⟨-, hlt, hreserved⟩
  have hsize : pageSize = 0x1000 := rfl
  have hmax : maxPhysicalAddress = 2 ^ 32 := rfl
  have hframes : maxPhysicalFrames = 2 ^ 20 := rfl
  have hafter := h.after
  have hbefore := h.before
  rw [hsize] at hhi hbefore hreserved
  have hframe : f / 0x1000 < maxPhysicalFrames := by omega
  have hfree := (reserved_booted _ _ hframe).mp hreserved
  apply hfree.2.2 _ (List.mem_cons_self ..)
  unfold PhysicalMemoryRange.Covers PhysicalMemoryRange.endPage
  rw [hsize]
  dsimp only
  omega

theorem BssTables.bootTables (h : BssTables p4Table kernelStart kernelEnd memory)
    (regions : List MemoryRegion) (modules : List PhysicalMemoryRange) :
    BootTables (fun _ => none)
      (multiboot2Memory p4Table kernelStart kernelEnd memory regions modules) := by
  have hroot : target (multiboot2Memory p4Table kernelStart kernelEnd memory regions
    modules).cr3 = p4Table := h.target_eq
  have hnone : ∀ f, ¬ KernelTable
      (multiboot2Memory p4Table kernelStart kernelEnd memory regions modules) p4Table f := by
    rintro f ⟨index, rest, hlo, hhi, -, -, hwalk⟩
    unfold Memory.walk at hwalk
    have hzero : (multiboot2Memory p4Table kernelStart kernelEnd memory regions modules).words
      p4Table index = 0 := h.root_zero (by omega) hhi
    dsimp only at hwalk
    rw [hzero, if_pos (.inl not_present_zero)] at hwalk
    cases hwalk
  apply bootTables_of_absent
  · rw [hroot]
    show ¬ Present (wordsOf _ p4Table windowEntry)
    rw [h.root_zero (by decide) (by decide)]
    exact not_present_zero
  · rw [hroot]
    rintro f (rfl | hf)
    · apply h.notFree regions modules (Nat.le_refl _)
      exact Nat.lt_add_of_pos_right (by decide)
    · exact absurd hf (hnone f)
  · rw [hroot]
    exact hnone _

/-- The page tables survive `initialize_virtual_memory`. -/
theorem BssTables.initialized (h : BssTables p4Table kernelStart kernelEnd memory)
    (regions : List MemoryRegion) (modules : List PhysicalMemoryRange) {config : PagingConfig}
    {base : Memory}
    (hrun : initializeVirtualMemory config
      (multiboot2Memory p4Table kernelStart kernelEnd memory regions modules) = .ok () base) :
    base.cr3 = p4Table ∧ IdentityTables p4Table base.words := by
  have hboot := h.bootTables regions modules
  obtain ⟨⟨places, hinit⟩, hkept⟩ := hboot.initialize hrun
  have hroot : target (multiboot2Memory p4Table kernelStart kernelEnd memory regions
    modules).cr3 = p4Table := h.target_eq
  have hsize : pageSize = 0x1000 := rfl
  have htables := h.identityTables
  have hentries := hinit.entries
  rw [hroot] at hentries
  have hsame : ∀ f, p4Table < f → f < p4Table + 6 * pageSize →
      base.words f = wordsOf (startTables p4Table memory) f := by
    intro f hlo hhi
    apply hkept f rfl
    · exact h.notFree regions modules (Nat.le_of_lt hlo) hhi
    · rw [hroot]
      omega
  refine ⟨hinit.cr3, ?_, ?_, ?_, ?_, ?_⟩
  · rw [hentries 0 (by decide)]
    exact htables.root
  · intro index hpos hlt hne
    rw [hentries index hne]
    exact htables.rootRest index hpos hlt hne
  · intro index hindex
    rw [hsame _ (by omega) (by omega)]
    exact htables.link index hindex
  · intro index hlo hhi
    rw [hsame _ (by omega) (by omega)]
    exact htables.linkRest index hlo hhi
  · intro page hpage
    rw [hsame _ (by omega) (by omega)]
    exact htables.page page hpage

/-- Wherever the tables lie and whatever the memory map and the modules are,
long mode starts with the identity mapping, the allocator that is set up has none
of its tables free, and `initialize_virtual_memory` leads to a start of the
kernel's runs with the same mapping. -/
theorem bootstrapped (h : BssTables p4Table kernelStart kernelEnd memory)
    (regions : List MemoryRegion) (modules : List PhysicalMemoryRange) :
    let m := multiboot2Memory p4Table kernelStart kernelEnd memory regions modules
    BootTables (fun _ => none) m ∧ IdentityMapped m ∧
      (∀ f, p4Table ≤ f → f < p4Table + 6 * pageSize → ¬ m.frames.IsFree f) ∧
      ∀ base, initializeVirtualMemory (multiboot2Config kernelStart kernelEnd) m = .ok () base →
        IdentityMapped base ∧
          SpacesReached (multiboot2Config kernelStart kernelEnd) Always p4Table base
            (.start base) := by
  have hbelow := Nat.le_trans h.before h.below
  have hboot := h.bootTables regions modules
  have hroot : target (multiboot2Memory p4Table kernelStart kernelEnd memory regions
    modules).cr3 = p4Table := h.target_eq
  have hstart : IdentityTables p4Table
    (multiboot2Memory p4Table kernelStart kernelEnd memory regions modules).words :=
      h.identityTables
  refine ⟨hboot, hstart.identityMapped hroot h.aligned hbelow, ?_, ?_⟩
  · intro f hlo hhi
    exact h.notFree regions modules hlo hhi
  · intro base hrun
    obtain ⟨hcr3, htables⟩ := h.initialized regions modules hrun
    constructor
    · apply htables.identityMapped _ h.aligned hbelow
      rw [hcr3]
      exact h.target_eq
    · exact ⟨⟨_, _, hboot, hroot, hrun⟩, .refl⟩

/-- A kernel of 1 MiB with the tables at its end, and room for the tables of
the device window behind it. -/
theorem bootstrapped_mebibyte : ∃ base,
    initializeVirtualMemory (multiboot2Config 0x10_0000 0x20_0000)
      (multiboot2Memory 0x1F_0000 0x10_0000 0x20_0000 (fun _ => 0)
        [{ base := 0x20_0000, length := 0x3000, kind := .usable }] []) = .ok () base ∧
    IdentityMapped base := by
  have h : BssTables 0x1F_0000 0x10_0000 0x20_0000 (fun _ => 0) :=
    ⟨by decide, by decide, by decide, by decide, fun _ _ _ => rfl⟩
  have hsome : (finalState (initializeVirtualMemory (multiboot2Config 0x10_0000 0x20_0000)
      (multiboot2Memory 0x1F_0000 0x10_0000 0x20_0000 (fun _ => 0)
        [{ base := 0x20_0000, length := 0x3000, kind := .usable }] []))).isSome := by
    decide +kernel
  obtain ⟨⟨⟩, base, hrun⟩ := finalState_isSome hsome
  exact ⟨base, hrun, ((bootstrapped h _ _).2.2.2 base hrun).1⟩

end Start

end OpenKernel
