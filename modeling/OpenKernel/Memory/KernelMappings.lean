import OpenKernel.Memory.Exclusive
import OpenKernel.Memory.KernelHalf

/-!
# The kernel's mappings across a switch

`create_user_address_space` copies the upper half of the active root table.
A new space therefore translates the kernel range and the direct map as the
active table does exactly when both lie in the upper half
(`kernel_mappings_survive`).  Limine puts them there.  The Multiboot2
adapter runs the kernel at 1 MiB with the direct map at 0, and none of its
addresses is mapped after a switch.
-/

namespace OpenKernel

open Lib

/-- What `limine_entry` passes to `initialize_virtual_memory`. -/
def limineConfig (physicalOffset kernelStart kernelPhysicalBase kernelSize : Nat) :
    PagingConfig :=
  { physicalMemoryOffset := physicalOffset
    kernelVirtualBase := kernelStart
    kernelPhysicalBase := kernelPhysicalBase
    kernelSize := kernelSize }

/-- What `kernel_main` of the Multiboot2 adapter passes. -/
def multiboot2Config (kernelStart kernelEnd : Nat) : PagingConfig :=
  { physicalMemoryOffset := 0
    kernelVirtualBase := kernelStart
    kernelPhysicalBase := kernelStart
    kernelSize := kernelEnd - kernelStart }

/-- An address of the kernel range, or of the direct map of the frames that the
allocator tracks, where `table_mut` finds the page tables. -/
def PagingConfig.KernelAddress (config : PagingConfig) (v : Nat) : Prop :=
  (config.kernelVirtualBase ≤ v ∧ v < config.kernelVirtualBase + config.kernelSize) ∨
    (config.physicalMemoryOffset ≤ v ∧
      v < config.physicalMemoryOffset + maxPhysicalAddress)

/-- The entry of the root table that an address goes through. -/
def rootIndex (v : Nat) : Nat := (v >>> 39) &&& 0x1FF

section Translate

variable {m m' : Memory} {v : Nat}

/-- A translation depends on the tables that it walks through only. -/
theorem translateFrom_same {shifts : List Nat} {table : Nat}
    (h : ∀ path t, path.length < shifts.length → (∀ i ∈ path, i < 512) →
      m.walk path table = some t → m'.words t = m.words t) :
    m'.translateFrom v shifts table = m.translateFrom v shifts table := by
  induction shifts generalizing table with
  | nil => rfl
  | cons shift rest ih =>
    have hwords := h [] table (Nat.succ_pos _) (fun i hi => nomatch hi) rfl
    cases rest with
    | nil =>
      unfold Memory.translateFrom
      rw [hwords]
    | cons next rest =>
      unfold Memory.translateFrom
      rw [hwords]
      by_cases hp : Present (m.words table ((v >>> shift) &&& 0x1FF))
      · by_cases hh : Huge (m.words table ((v >>> shift) &&& 0x1FF))
        · simp only [hp, hh, not_true, if_false]
        · simp only [hp, hh, not_true, not_false_eq_true, if_true, if_false]
          refine ih fun path t hlen hpath hwalk => ?_
          refine h (((v >>> shift) &&& 0x1FF) :: path) t (Nat.succ_lt_succ hlen) ?_ ?_
          · intro i hi
            cases hi with
            | head => exact Nat.lt_of_le_of_lt Nat.and_le_right (by decide)
            | tail _ hmem => exact hpath i hmem
          · unfold Memory.walk
            dsimp only
            rw [if_neg (by rw [not_or, not_not]; exact ⟨hp, hh⟩)]
            exact hwalk
      · simp only [hp, not_false_eq_true, if_true]

/-- A root entry with the size bit set faults. -/
theorem translateFrom_huge {table : Nat} (hp : Present (m.words table (rootIndex v)))
    (hh : Huge (m.words table (rootIndex v))) :
    m.translateFrom v [39, 30, 21, 12] table = none := by
  unfold rootIndex at hp hh
  unfold Memory.translateFrom
  simp only [hp, hh, not_true, if_false, if_true]

/-- A large page of level 2. -/
theorem translateFrom_largePage {table : Nat}
    (hp : Present (m.words table ((v >>> 21) &&& 0x1FF)))
    (hh : Huge (m.words table ((v >>> 21) &&& 0x1FF))) :
    m.translateFrom v [21, 12] table =
      some (largePageBase (m.words table ((v >>> 21) &&& 0x1FF)) 21 + v % 2 ^ 21) := by
  unfold Memory.translateFrom
  simp only [hp, hh, not_true, if_false, Nat.reduceEqDiff]

theorem rootIndex_lt (v : Nat) : rootIndex v < 512 :=
  Nat.lt_of_le_of_lt Nat.and_le_right (by decide)

end Translate

section Create

variable {boot : Nat} {base : Memory} {places : Places} {s : SpaceState}
  {frames : FrameAllocator} {frame v : Nat}

/-- The upper half is translated as before. -/
theorem Separate.translate_upper (h : Separate boot base places s)
    (halloc : s.memory.frames.allocate = (some frame, frames)) (hv : 256 ≤ rootIndex v) :
    (s.memory.withSpace frames frame).translateIn frame v = s.memory.translate v := by
  have hfree := (FrameAllocator.allocate_some halloc).1
  have hroot : (s.memory.withSpace frames frame).words (target frame) (rootIndex v) =
      s.memory.words (target s.memory.cr3) (rootIndex v) := by
    rw [hfree.target_eq]
    show put s.memory.words frame _ frame (rootIndex v) = _
    rw [put_same, if_pos ⟨hv, rootIndex_lt v⟩]
  unfold Memory.translate Memory.translateIn
  by_cases hp : Present (s.memory.words (target s.memory.cr3) (rootIndex v))
  · by_cases hh : Huge (s.memory.words (target s.memory.cr3) (rootIndex v))
    · rw [translateFrom_huge hp hh,
        translateFrom_huge (by rw [hroot]; exact hp) (by rw [hroot]; exact hh)]
    · rw [translateFrom_link (by rw [← rootIndex, hroot]; exact hp)
          (by rw [← rootIndex, hroot]; exact hh),
        translateFrom_link hp hh, ← rootIndex, hroot]
      refine translateFrom_same fun path t hlen hpath hwalk => ?_
      have htable : KernelHalfTable s.memory (target s.memory.cr3) t := by
        refine ⟨rootIndex v, path, hv, rootIndex_lt v, Nat.le_of_lt_succ hlen, hpath, ?_⟩
        unfold Memory.walk
        dsimp only
        rw [if_neg (by rw [not_or, not_not]; exact ⟨hp, hh⟩)]
        exact hwalk
      have hne : t ≠ frame := by
        rintro rfl
        exact h.kernelHalfTable_notFree h.active htable hfree
      exact put_other hne
  · rw [translateFrom_absent (by rw [← rootIndex, hroot]; exact hp),
      translateFrom_absent hp]

/-- The lower half is empty. -/
theorem translateIn_lower
    (halloc : s.memory.frames.allocate = (some frame, frames)) (hv : rootIndex v < 256) :
    (s.memory.withSpace frames frame).translateIn frame v = none := by
  have hfree := (FrameAllocator.allocate_some halloc).1
  refine translateFrom_absent ?_
  rw [hfree.target_eq, ← rootIndex]
  show ¬ Present (put s.memory.words frame _ frame (rootIndex v))
  rw [put_same, if_neg (by omega)]
  exact not_present_zero

theorem Separate.of_create {m : Memory} (h : Separate boot base places s)
    (hcreate : createUserAddressSpace s.memory = .ok frame m) :
    ∃ frames, s.memory.frames.allocate = (some frame, frames) ∧
      m = s.memory.withSpace frames frame := by
  cases halloc : s.memory.frames.allocate with
  | mk result frames =>
    cases result with
    | none =>
      rw [createUserAddressSpace_of_none halloc] at hcreate
      cases hcreate
    | some frame' =>
      have hfree := (FrameAllocator.allocate_some halloc).1
      rw [createUserAddressSpace_of_some halloc (h.active_ne hfree)] at hcreate
      cases hcreate
      exact ⟨frames, rfl, rfl⟩

end Create

/-! ## The two adapters -/

theorem le_rootIndex {v : Nat} (hv : 2 ^ 64 - 2 ^ 47 ≤ v) (hv' : v < 2 ^ 64) :
    256 ≤ rootIndex v := by
  unfold rootIndex
  rw [index_eq]
  omega

/-- The configuration of the Limine adapter keeps its mappings: the protocol
puts the kernel and the direct map into the upper half. -/
theorem limine_upper {physicalOffset kernelStart kernelPhysicalBase kernelSize : Nat}
    (hoffset : 2 ^ 64 - 2 ^ 47 ≤ physicalOffset)
    (hoffset' : physicalOffset + maxPhysicalAddress ≤ 2 ^ 64)
    (hkernel : 2 ^ 64 - 2 ^ 47 ≤ kernelStart) (hkernel' : kernelStart + kernelSize ≤ 2 ^ 64)
    {v : Nat}
    (hv : (limineConfig physicalOffset kernelStart kernelPhysicalBase kernelSize).KernelAddress v) :
    256 ≤ rootIndex v := by
  rcases hv with ⟨hlo, hhi⟩ | ⟨hlo, hhi⟩
  · exact le_rootIndex (le_trans hkernel hlo) (lt_of_lt_of_le hhi hkernel')
  · exact le_rootIndex (le_trans hoffset hlo) (lt_of_lt_of_le hhi hoffset')

/-- The page tables of the Multiboot2 bootstrap, behind a kernel of 1 MiB: one
root entry, and large pages that map the first 4 GiB to themselves. -/
def bootstrapMemory : Memory :=
  { frames :=
      { frameBitmap := { bytes := 2 ^ 256 * 2 ^ 256 - 1 }
        allocatedBitmap := { bytes := 0 }
        freeFrames := maxPhysicalFrames - 512 }
    words := fun table index =>
      if table = 0x1F_0000 then if index = 0 then 0x1F_1000 ||| 3 else 0
      else if table = 0x1F_1000 then
        if index < 4 then (0x1F_2000 + index * 0x1000) ||| 3 else 0
      else if 0x1F_2000 ≤ table ∧ table < 0x1F_6000 then
        ((table - 0x1F_2000) / 0x1000 * 512 + index) * 0x20_0000 ||| 0x83
      else 0
    cr3 := 0x1F_0000
    physicalMemoryOffset := 0 }

/-- The kernel of the bootstrap, from 1 MiB to 2 MiB. -/
def bootstrapConfig : PagingConfig := multiboot2Config 0x10_0000 0x20_0000

theorem bootTables_bootstrapMemory : BootTables (fun _ => none) bootstrapMemory := by
  have hroot : target bootstrapMemory.cr3 = 0x1F_0000 := by decide
  have hnone : ∀ f, ¬ KernelTable bootstrapMemory 0x1F_0000 f := by
    rintro f ⟨index, rest, hlo, -, -, -, hwalk⟩
    rw [walk_eq] at hwalk
    obtain ⟨t, ht, -⟩ := Option.bind_eq_some_iff.mp hwalk
    have hp := (ref_eq_some (pageTree.ref_of_follow ht)).1
    have hzero : bootstrapMemory.words 0x1F_0000 index = 0 := if_neg (by omega)
    rw [hzero] at hp
    exact not_present_zero hp
  refine bootTables_of_absent (by decide) ?_ ?_
  · rw [hroot]
    rintro f (rfl | hf)
    · decide +kernel
    · exact absurd hf (hnone f)
  · rw [hroot]
    exact hnone _

section Identity

variable {m : Memory} {v : Nat}

/-- The large page that an entry of the bootstrap maps. -/
theorem largePage_bootstrap {x : Nat} (hx : x < 2 ^ 30) :
    Present (x * 0x20_0000 ||| 0x83) ∧ Huge (x * 0x20_0000 ||| 0x83) ∧
      largePageBase (x * 0x20_0000 ||| 0x83) 21 = x * 0x20_0000 := by
  have hsize : pageSize = 4096 := rfl
  have htarget : target (x * 0x20_0000) = x * 0x20_0000 :=
    target_of_aligned (by rw [hsize]; omega) (by omega)
  unfold Present Huge largePageBase
  rw [or_and_of_target htarget (by decide), or_and_of_target htarget (by decide),
    target_or htarget (by decide)]
  exact ⟨by decide, by decide, Nat.div_mul_cancel (Nat.dvd_mul_left _ _)⟩

/-- Behind the second-level table of the bootstrap the first 4 GiB are mapped in
their order. -/
theorem translateFrom_bootstrap
    (hsame : ∀ f, 0x1F_1000 ≤ f → f < 0x1F_6000 → f % 0x1000 = 0 →
      m.words f = bootstrapMemory.words f) {q : Nat} (hq : q < 4) :
    Present (m.words 0x1F_1000 q) ∧ ¬ Huge (m.words 0x1F_1000 q) ∧
      target (m.words 0x1F_1000 q) = 0x1F_2000 + q * 0x1000 ∧
        m.translateFrom v [21, 12] (0x1F_2000 + q * 0x1000) = some (q * 2 ^ 30 + v % 2 ^ 30) := by
  have hlinks : ∀ q < 4, Present ((0x1F_2000 + q * 0x1000) ||| 3) ∧
      ¬ Huge ((0x1F_2000 + q * 0x1000) ||| 3) ∧
        target ((0x1F_2000 + q * 0x1000) ||| 3) = 0x1F_2000 + q * 0x1000 := by
    decide
  have h21 : (v >>> 21) &&& 0x1FF = v / 2 ^ 21 % 512 := index_eq v 21
  have hsecond : m.words 0x1F_1000 q = (0x1F_2000 + q * 0x1000) ||| 3 := by
    rw [hsame _ le_rfl (by decide) (by decide)]
    exact if_pos hq
  have hthird : m.words (0x1F_2000 + q * 0x1000) (v / 2 ^ 21 % 512) =
      (q * 512 + v / 2 ^ 21 % 512) * 0x20_0000 ||| 0x83 := by
    rw [hsame _ (by omega) (by omega) (by omega)]
    show (if _ then _ else if _ then _ else if _ then _ else _) = _
    have hnumber : (0x1F_2000 + q * 0x1000 - 0x1F_2000) / 0x1000 = q := by omega
    rw [if_neg (by omega), if_neg (by omega), if_pos (by omega), hnumber]
  obtain ⟨hpage, hhuge, hbase⟩ :=
    largePage_bootstrap (x := q * 512 + v / 2 ^ 21 % 512) (by omega)
  rw [hsecond]
  refine ⟨(hlinks q hq).1, (hlinks q hq).2.1, (hlinks q hq).2.2, ?_⟩
  have hsplit : (q * 512 + v / 2 ^ 21 % 512) * 0x20_0000 + v % 2 ^ 21 =
      q * 2 ^ 30 + v % 2 ^ 30 := by omega
  rw [translateFrom_largePage (by rw [h21, hthird]; exact hpage)
    (by rw [h21, hthird]; exact hhuge), h21, hthird, hbase, hsplit]

/-- The bootstrap's tables map the first 4 GiB to themselves. -/
theorem translate_bootstrap (hcr3 : m.cr3 = bootstrapMemory.cr3)
    (hroot : m.words 0x1F_0000 0 = bootstrapMemory.words 0x1F_0000 0)
    (hsame : ∀ f, 0x1F_1000 ≤ f → f < 0x1F_6000 → f % 0x1000 = 0 →
      m.words f = bootstrapMemory.words f) (hv : v < maxPhysicalAddress) :
    m.translate v = some v := by
  have hmax : maxPhysicalAddress = 2 ^ 32 := rfl
  rw [hmax] at hv
  have h39 : (v >>> 39) &&& 0x1FF = 0 := by
    rw [index_eq]
    omega
  have h30 : (v >>> 30) &&& 0x1FF = v / 2 ^ 30 := by
    rw [index_eq]
    omega
  have hcr3' : target m.cr3 = 0x1F_0000 := by
    rw [hcr3]
    decide
  have hroot' : m.words 0x1F_0000 0 = 0x1F_1000 ||| 3 := hroot
  obtain ⟨hp, hh, htarget, hpage⟩ :=
    translateFrom_bootstrap (v := v) hsame (q := v / 2 ^ 30) (by omega)
  unfold Memory.translate Memory.translateIn
  rw [hcr3', translateFrom_link (by rw [h39, hroot']; decide)
    (by rw [h39, hroot']; decide), h39, hroot',
    show target (0x1F_1000 ||| 3) = 0x1F_1000 by decide,
    translateFrom_link (by rw [h30]; exact hp) (by rw [h30]; exact hh), h30, htarget, hpage]
  have hsplit : v / 2 ^ 30 * 2 ^ 30 + v % 2 ^ 30 = v := by omega
  rw [hsplit]

end Identity

/-- The state of a call that succeeds. -/
def finalState {ε α : Type} : EStateM.Result ε Memory α → Option Memory
  | .ok _ m => some m
  | .error _ _ => none

theorem finalState_isSome {ε α : Type} {result : EStateM.Result ε Memory α}
    (h : (finalState result).isSome = true) : ∃ a m, result = .ok a m := by
  cases result with
  | ok a m => exact ⟨a, m, rfl⟩
  | error e m => cases h

/-- The memory in which the scheduler is about to create the first space. -/
theorem initialized_of_run {config : PagingConfig} {boot : Memory}
    (hrun : ((finalState (initializeVirtualMemory config boot)).any
      fun base => (finalState (createUserAddressSpace base)).isSome) = true) :
    ∃ base space m, initializeVirtualMemory config boot = .ok () base ∧
      createUserAddressSpace base = .ok space m := by
  obtain ⟨base, hbase, hcreate⟩ := (Option.any_eq_true _ _).mp hrun
  obtain ⟨⟨⟩, m₁, hfirst⟩ := finalState_isSome (Option.isSome_of_eq_some hbase)
  rw [hfirst] at hbase
  obtain rfl := Option.some.inj hbase
  obtain ⟨space, m, hspace⟩ := finalState_isSome hcreate
  exact ⟨m₁, space, m, hfirst, hspace⟩

/-- The bootstrap's tables map the kernel range and the direct map. -/
theorem bootstrap_reached : ∃ base space m,
    SpacesReached bootstrapConfig Always 0x1F_0000 base (.start base) ∧
      createUserAddressSpace base = .ok space m ∧
      ∀ v, bootstrapConfig.KernelAddress v → (base.translate v).isSome := by
  have hrun : ((finalState (initializeVirtualMemory bootstrapConfig bootstrapMemory)).any
      fun base => (finalState (createUserAddressSpace base)).isSome) = true := by
    decide +kernel
  obtain ⟨base, space, m, hbase, hcreate⟩ := initialized_of_run hrun
  have hboot : target bootstrapMemory.cr3 = 0x1F_0000 := by decide
  obtain ⟨⟨places, hinit⟩, hkept⟩ := bootTables_bootstrapMemory.initialize hbase
  refine ⟨base, space, m, ⟨⟨bootstrapMemory, _, bootTables_bootstrapMemory, hboot, hbase⟩,
    .refl⟩, hcreate, fun v hv => ?_⟩
  have hlt : v < maxPhysicalAddress := by
    rcases hv with ⟨-, hhi⟩ | ⟨-, hhi⟩
    · exact lt_of_lt_of_le hhi (by decide)
    · exact lt_of_lt_of_eq hhi (Nat.zero_add _)
  rw [translate_bootstrap hinit.cr3 ?_ ?_ hlt]
  · rfl
  · rw [← hboot]
    exact hinit.entries 0 (by decide)
  · intro f hlo hhi hmod
    have hused : ∀ q < 5, ¬ bootstrapMemory.frames.IsFree (0x1F_1000 + q * 0x1000) := by
      decide +kernel
    have hf : f = 0x1F_1000 + (f - 0x1F_1000) / 0x1000 * 0x1000 := by omega
    refine hkept f rfl ?_ (by rw [hboot]; omega)
    rw [hf]
    exact hused _ (by omega)

/-! ## A Limine machine -/

/-- Page tables of the Limine protocol: the tables of the bootstrap serve the
direct map, and the last root entry maps the kernel at physical address 0. -/
def limineMemory : Memory :=
  { bootstrapMemory with
    words := fun table index =>
      if table = 0x1F_0000 then
        if index = 256 then 0x1F_1000 ||| 3 else if index = 511 then 0x1F_6000 ||| 3 else 0
      else if table = 0x1F_6000 then if index = 510 then 0x1F_2000 ||| 3 else 0
      else bootstrapMemory.words table index }

/-- A kernel of 2 MiB at `-2 GiB`. -/
def limineKernel : PagingConfig :=
  limineConfig 0xFFFF_8000_0000_0000 0xFFFF_FFFF_8000_0000 0 0x20_0000

theorem words_limineMemory {table : Nat} (hroot : table ≠ 0x1F_0000)
    (hkernel : table ≠ 0x1F_6000) : limineMemory.words table = bootstrapMemory.words table := by
  funext index
  exact (if_neg hroot).trans (if_neg hkernel)

/-- An entry that links to no table but those between the root and 2 MiB. -/
def LinksInside (entry : Nat) : Prop :=
  ∀ next, pageTree.follow entry = some next → 0x1F_1000 ≤ next ∧ next < 0x20_0000

theorem linksInside_zero : LinksInside 0 := by
  intro next h
  exact absurd (ref_eq_some (pageTree.ref_of_follow h)).1 not_present_zero

theorem linksInside_of_target {entry : Nat}
    (h : 0x1F_1000 ≤ target entry ∧ target entry < 0x20_0000) : LinksInside entry := by
  intro next hnext
  rw [← (ref_eq_some (pageTree.ref_of_follow hnext)).2]
  exact h

theorem linksInside_large (a : Nat) : LinksInside (a ||| 0x83) := by
  have hhuge : Huge (a ||| 0x83) := by
    intro hzero
    rw [Nat.and_or_distrib_right] at hzero
    exact absurd (Nat.or_eq_zero_iff.mp hzero).2 (by decide)
  intro next h
  unfold Radix.follow at h
  rw [Bool.eq_false_iff.mpr fun hopen => isOpen_eq_true.mp hopen hhuge] at h
  cases h

theorem linksInside_bootstrapMemory (table index : Nat) :
    LinksInside (bootstrapMemory.words table index) := by
  show LinksInside (if _ then if _ then _ else _ else if _ then if _ then _ else _
    else if _ then _ else _)
  split
  · split
    · exact linksInside_of_target (by decide)
    · exact linksInside_zero
  · split
    · split
      · rename_i hindex
        have hlinks : ∀ q < 4, 0x1F_1000 ≤ target ((0x1F_2000 + q * 0x1000) ||| 3) ∧
            target ((0x1F_2000 + q * 0x1000) ||| 3) < 0x20_0000 := by decide
        exact linksInside_of_target (hlinks index hindex)
      · exact linksInside_zero
    · split
      · exact linksInside_large _
      · exact linksInside_zero

theorem linksInside_limineMemory (table index : Nat) :
    LinksInside (limineMemory.words table index) := by
  show LinksInside (if _ then if _ then _ else if _ then _ else _ else if _ then
    if _ then _ else _ else _)
  split
  · split
    · exact linksInside_of_target (by decide)
    · split
      · exact linksInside_of_target (by decide)
      · exact linksInside_zero
  · split
    · split
      · exact linksInside_of_target (by decide)
      · exact linksInside_zero
    · exact linksInside_bootstrapMemory table index

theorem walk_limineMemory {path : List Nat} (hpath : path ≠ []) {table final : Nat}
    (h : pageTree.walk limineMemory.words path table = some final) :
    0x1F_1000 ≤ final ∧ final < 0x20_0000 := by
  induction path generalizing table with
  | nil => exact absurd rfl hpath
  | cons index rest ih =>
    obtain ⟨next, hnext, hrest⟩ := Option.bind_eq_some_iff.mp h
    cases rest with
    | nil =>
      obtain rfl := Option.some.inj hrest
      exact linksInside_limineMemory table index next hnext
    | cons i rest => exact ih (List.cons_ne_nil i rest) hrest

theorem used_limineMemory {f : Nat} (hf : f < 0x20_0000) : ¬ limineMemory.frames.IsFree f := by
  have hused : ∀ frame < 512, limineMemory.frames.reserved frame = true := by decide +kernel
  intro hfree
  have hbit := hfree.2.2
  rw [hused _ (by rw [show pageSize = 4096 from rfl]; omega)] at hbit
  cases hbit

theorem bootTables_limineMemory : BootTables (fun _ => none) limineMemory := by
  have hroot : target limineMemory.cr3 = 0x1F_0000 := by decide
  have htable : ∀ f, KernelTable limineMemory 0x1F_0000 f → 0x1F_1000 ≤ f ∧ f < 0x20_0000 := by
    intro f hf
    obtain ⟨index, rest, -, -, -, -, hwalk⟩ := hf
    rw [walk_eq] at hwalk
    exact walk_limineMemory (List.cons_ne_nil index rest) hwalk
  apply bootTables_of_absent
  · decide
  · rw [hroot]
    intro f hf
    apply used_limineMemory
    rcases hf with rfl | hf
    · decide
    · exact (htable f hf).2
  · rw [hroot]
    intro hloop
    exact absurd (htable _ hloop).1 (by decide)

/-- Where the direct map and the kernel range lead to. -/
theorem translate_limine {m : Memory} {v : Nat} (hcr3 : m.cr3 = limineMemory.cr3)
    (hroot : ∀ i, i ≠ windowEntry → m.words 0x1F_0000 i = limineMemory.words 0x1F_0000 i)
    (hsame : ∀ f, 0x1F_1000 ≤ f → f < 0x1F_7000 → f % 0x1000 = 0 →
      m.words f = limineMemory.words f) (hv : limineKernel.KernelAddress v) :
    (m.translate v).isSome := by
  have hcr3' : target m.cr3 = 0x1F_0000 := by
    rw [hcr3]
    decide
  have hbootstrap : ∀ f, 0x1F_1000 ≤ f → f < 0x1F_6000 → f % 0x1000 = 0 →
      m.words f = bootstrapMemory.words f := by
    intro f hlo hhi hmod
    rw [hsame f hlo (by omega) hmod, words_limineMemory (by omega) (by omega)]
  unfold Memory.translate Memory.translateIn
  rw [hcr3']
  rcases hv with ⟨hlo, hhi⟩ | ⟨hlo, hhi⟩
  · change 0xFFFF_FFFF_8000_0000 ≤ v at hlo
    change v < 0xFFFF_FFFF_8000_0000 + 0x20_0000 at hhi
    have h39 : (v >>> 39) &&& 0x1FF = 511 := by
      rw [index_eq]
      omega
    have h30 : (v >>> 30) &&& 0x1FF = 510 := by
      rw [index_eq]
      omega
    have hentry : m.words 0x1F_0000 511 = 0x1F_6000 ||| 3 := hroot 511 (by decide)
    have hkernel : m.words 0x1F_6000 510 = 0x1F_2000 ||| 3 := by
      rw [hsame 0x1F_6000 (by decide) (by decide) (by decide)]
      rfl
    obtain ⟨-, -, -, hpage⟩ := translateFrom_bootstrap (v := v) hbootstrap (q := 0) (by decide)
    rw [translateFrom_link (by rw [h39, hentry]; decide) (by rw [h39, hentry]; decide), h39,
      hentry, show target (0x1F_6000 ||| 3) = 0x1F_6000 by decide,
      translateFrom_link (by rw [h30, hkernel]; decide) (by rw [h30, hkernel]; decide), h30,
      hkernel, show target (0x1F_2000 ||| 3) = 0x1F_2000 + 0 * 0x1000 by decide, hpage]
    rfl
  · change 0xFFFF_8000_0000_0000 ≤ v at hlo
    change v < 0xFFFF_8000_0000_0000 + 0x1_0000_0000 at hhi
    have h39 : (v >>> 39) &&& 0x1FF = 256 := by
      rw [index_eq]
      omega
    have h30 : (v >>> 30) &&& 0x1FF = v / 2 ^ 30 % 512 := index_eq v 30
    have hentry : m.words 0x1F_0000 256 = 0x1F_1000 ||| 3 := hroot 256 (by decide)
    obtain ⟨hp, hh, htarget, hpage⟩ :=
      translateFrom_bootstrap (v := v) hbootstrap (q := v / 2 ^ 30 % 512) (by omega)
    rw [translateFrom_link (by rw [h39, hentry]; decide) (by rw [h39, hentry]; decide), h39,
      hentry, show target (0x1F_1000 ||| 3) = 0x1F_1000 by decide,
      translateFrom_link (by rw [h30]; exact hp) (by rw [h30]; exact hh), h30, htarget, hpage]
    rfl

/-- The memory in which the scheduler is about to create the first space. -/
theorem limine_reached : ∃ base space m,
    SpacesReached limineKernel Always 0x1F_0000 base (.start base) ∧
      createUserAddressSpace base = .ok space m ∧
      ∀ v, limineKernel.KernelAddress v → (base.translate v).isSome := by
  have hrun : ((finalState (initializeVirtualMemory limineKernel limineMemory)).any
      fun base => (finalState (createUserAddressSpace base)).isSome) = true := by
    decide +kernel
  obtain ⟨base, space, m, hbase, hcreate⟩ := initialized_of_run hrun
  have hboot : target limineMemory.cr3 = 0x1F_0000 := by decide
  obtain ⟨⟨places, hinit⟩, hkept⟩ := bootTables_limineMemory.initialize hbase
  refine ⟨base, space, m, ⟨⟨limineMemory, _, bootTables_limineMemory, hboot, hbase⟩, .refl⟩,
    hcreate, fun v hv => ?_⟩
  apply translate_limine hinit.cr3 _ _ hv
  · intro i hi
    rw [← hboot]
    exact hinit.entries i hi
  · intro f hlo hhi hmod
    exact hkept f rfl (used_limineMemory (by omega)) (by rw [hboot]; omega)

/-! ## Switching -/

/-- Switching to a new space keeps every kernel mapping if and only if all of
them go through the upper half of the root table. -/
theorem kernel_mappings_survive {config : PagingConfig} {boot : Nat} {base : Memory}
    {s : SpaceState} (h : SpacesReached config Always boot base s) {space : Nat}
    {m : Memory} (hcreate : createUserAddressSpace s.memory = .ok space m)
    (hmapped : ∀ v, config.KernelAddress v → (s.memory.translate v).isSome) :
    (∀ v, config.KernelAddress v →
      (m.switchAddressSpace space).translate v = s.memory.translate v) ↔
      ∀ v, config.KernelAddress v → 256 ≤ rootIndex v := by
  obtain ⟨places, hsep, -⟩ := h.separate
  obtain ⟨frames, halloc, rfl⟩ := hsep.of_create hcreate
  constructor
  · intro hsame v hv
    apply Nat.le_of_not_lt
    intro hlow
    have hnone := (hsame v hv).symm.trans (translateIn_lower halloc hlow)
    have hsome := hmapped v hv
    rw [hnone] at hsome
    cases hsome
  · intro hupper v hv
    exact hsep.translate_upper halloc (hupper v hv)

/-- On a Limine machine all kernel mappings are still there after the switch to
the first space. -/
theorem kernel_mappings_survive_limine : ∃ base space m,
    createUserAddressSpace base = .ok space m ∧
      ∀ v, limineKernel.KernelAddress v →
        (m.switchAddressSpace space).translate v = base.translate v := by
  obtain ⟨base, space, m, hreached, hcreate, hmapped⟩ := limine_reached
  refine ⟨base, space, m, hcreate, ?_⟩
  apply (kernel_mappings_survive hreached hcreate hmapped).mpr
  intro v hv
  exact limine_upper (by decide) (by decide) (by decide) (by decide) hv

/-- After the switch to the first space that is created on a Multiboot2
machine, the first instruction of the kernel is not mapped any more. -/
theorem kernel_mappings_multiboot2 : ∃ base space m,
    SpacesReached bootstrapConfig Always 0x1F_0000 base (.start base) ∧
      createUserAddressSpace base = .ok space m ∧
      (∀ v, bootstrapConfig.KernelAddress v → (base.translate v).isSome) ∧
      bootstrapConfig.KernelAddress 0x10_0000 ∧
      (m.switchAddressSpace space).translate 0x10_0000 = none := by
  obtain ⟨base, space, m, hreached, hcreate, hmapped⟩ := bootstrap_reached
  refine ⟨base, space, m, hreached, hcreate, hmapped, .inl (by decide), ?_⟩
  obtain ⟨places, hsep, -⟩ := hreached.separate
  obtain ⟨frames, halloc, rfl⟩ := hsep.of_create hcreate
  exact translateIn_lower halloc (by decide)

end OpenKernel
