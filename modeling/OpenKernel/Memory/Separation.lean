import OpenKernel.Memory.Spaces
import OpenKernel.Memory.Stacks

/-!
# Separate address spaces

The invariant of `SpaceState`: the live spaces and the window are trees of
one forest, the frames in hand are in no tree, the frames that the kernel was
booted with stay as they are, and every space shares its upper half with the
boot table.  `Recorded` relates the tables to what the calls have returned.
-/

namespace OpenKernel

open Lib

/-- A table of the kernel half that does not belong to the window. -/
def KernelTable (m : Memory) (root table : Nat) : Prop :=
  ∃ index rest, 256 ≤ index ∧ index < 512 ∧ index ≠ windowEntry ∧ rest.length ≤ 2 ∧
    m.walk (index :: rest) root = some table

/-- The frames that the kernel was booted with: the boot table and what its
upper half leads to. -/
def BootFrame (base : Memory) (boot f : Nat) : Prop :=
  f = boot ∨ KernelTable base boot f

structure Separate (boot : Nat) (base : Memory) (places : Places) (s : SpaceState) :
    Prop where
  owned : Owned places s.memory
  live : ∀ r, r ∈ s.live ↔ places r = some (.space r, [])
  roots : ∀ f r, places f = some (.space r, []) → f = r
  window : HasWindow places s.memory boot
  upper : ∀ r ∈ s.live, ∀ i, 256 ≤ i → i < 512 →
    s.memory.words r i = s.memory.words boot i
  fixed : ∀ f, BootFrame base boot f → places f = none ∧ ¬ s.memory.frames.IsFree f ∧
    s.memory.words f = base.words f ∧ f ∉ s.inHand
  hand : ∀ f ∈ s.inHand, places f = none ∧ s.memory.frames.IsAllocated f ∧
    ¬ s.memory.frames.IsFree f
  active : target s.memory.cr3 = boot ∨ target s.memory.cr3 ∈ s.live
  bootTarget : target boot = boot

/-- The walks find what the calls have mapped. -/
structure Recorded (boot : Nat) (s : SpaceState) : Prop where
  maps : ∀ r ∈ s.live, ∀ v < userSpaceEnd, s.memory.lookup r v =
    (s.maps r (v / pageSize)).map fun page => page.1 ||| page.2.bits
  pages : ∀ r ∈ s.live, ∀ n frame flags, s.maps r n = some (frame, flags) →
    target frame = frame ∧ n * pageSize < userSpaceEnd
  kernelStacks : ∀ slot ∈ s.kernelStacks, StackInWindow slot ∧
    ∀ v ∈ kernelStack slot, (s.memory.lookup boot v).isSome

/-- What a step leaves behind that keeps the set of spaces. -/
structure Moves (boot : Nat) (user : Prop) (places : Places) (s : SpaceState)
    (places' : Places) (s' : SpaceState) : Prop where
  owned : Owned places' s'.memory
  touches : Touches (· ∈ s.inHand) places s.memory places' s'.memory
  live : s'.live = s.live
  hand : ∀ f ∈ s'.inHand, places' f = none ∧ s'.memory.frames.IsAllocated f ∧
    ¬ s'.memory.frames.IsFree f ∧
      (f ∈ s.inHand ∨ s.memory.frames.IsFree f ∨ places f ≠ none)
  linked : user → UserLinked places s.memory → UserLinked places' s'.memory
  recorded : Recorded boot s → Recorded boot s'

namespace Separate

variable {boot : Nat} {base : Memory} {places places' : Places} {s s' : SpaceState}
  {user : Prop} {r v : Nat}

/-- The invariant stays when only the trees, the free frames and the frames in
hand change. -/
theorem touched (h : Separate boot base places s) (howned : Owned places' s'.memory)
    (ht : Touches (· ∈ s.inHand) places s.memory places' s'.memory) (hlive : s'.live = s.live)
    (hhand : ∀ f ∈ s'.inHand, places' f = none ∧ s'.memory.frames.IsAllocated f ∧
      ¬ s'.memory.frames.IsFree f ∧
        (f ∈ s.inHand ∨ s.memory.frames.IsFree f ∨ places f ≠ none)) :
    Separate boot base places' s' := by
  have hfixed : ∀ f, BootFrame base boot f → places' f = none ∧
      ¬ s'.memory.frames.IsFree f ∧ s'.memory.words f = s.memory.words f := by
    intro f hf
    obtain ⟨hnone, hfree, -, hout⟩ := h.fixed f hf
    obtain ⟨hnone', hwords, hfree', -⟩ := ht.frames f hnone hfree hout
    exact ⟨hnone', hfree', hwords⟩
  have hboot := (hfixed boot (.inl rfl)).2.2
  refine ⟨howned, ?_, ?_, ?_, ?_, ?_, ?_, ?_, h.bootTarget⟩
  · intro r
    rw [hlive, h.live, ht.roots]
  · intro f r hf
    exact h.roots f r ((ht.roots f _).mp hf)
  · unfold HasWindow
    rw [hboot]
    exact ⟨h.window.1, h.window.2.1, (ht.roots _ _).mpr h.window.2.2⟩
  · intro r hr i hi hi'
    rw [hlive] at hr
    rw [hboot, ht.outside r _ i ((h.live r).mp hr) (not_inside_upper hi)]
    exact h.upper r hr i hi hi'
  · intro f hf
    obtain ⟨hnone, hfree, hwords⟩ := hfixed f hf
    refine ⟨hnone, hfree, hwords.trans (h.fixed f hf).2.2.1, fun hmem => ?_⟩
    rcases (hhand f hmem).2.2.2 with hheld | hfree | hplaced
    · exact (h.fixed f hf).2.2.2 hheld
    · exact (h.fixed f hf).2.1 hfree
    · exact hplaced (h.fixed f hf).1
  · intro f hf
    obtain ⟨hnone, hall, hfree, -⟩ := hhand f hf
    exact ⟨hnone, hall, hfree⟩
  · rw [ht.cr3, hlive]
    exact h.active

/-- A step that keeps the set of spaces keeps the invariant. -/
theorem moves (h : Separate boot base places s) (hm : Moves boot user places s places' s') :
    Separate boot base places' s' :=
  h.touched hm.owned hm.touches hm.live hm.hand

theorem place (h : Separate boot base places s) (hr : r ∈ s.live) :
    places r = some (.space r, []) := (h.live r).mp hr

theorem target_root (h : Separate boot base places s) (hr : r ∈ s.live) : target r = r :=
  h.owned.aligned r _ (h.place hr)

/-- The window hangs on the same entry in every space. -/
theorem hasWindow (h : Separate boot base places s) (hr : r = boot ∨ r ∈ s.live) :
    HasWindow places s.memory r ∧
      s.memory.words r windowEntry = s.memory.words boot windowEntry := by
  rcases hr with rfl | hr
  · exact ⟨h.window, rfl⟩
  · have hsame := h.upper r hr windowEntry windowEntry_upper (by decide)
    unfold HasWindow
    rw [hsame]
    exact ⟨h.window, rfl⟩

theorem steady (h : Separate boot base places s) (hr : r = boot ∨ r ∈ s.live) :
    Steady places s.memory r := by
  rcases hr with rfl | hr
  · obtain ⟨hnone, hfree, -, -⟩ := h.fixed r (.inl rfl)
    exact .inr ⟨hnone, hfree⟩
  · exact .inl ⟨r, h.place hr⟩

/-- The active space gives access to the window. -/
theorem reach_window (h : Separate boot base places s) :
    Reach .window (target (s.memory.words boot windowEntry)) places s.memory := by
  obtain ⟨hw, hsame⟩ := h.hasWindow h.active
  exact ⟨h.steady h.active, hw, by rw [hsame]⟩

/-- An active space gives access to its own pages. -/
theorem reach_space (h : Separate boot base places s)
    (hr : s.memory.activeAddressSpace ∈ s.live) :
    Reach (.space s.memory.activeAddressSpace) s.memory.activeAddressSpace places
      s.memory :=
  ⟨rfl, rfl, h.place hr⟩

theorem lookup_space (h : Separate boot base places s) (hr : r ∈ s.live) (v : Nat) :
    s.memory.lookup r v = pageTree.entry s.memory.words (upperIndices v) (leafIndex v) r := by
  rw [lookup_eq, h.target_root hr]

end Separate

/-! ## What the lookups keep -/

section Lookups

variable {boot : Nat} {base : Memory} {places places' : Places} {s s' : SpaceState}
  {except : Owner → List Nat → Nat → Prop} {m' : Memory} {r v : Nat}

/-- A page of a space whose entry stays. -/
theorem Separate.lookup_kept (h : Separate boot base places s)
    (hs : SameEntries places s.memory m' except) (hr : r ∈ s.live) (hv : v < userSpaceEnd)
    (hnot : ¬ except (.space r) (upperIndices v) (leafIndex v)) :
    m'.lookup r v = s.memory.lookup r v := by
  rw [lookup_eq, lookup_eq, h.target_root hr]
  exact hs (.space r) r _ _ (h.place hr) rfl (within_space r hv) hnot

theorem Separate.boot_kept (h : Separate boot base places s)
    (ht : Touches (· ∈ s.inHand) places s.memory places' m') :
    m'.words boot = s.memory.words boot := by
  obtain ⟨hnone, hfree, -, hhand⟩ := h.fixed boot (.inl rfl)
  exact (ht.frames boot hnone hfree hhand).2.1

/-- All spaces look the window up alike. -/
theorem Separate.lookup_window (h : Separate boot base places s) {space : Nat}
    (hspace : space = boot ∨ space ∈ s.live) (hv : deviceWindowBase ≤ v)
    (hv' : v < windowEnd) :
    s.memory.lookup space v = pageTree.entry s.memory.words (windowIndices v) (leafIndex v)
      (target (s.memory.words boot windowEntry)) := by
  have htarget : target space = space := by
    rcases hspace with rfl | hlive
    · exact h.bootTarget
    · exact h.target_root hlive
  obtain ⟨hw, hsame⟩ := h.hasWindow hspace
  rw [← htarget] at hw
  rw [OpenKernel.lookup_window hw hv hv', htarget, hsame]

/-- The lookup of a window address in the boot table. -/
theorem Separate.lookup_boot (h : Separate boot base places s) (hv : deviceWindowBase ≤ v)
    (hv' : v < windowEnd) :
    s.memory.lookup boot v = pageTree.entry s.memory.words (windowIndices v) (leafIndex v)
      (target (s.memory.words boot windowEntry)) :=
  h.lookup_window (.inl rfl) hv hv'

theorem Separate.lookup_boot_after (h : Separate boot base places s)
    (ht : Touches (· ∈ s.inHand) places s.memory places' m') (hv : deviceWindowBase ≤ v)
    (hv' : v < windowEnd) :
    m'.lookup boot v = pageTree.entry m'.words (windowIndices v) (leafIndex v)
      (target (s.memory.words boot windowEntry)) := by
  have hboot := h.boot_kept ht
  have hw : HasWindow places m' (target boot) := by
    unfold HasWindow
    rw [h.bootTarget, hboot]
    exact h.window
  rw [OpenKernel.lookup_window hw hv hv', h.bootTarget, hboot]

/-- A page of the window whose entry stays. -/
theorem Separate.window_kept (h : Separate boot base places s)
    (ht : Touches (· ∈ s.inHand) places s.memory places' m')
    (hs : SameEntries places s.memory m' except) (hv : deviceWindowBase ≤ v)
    (hv' : v < windowEnd) (hnot : ¬ except .window (windowIndices v) (leafIndex v)) :
    m'.lookup boot v = s.memory.lookup boot v := by
  rw [h.lookup_boot_after ht hv hv', h.lookup_boot hv hv']
  exact hs .window _ _ _ h.window.2.2 rfl (within_window v) hnot

/-- The pages of a stack lie in the stack half of the window. -/
theorem mem_kernelStack {slot : Nat} (hslot : StackInWindow slot)
    (hv : v ∈ kernelStack slot) : kernelStackGuardPage ≤ v ∧ v < windowEnd := by
  obtain ⟨page, hpage, rfl⟩ := List.mem_map.mp hv
  have hlt := List.mem_range.mp hpage
  simp only [StackInWindow, kernelStackBase, kernelStackPages, pageSize] at hslot hlt ⊢
  omega

theorem base_le_of_guard (hv : kernelStackGuardPage ≤ v) : deviceWindowBase ≤ v :=
  Nat.le_trans (by decide) hv

theorem Recorded.words (h : Recorded boot s) (hwords : s'.memory.words = s.memory.words)
    (hlive : s'.live = s.live) (hmaps : s'.maps = s.maps)
    (hstacks : s'.kernelStacks = s.kernelStacks) : Recorded boot s' := by
  have hlookup : ∀ r v, s'.memory.lookup r v = s.memory.lookup r v := by
    intro r v
    rw [lookup_eq, lookup_eq, hwords]
  refine ⟨?_, ?_, ?_⟩
  · intro r hr v hv
    rw [hlive] at hr
    rw [hlookup, hmaps]
    exact h.maps r hr v hv
  · intro r hr n frame flags hn
    rw [hlive] at hr
    rw [hmaps] at hn
    exact h.pages r hr n frame flags hn
  · intro slot hslot
    rw [hstacks] at hslot
    obtain ⟨hin, hpages⟩ := h.kernelStacks slot hslot
    exact ⟨hin, fun v hv => by rw [hlookup]; exact hpages v hv⟩

/-- Entries change in the window only, and not those of allocated stacks. -/
theorem Recorded.window (h : Recorded boot s) (hsep : Separate boot base places s)
    (ht : Touches (· ∈ s.inHand) places s.memory places' s'.memory)
    (hs : SameEntries places s.memory s'.memory except)
    (hspace : ∀ r is last, ¬ except (.space r) is last)
    (hlive : s'.live = s.live) (hmaps : s'.maps = s.maps)
    (hstacks : ∀ slot ∈ s'.kernelStacks, StackInWindow slot ∧ ∀ v ∈ kernelStack slot,
      (s'.memory.lookup boot v).isSome ∨
        slot ∈ s.kernelStacks ∧ ¬ except .window (windowIndices v) (leafIndex v)) :
    Recorded boot s' := by
  refine ⟨?_, ?_, ?_⟩
  · intro r hr v hv
    rw [hlive] at hr
    rw [hsep.lookup_kept hs hr hv (hspace r _ _), hmaps]
    exact h.maps r hr v hv
  · intro r hr n frame flags hn
    rw [hlive] at hr
    rw [hmaps] at hn
    exact h.pages r hr n frame flags hn
  · intro slot hslot
    obtain ⟨hin, hpages⟩ := hstacks slot hslot
    refine ⟨hin, fun v hv => ?_⟩
    rcases hpages v hv with hsome | ⟨hold, hnot⟩
    · exact hsome
    · obtain ⟨hguard, hend⟩ := mem_kernelStack hin hv
      rw [hsep.window_kept ht hs (base_le_of_guard hguard) hend hnot]
      exact (h.kernelStacks slot hold).2 v hv

/-- Entries change in one space only. -/
theorem Recorded.space (h : Recorded boot s)
    (hsep : Separate boot base places s)
    (ht : Touches (· ∈ s.inHand) places s.memory places' s'.memory)
    (hs : SameEntries places s.memory s'.memory except)
    (hwindow : ∀ is last, ¬ except .window is last)
    (hlive : s'.live = s.live) (hstacks : s'.kernelStacks = s.kernelStacks)
    (hmaps : ∀ r ∈ s.live, ∀ v < userSpaceEnd,
      ¬ except (.space r) (upperIndices v) (leafIndex v) ∧
          s'.maps r (v / pageSize) = s.maps r (v / pageSize) ∨
        s'.memory.lookup r v =
          (s'.maps r (v / pageSize)).map fun page => page.1 ||| page.2.bits)
    (hpages : ∀ r ∈ s.live, ∀ n frame flags, s'.maps r n = some (frame, flags) →
      s.maps r n = some (frame, flags) ∨
        target frame = frame ∧ n * pageSize < userSpaceEnd) :
    Recorded boot s' := by
  refine ⟨?_, ?_, ?_⟩
  · intro r hr v hv
    rw [hlive] at hr
    rcases hmaps r hr v hv with ⟨hnot, hsame⟩ | hnew
    · rw [hsep.lookup_kept hs hr hv hnot, hsame]
      exact h.maps r hr v hv
    · exact hnew
  · intro r hr n frame flags hn
    rw [hlive] at hr
    rcases hpages r hr n frame flags hn with hold | hnew
    · exact h.pages r hr n frame flags hold
    · exact hnew
  · intro slot hslot
    rw [hstacks] at hslot
    obtain ⟨hin, hpages⟩ := h.kernelStacks slot hslot
    refine ⟨hin, fun v hv => ?_⟩
    obtain ⟨hguard, hend⟩ := mem_kernelStack hin hv
    rw [hsep.window_kept ht hs (base_le_of_guard hguard) hend (hwindow _ _)]
    exact hpages v hv

end Lookups

end OpenKernel
