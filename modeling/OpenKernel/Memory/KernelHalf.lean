import OpenKernel.Kernel.State
import OpenKernel.Memory.Mmu
import OpenKernel.Memory.SpaceRuns

/-!
# The shared kernel half

Every address space translates the addresses of the window alike, whichever
space a device page or a kernel stack was mapped under, and a space that is
destroyed takes no kernel mapping along.
-/

namespace OpenKernel

open Lib

/-- The stacks of the threads and of their system calls lie in the window. -/
theorem stackInWindow_of_lt {slot : Nat} (h : slot < 2 * maxThreads) :
    StackInWindow slot := by
  have hlt : slot < 16 := h
  have hend : windowEnd = kernelStackGuardPage + 0x70_0000_0000 := by decide
  simp only [StackInWindow, kernelStackBase, kernelStackPages, pageSize, hend]
  omega

section Translate

variable {places : Places} {m m' : Memory} {space v : Nat}

/-- One step of the hardware's walk. -/
theorem translateFrom_link {shift next table : Nat} {rest : List Nat}
    (hp : Present (m.words table ((v >>> shift) &&& 0x1FF)))
    (hh : ¬ Huge (m.words table ((v >>> shift) &&& 0x1FF))) :
    m.translateFrom v (shift :: next :: rest) table =
      m.translateFrom v (next :: rest)
        (target (m.words table ((v >>> shift) &&& 0x1FF))) := by
  show (if ¬ Present (m.words table ((v >>> shift) &&& 0x1FF)) then none
    else if ¬ Huge (m.words table ((v >>> shift) &&& 0x1FF)) then _ else _) = _
  rw [if_neg (not_not.mpr hp), if_pos hh]

theorem translateFrom_absent {shift next table : Nat} {rest : List Nat}
    (hp : ¬ Present (m.words table ((v >>> shift) &&& 0x1FF))) :
    m.translateFrom v (shift :: next :: rest) table = none := by
  show (if ¬ Present (m.words table ((v >>> shift) &&& 0x1FF)) then none else _) = _
  rw [if_pos hp]

/-- One step of the kernel's walk is one of the hardware's. -/
theorem translateFrom_of_walk {shift table final : Nat} {indices : List Nat}
    (next : Nat) (rest : List Nat)
    (h : m.walk (((v >>> shift) &&& 0x1FF) :: indices) table = some final) :
    ∃ child, m.walk indices child = some final ∧
      m.translateFrom v (shift :: next :: rest) table =
        m.translateFrom v (next :: rest) child := by
  unfold Memory.walk at h
  dsimp only at h
  split at h
  · cases h
  · rename_i hentry
    rw [not_or, not_not] at hentry
    exact ⟨_, h, translateFrom_link hentry.1 hentry.2⟩

/-- The hardware finds the pages that `unmap_page` finds. -/
theorem translateIn_of_lookup {leaf : Nat} (h : m.lookup space v = some leaf) :
    m.translateIn space v = some (target leaf + v % pageSize) := by
  unfold Memory.lookup at h
  obtain ⟨table, hwalk, hleaf⟩ := Option.bind_eq_some_iff.mp h
  obtain ⟨t₃, hwalk, hstep₄⟩ := translateFrom_of_walk 30 [21, 12] hwalk
  obtain ⟨t₂, hwalk, hstep₃⟩ := translateFrom_of_walk 21 [12] hwalk
  obtain ⟨t₁, hwalk, hstep₂⟩ := translateFrom_of_walk 12 [] hwalk
  obtain rfl : t₁ = table := Option.some.inj hwalk
  unfold Memory.translateIn
  rw [hstep₄, hstep₃, hstep₂]
  dsimp only at hleaf
  split at hleaf
  · rename_i hp
    rw [← Option.some.inj hleaf]
    exact if_pos hp
  · cases hleaf

/-- The translation of a window address goes on from the window's root. -/
theorem translateIn_window (hw : HasWindow places m (target space))
    (hv : deviceWindowBase ≤ v) (hv' : v < windowEnd) :
    m.translateIn space v = m.translateFrom v [30, 21, 12]
      (target (m.words (target space) windowEntry)) := by
  have hindex : (v >>> 39) &&& 0x1FF = windowEntry :=
    (List.cons.inj (upperIndices_window hv hv')).1
  unfold Memory.translateIn
  rw [translateFrom_link (by rw [hindex]; exact hw.1) (by rw [hindex]; exact hw.2.1), hindex]

/-- The translation reads the tables of the window only. -/
theorem translateFrom_congr {w : Nat} (h : Owned places m)
    (hw : places w = some (.window, []))
    (hsame : ∀ f path, places f = some (.window, path) → m'.words f = m.words f) :
    m'.translateFrom v [30, 21, 12] w = m.translateFrom v [30, 21, 12] w := by
  have hin := within_window v
  -- An inner entry is absent, or it links to the next table of the window.
  have hstep : ∀ {t path shift next rest}, places t = some (.window, path) →
      path.length + 1 < 3 → pageTree.inside .window path ((v >>> shift) &&& 0x1FF) →
      (∀ u, places u = some (.window, ((v >>> shift) &&& 0x1FF) :: path) →
        m'.translateFrom v (next :: rest) u = m.translateFrom v (next :: rest) u) →
      m'.translateFrom v (shift :: next :: rest) t =
        m.translateFrom v (shift :: next :: rest) t := by
    intro t path shift next rest ht hlen hi hnext
    have hwords := hsame t path ht
    by_cases hp : Present (m.words t ((v >>> shift) &&& 0x1FF))
    · have hh := isOpen_eq_true.mp (h.forest.opens ht hlen hi (ref_eq hp))
      have hchild := h.forest.child ht (Nat.lt_of_succ_lt hlen) hi (ref_eq hp)
      rw [translateFrom_link hp hh, translateFrom_link (by rw [hwords]; exact hp)
        (by rw [hwords]; exact hh), hwords]
      exact hnext _ hchild
    · rw [translateFrom_absent hp, translateFrom_absent (by rw [hwords]; exact hp)]
  refine hstep hw (by decide) hin.1 fun t₂ ht₂ =>
    hstep ht₂ (Nat.lt_succ_self 2) hin.2.1 fun t₁ ht₁ => ?_
  unfold Memory.translateFrom
  rw [hsame t₁ _ ht₁]

end Translate

/-! ## Coherence -/

/-- In every reachable state all spaces translate the window alike, the
stacks that were allocated under any space are mapped in every space, and
destroying a space changes no translation of the window. -/
theorem kernelHalf_coherent {config : PagingConfig} {boot : Nat} {base : Memory}
    {s : SpaceState} (h : SpacesReached config Always boot base s) :
    (∀ space, space = boot ∨ space ∈ s.live → ∀ v, deviceWindowBase ≤ v → v < windowEnd →
      s.memory.translateIn space v = s.memory.translateIn boot v) ∧
    (∀ slot ∈ s.kernelStacks, ∀ page ∈ kernelStack slot,
      ∀ space, space = boot ∨ space ∈ s.live →
        (s.memory.translateIn space page).isSome) ∧
    ∀ space s', s.step boot (.destroy space) = some s' →
      ∀ other, other = boot ∨ other ∈ s'.live →
        ∀ v, deviceWindowBase ≤ v → v < windowEnd →
          s'.memory.translateIn other v = s.memory.translateIn other v := by
  obtain ⟨places, hsep, hrec⟩ := h.separate
  have htarget : ∀ space, space = boot ∨ space ∈ s.live → target space = space := by
    rintro space (rfl | hlive)
    · exact hsep.bootTarget
    · exact hsep.target_root hlive
  have hwindow : ∀ space, space = boot ∨ space ∈ s.live → ∀ v, deviceWindowBase ≤ v →
      v < windowEnd → s.memory.translateIn space v =
        s.memory.translateFrom v [30, 21, 12] (target (s.memory.words boot windowEntry)) := by
    intro space hspace v hv hv'
    obtain ⟨hw, hsame⟩ := hsep.hasWindow hspace
    rw [← htarget space hspace] at hw
    rw [translateIn_window hw hv hv', htarget space hspace, hsame]
  refine ⟨?_, ?_, ?_⟩
  · intro space hspace v hv hv'
    rw [hwindow space hspace v hv hv', hwindow boot (.inl rfl) v hv hv']
  · intro slot hslot page hpage space hspace
    obtain ⟨hin, hpages⟩ := hrec.kernelStacks slot hslot
    obtain ⟨hguard, hend⟩ := mem_kernelStack hin hpage
    obtain ⟨leaf, hleaf⟩ := Option.isSome_iff_exists.mp (hpages page hpage)
    rw [hwindow space hspace page (base_le_of_guard hguard) hend,
      ← hwindow boot (.inl rfl) page (base_le_of_guard hguard) hend,
      translateIn_of_lookup hleaf]
    rfl
  · intro space s' hs other hother v hv hv'
    unfold SpaceState.step at hs
    dsimp only at hs
    split at hs
    · rename_i hguard
      obtain rfl := Option.some.inj hs
      have hrel := destroyUserAddressSpace_released hsep.owned (hsep.place hguard.1)
      obtain ⟨hsep', -⟩ := hsep.destroy hguard.1 hguard.2
      have hsurvives : other = boot ∨ other ∈ s.live :=
        hother.imp id fun hmem => (List.mem_filter.mp hmem).1
      have hroot := (hsep.hasWindow hsurvives).2
      obtain ⟨hw', hsame'⟩ := hsep'.hasWindow hother
      have hboot : (destroyUserAddressSpace space s.memory).words boot =
          s.memory.words boot := by
        refine hrel.words boot ?_
        rw [below_space_iff]
        rintro ⟨path, hplace⟩
        rw [(hsep.fixed boot (.inl rfl)).1] at hplace
        cases hplace
      rw [← htarget other hsurvives] at hw'
      rw [hwindow other hsurvives v hv hv', translateIn_window hw' hv hv',
        htarget other hsurvives]
      have hsame'' : (destroyUserAddressSpace space s.memory).words other windowEntry =
          s.memory.words boot windowEntry := by
        rw [← hboot]
        exact hsame'
      show (destroyUserAddressSpace space s.memory).translateFrom v [30, 21, 12]
        (target ((destroyUserAddressSpace space s.memory).words other windowEntry)) = _
      rw [hsame'']
      refine translateFrom_congr hsep.owned hsep.window.2.2 fun f path hf => ?_
      refine hrel.words f ?_
      rw [below_space_iff]
      rintro ⟨path', hplace⟩
      rw [hf] at hplace
      cases hplace
    · cases hs

set_option maxRecDepth 100000 in
/-- A stack that was allocated under a space that is gone is mapped in the
boot table and in a space that came later. -/
theorem kernelHalf_coherent_destroyed : ∃ s : SpaceState, 1 ∈ s.kernelStacks ∧
    s.live = [0x10A000] ∧ ∀ page ∈ kernelStack 1, ∀ space,
      space = 0x1000 ∨ space ∈ s.live → (s.memory.translateIn space page).isSome := by
  have hrun : ((spacesAfter Always [.create, .switch 0x103000, .allocateKernelStack 1,
      .create, .switch 0x1000, .destroy 0x103000]).any fun s =>
        decide (1 ∈ s.kernelStacks ∧ s.live = [0x10A000])) = true := by decide +kernel
  obtain ⟨s, hs, hstate⟩ := (Option.any_eq_true _ _).mp hrun
  obtain ⟨hstack, hlive⟩ := of_decide_eq_true hstate
  obtain ⟨base, hreached⟩ := spacesReached_after hs
  exact ⟨s, hstack, hlive, (kernelHalf_coherent hreached).2.1 1 hstack⟩

end OpenKernel
