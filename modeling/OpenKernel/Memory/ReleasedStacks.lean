import OpenKernel.Memory.KernelMappings

/-!
# Releasing stacks

`release_kernel_stack` and `release_user_stack` unmap the pages of a stack in
the active space.  `Unmaps` says what that does to the translations of every
address space: those of the stack's pages are gone, and all others are as
before.
-/

namespace OpenKernel

open Lib

/-- An address that the hardware accepts. -/
def CanonicalAddress (v : Nat) : Prop :=
  v < userSpaceEnd ∨ 2 ^ 64 - 2 ^ 47 ≤ v ∧ v < 2 ^ 64

/-- The address lies in one of the pages. -/
def OnPages (pages : List Nat) (v : Nat) : Prop :=
  ∃ page ∈ pages, v / pageSize = page / pageSize

section Translate

variable {places : Places} {m : Memory} {o : Owner} {path : List Nat} {table v : Nat}

/-- Inside a tree the hardware's walk ends at the leaf that the kernel's walk
ends at. -/
theorem translateFrom_entry (h : Owned places m) {shifts : List Nat}
    (ht : places table = some (o, path))
    (hlen : path.length + shifts.length + 1 = pageTree.depth o)
    (hin : pageTree.Within o path (shifts.map fun shift => (v >>> shift) &&& 0x1FF)) :
    m.translateFrom v (shifts ++ [12]) table =
      (pageTree.entry m.words (shifts.map fun shift => (v >>> shift) &&& 0x1FF) (leafIndex v)
        table).map fun leaf => target leaf + v % pageSize := by
  induction shifts generalizing table path with
  | nil =>
    rw [List.map_nil, entry_of_walk rfl]
    show (if Present (m.words table (leafIndex v)) then _ else none : Option Nat) = _
    by_cases hp : Present (m.words table (leafIndex v))
    · rw [if_pos hp, if_pos hp]
      rfl
    · rw [if_neg hp, if_neg hp]
      rfl
  | cons shift shifts ih =>
    obtain ⟨hindex, hrest⟩ := hin
    rw [List.length_cons] at hlen
    obtain ⟨next, rest, hnext⟩ : ∃ next rest, shifts ++ [12] = next :: rest := by
      cases shifts with
      | nil => exact ⟨12, [], rfl⟩
      | cons next rest => exact ⟨next, rest ++ [12], rfl⟩
    rw [List.cons_append, hnext]
    unfold Radix.entry
    rw [List.map_cons, Radix.walk]
    by_cases hp : Present (m.words table ((v >>> shift) &&& 0x1FF))
    · have hopen := h.forest.opens ht (by omega) hindex (ref_eq hp)
      have hchild := h.forest.child ht (by omega) hindex (ref_eq hp)
      have hfollow := h.forest.follow_eq ht (by omega) hindex
      rw [ref_eq hp] at hfollow
      rw [translateFrom_link hp (isOpen_eq_true.mp hopen), hfollow, ← hnext]
      exact ih hchild (by rw [List.length_cons]; omega) hrest
    · have hfollow := h.forest.follow_eq ht (by omega) hindex
      rw [ref_eq_none hp] at hfollow
      rw [translateFrom_absent hp, hfollow]
      rfl

end Translate

section Spaces

variable {boot : Nat} {base : Memory} {places places' : Places} {s s' : SpaceState} {r v : Nat}

theorem Separate.translateIn_user (h : Separate boot base places s) (hr : r ∈ s.live)
    (hv : v < userSpaceEnd) :
    s.memory.translateIn r v =
      (s.memory.lookup r v).map fun leaf => target leaf + v % pageSize := by
  rw [h.lookup_space hr]
  unfold Memory.translateIn
  rw [h.target_root hr]
  show s.memory.translateFrom v ([39, 30, 21] ++ [12]) r = _
  exact translateFrom_entry h.owned (h.place hr) rfl (within_space r hv)

theorem Separate.translateIn_window (h : Separate boot base places s) (hr : r ∈ s.live)
    (hv : deviceWindowBase ≤ v) (hv' : v < windowEnd) :
    s.memory.translateIn r v =
      (s.memory.lookup r v).map fun leaf => target leaf + v % pageSize := by
  obtain ⟨hw, hsame⟩ := h.hasWindow (.inr hr)
  have htarget := h.target_root hr
  rw [h.lookup_window (.inr hr) hv hv']
  rw [OpenKernel.translateIn_window (by rw [htarget]; exact hw) hv hv', htarget, hsame]
  show s.memory.translateFrom v ([30, 21] ++ [12]) _ = _
  exact translateFrom_entry h.owned h.window.2.2 rfl (within_window v)

/-- Kernel addresses outside the window are translated by the tables that the
kernel was booted with. -/
theorem Separate.translateIn_boot (h : Separate boot base places s)
    (h' : Separate boot base places' s') (hr : r ∈ s.live) (hr' : r ∈ s'.live)
    (hupper : 256 ≤ rootIndex v) (hwindow : rootIndex v ≠ windowEntry) :
    s'.memory.translateIn r v = s.memory.translateIn r v := by
  have hroot : ∀ {places s}, Separate boot base places s → r ∈ s.live →
      s.memory.words r (rootIndex v) = base.words boot (rootIndex v) := by
    intro places s h hr
    rw [h.upper r hr _ hupper (rootIndex_lt v), (h.fixed boot (.inl rfl)).2.2.1]
  have hentry := (hroot h' hr').trans (hroot h hr).symm
  unfold Memory.translateIn
  rw [h.target_root hr]
  by_cases hp : Present (s.memory.words r (rootIndex v))
  · by_cases hh : Huge (s.memory.words r (rootIndex v))
    · rw [translateFrom_huge hp hh,
        translateFrom_huge (by rw [hentry]; exact hp) (by rw [hentry]; exact hh)]
    · rw [translateFrom_link (by rw [← rootIndex, hentry]; exact hp)
          (by rw [← rootIndex, hentry]; exact hh),
        translateFrom_link hp hh, ← rootIndex, hentry]
      apply translateFrom_same
      intro path t hlen hpath hwalk
      have htable : BootFrame base boot t := by
        refine .inr (h.kernelTable_base ⟨rootIndex v, path, hupper, rootIndex_lt v, hwindow,
          Nat.le_of_lt_succ hlen, ?_⟩)
        rw [← h.walk_upper (.inr hr) hupper (rootIndex_lt v)]
        unfold Memory.walk
        dsimp only
        rw [if_neg (by rw [not_or, not_not]; exact ⟨hp, hh⟩)]
        exact hwalk
      rw [(h'.fixed t htable).2.2.1, (h.fixed t htable).2.2.1]
  · rw [translateFrom_absent (by rw [← rootIndex, hentry]; exact hp),
      translateFrom_absent hp]

/-- An upper address that goes through the window's root entry lies in the
window. -/
theorem window_of_rootIndex (hv : 2 ^ 64 - 2 ^ 47 ≤ v) (hv' : v < 2 ^ 64)
    (hroot : rootIndex v = windowEntry) : deviceWindowBase ≤ v ∧ v < windowEnd := by
  have hbase : deviceWindowBase = 2 ^ 39 * 0x1FFFFFE := by decide
  have hend : windowEnd = 2 ^ 39 * 0x1FFFFFF := by decide
  have hentry : windowEntry = 510 := by decide
  unfold rootIndex at hroot
  rw [index_eq, hentry] at hroot
  omega

end Spaces

/-! ## What is left of the translations -/

/-- In the address spaces `live` the pages of `gone` may have lost their
translations, and all other translations are as before. -/
def Unmaps (gone : Nat → Nat → Prop) (live : List Nat) (m m' : Memory) : Prop :=
  ∀ r ∈ live, ∀ v, CanonicalAddress v →
    m'.translateIn r v = m.translateIn r v ∨ gone r v ∧ m'.translateIn r v = none

section Unmaps

variable {gone gone' : Nat → Nat → Prop} {live : List Nat} {m m' m'' : Memory}

theorem Unmaps.refl : Unmaps gone live m m := fun _ _ _ _ => .inl rfl

theorem Unmaps.trans (h : Unmaps gone live m m') (h' : Unmaps gone' live m' m'') :
    Unmaps (fun r v => gone r v ∨ gone' r v) live m m'' := by
  intro r hr v hv
  rcases h' r hr v hv with hsame | ⟨hgone, hnone⟩
  · rw [hsame]
    exact (h r hr v hv).imp_right fun hgone => ⟨.inl hgone.1, hgone.2⟩
  · exact .inr ⟨.inr hgone, hnone⟩

theorem Unmaps.mono (h : Unmaps gone live m m') (hsub : ∀ r v, gone r v → gone' r v) :
    Unmaps gone' live m m' :=
  fun r hr v hv => (h r hr v hv).imp_right fun hgone => ⟨hsub r v hgone.1, hgone.2⟩

end Unmaps

section Release

variable {boot : Nat} {base : Memory} {places places' : Places} {s s' : SpaceState}
  {except : Owner → List Nat → Nat → Prop} {slot : Nat}

/-- Entries that have gone from the window or from a space. -/
theorem Separate.unmaps (h : Separate boot base places s) (h' : Separate boot base places' s')
    (hlive : s'.live = s.live) (hboot : s'.memory.words boot = s.memory.words boot)
    (hsame : SameEntries places s.memory s'.memory except) {gone : Nat → Nat → Prop}
    (hspace : ∀ r ∈ s.live, ∀ v < userSpaceEnd, except (.space r) (upperIndices v) (leafIndex v) →
      gone r v ∧ s'.memory.lookup r v = none)
    (hwindow : ∀ v, deviceWindowBase ≤ v → v < windowEnd →
      except .window (windowIndices v) (leafIndex v) → (∀ r, gone r v) ∧
        pageTree.entry s'.memory.words (windowIndices v) (leafIndex v)
          (target (s.memory.words boot windowEntry)) = none) :
    Unmaps gone s.live s.memory s'.memory := by
  intro r hr v hv
  have hr' : r ∈ s'.live := by rwa [hlive]
  rcases hv with hv | ⟨hlo, hhi⟩
  · rw [h.translateIn_user hr hv, h'.translateIn_user hr' hv]
    by_cases hhit : except (.space r) (upperIndices v) (leafIndex v)
    · obtain ⟨hgone, hnone⟩ := hspace r hr v hv hhit
      exact .inr ⟨hgone, by rw [hnone]; rfl⟩
    · exact .inl (by rw [h.lookup_kept hsame hr hv hhit])
  · have hupper := le_rootIndex hlo hhi
    by_cases hroot : rootIndex v = windowEntry
    · obtain ⟨hlo, hhi⟩ := window_of_rootIndex hlo hhi hroot
      rw [h.translateIn_window hr hlo hhi, h'.translateIn_window hr' hlo hhi,
        h.lookup_window (.inr hr) hlo hhi, h'.lookup_window (.inr hr') hlo hhi, hboot]
      by_cases hhit : except .window (windowIndices v) (leafIndex v)
      · obtain ⟨hgone, hnone⟩ := hwindow v hlo hhi hhit
        exact .inr ⟨hgone r, by rw [hnone]; rfl⟩
      · exact .inl (by rw [hsame .window _ _ _ h.window.2.2 rfl (within_window v) hhit])
    · exact .inl (h.translateIn_boot h' hr hr' hupper hroot)

/-- `release_kernel_stack`. -/
theorem Separate.releaseKernelStack (h : Separate boot base places s)
    (hslot : StackInWindow slot) :
    ∃ places' s', Separate boot base places' s' ∧ s'.live = s.live ∧ s'.inHand = s.inHand ∧
      s'.memory = s.memory.releaseKernelStack slot ∧ s'.memory.cr3 = s.memory.cr3 ∧
      Unmaps (fun _ v => OnPages (kernelStack slot) v) s.live s.memory
        (s.memory.releaseKernelStack slot) := by
  obtain ⟨⟨places₁, h₁, htouch, hsame, -⟩, hgone⟩ :=
    h.reach_window.releasePages h.owned fun v hv => mem_kernelStack hslot hv
  obtain ⟨places', hmoves⟩ : ∃ places', Moves boot False places s places' _ :=
    Moves.releaseKernelStack h hslot
  have h' := h.moves hmoves
  refine ⟨places', _, h', rfl, rfl, rfl, htouch.cr3, h.unmaps h' rfl ?_ hsame ?_ ?_⟩
  · exact h.boot_kept (htouch.mono fun _ hf => hf.elim)
  · rintro r - v - ⟨hbad, -⟩
    cases hbad
  · rintro v hlo hhi ⟨-, w, hw, hindices, hleaf⟩
    have hw' := mem_kernelStack hslot hw
    have hpage := stack_page hw' ⟨hlo, hhi⟩ hindices.symm hleaf.symm
    refine ⟨fun _ => ⟨w, hw, hpage.symm⟩, ?_⟩
    rw [hleaf, show windowIndices v = pathIn .window w from hindices]
    exact hgone w hw

/-- `release_user_stack`. -/
theorem Separate.releaseUserStack (h : Separate boot base places s)
    (hactive : s.memory.activeAddressSpace ∈ s.live) (slot : Nat) :
    ∃ places' s', Separate boot base places' s' ∧ s'.live = s.live ∧ s'.inHand = s.inHand ∧
      s'.memory = s.memory.releaseUserStack slot ∧ s'.memory.cr3 = s.memory.cr3 ∧
      Unmaps (fun r v => r = s.memory.activeAddressSpace ∧ OnPages (userStack slot) v) s.live
        s.memory (s.memory.releaseUserStack slot) := by
  obtain ⟨⟨places₁, h₁, htouch, hsame, -⟩, hgone⟩ :=
    (h.reach_space hactive).releasePages h.owned fun v hv => userStack_lt hv
  obtain ⟨places', hmoves⟩ : ∃ places', Moves boot False places s places' _ :=
    Moves.releaseUserStack slot h hactive
  have h' := h.moves hmoves
  refine ⟨places', _, h', rfl, rfl, rfl, htouch.cr3, h.unmaps h' rfl ?_ hsame ?_ ?_⟩
  · exact h.boot_kept (htouch.mono fun _ hf => hf.elim)
  · rintro r hr v hv ⟨hspace, w, hw, hindices, hleaf⟩
    obtain rfl := Owner.space.inj hspace
    have hpage := (same_page hv (userStack_lt hw)).mp ⟨hindices, hleaf⟩
    refine ⟨⟨rfl, w, hw, hpage⟩, ?_⟩
    rw [lookup_eq, h.target_root hr, hleaf, show upperIndices v = upperIndices w from hindices]
    exact hgone w hw
  · rintro v - - ⟨hbad, -⟩
    cases hbad

end Release

end OpenKernel
