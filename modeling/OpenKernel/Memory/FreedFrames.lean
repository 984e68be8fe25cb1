import OpenKernel.Memory.FailedStacks
import OpenKernel.Memory.ReleasedStacks

/-!
# Steps that free frames

Frames are given back, pages and stacks are unmapped and other address spaces
are destroyed.  Such steps keep the active address space, and no page becomes
mapped by them.
-/

namespace OpenKernel

open Lib

/-- The step gives a frame back or takes pages from an address space. -/
def SpaceAction.frees : SpaceAction → Bool
  | .free _ => true
  | .unmap _ => true
  | .releaseUserStack _ => true
  | .releaseKernelStack _ => true
  | .destroy _ => true
  | _ => false

/-- The pages may lose their translations, whichever they are. -/
abbrev AnyPage : Nat → Nat → Prop := fun _ _ => True

/-- What a step that frees frames leaves behind. -/
structure Frees (boot : Nat) (base : Memory) (s s' : SpaceState) : Prop where
  separate : ∃ places, Separate boot base places s'
  cr3 : s'.memory.cr3 = s.memory.cr3
  active : s.memory.activeAddressSpace ∈ s.live → s.memory.activeAddressSpace ∈ s'.live
  live : ∀ r ∈ s'.live, r ∈ s.live
  unmaps : Unmaps AnyPage s'.live s.memory s'.memory

section Frees

variable {boot : Nat} {base : Memory} {places places' : Places} {s s' : SpaceState}
  {a : SpaceAction}

/-- The records of the calls do not matter. -/
theorem Separate.congr (h : Separate boot base places s) (hm : s'.memory = s.memory)
    (hlive : s'.live = s.live) (hhand : s'.inHand = s.inHand) :
    Separate boot base places s' := by
  cases s
  cases s'
  dsimp only at hm hlive hhand
  subst hm hlive hhand
  exact ⟨h.owned, h.live, h.roots, h.window, h.upper, h.fixed, h.hand, h.active, h.bootTarget⟩

/-- Translations stay when trees are felled. -/
theorem Separate.translateIn_kept (h : Separate boot base places s)
    (h' : Separate boot base places' s') (hboot : s'.memory.words boot = s.memory.words boot)
    (hsame : SameEntries places' s.memory s'.memory fun _ _ _ => False) {r v : Nat}
    (hr : r ∈ s.live) (hr' : r ∈ s'.live) (hv : CanonicalAddress v) :
    s'.memory.translateIn r v = s.memory.translateIn r v := by
  rcases hv with hv | ⟨hlo, hhi⟩
  · have hentry := hsame (.space r) r (upperIndices v) (leafIndex v) (h'.place hr') rfl
      (within_space r hv) id
    rw [h.translateIn_user hr hv, h'.translateIn_user hr' hv, h.lookup_space hr,
      h'.lookup_space hr', hentry]
  · by_cases hroot : rootIndex v = windowEntry
    · obtain ⟨hlo, hhi⟩ := window_of_rootIndex hlo hhi hroot
      have hentry := hsame .window _ (windowIndices v) (leafIndex v) h'.window.2.2 rfl
        (within_window v) id
      rw [hboot] at hentry
      rw [h.translateIn_window hr hlo hhi, h'.translateIn_window hr' hlo hhi,
        h.lookup_window (.inr hr) hlo hhi, h'.lookup_window (.inr hr') hlo hhi, hboot, hentry]
    · exact h.translateIn_boot h' hr hr' (le_rootIndex hlo hhi) hroot

theorem Separate.frees_of_same (h : Separate boot base places s)
    (h' : Separate boot base places' s') (hcr3 : s'.memory.cr3 = s.memory.cr3)
    (hactive : s.memory.activeAddressSpace ∈ s.live → s.memory.activeAddressSpace ∈ s'.live)
    (hlive : ∀ r ∈ s'.live, r ∈ s.live) (hboot : s'.memory.words boot = s.memory.words boot)
    (hsame : SameEntries places' s.memory s'.memory fun _ _ _ => False) :
    Frees boot base s s' where
  separate := ⟨places', h'⟩
  cr3 := hcr3
  active := hactive
  live := hlive
  unmaps r hr _ hv := .inl (h.translateIn_kept h' hboot hsame (hlive r hr) hr hv)

/-- `free_physical_frame`. -/
theorem Separate.frees_free (h : Separate boot base places s) {frame : Nat}
    (hframe : frame ∈ s.inHand) :
    Frees boot base s
      { s with
        memory := s.memory.freePhysicalFrame frame
        inHand := s.inHand.filter (· ≠ frame) } := by
  have hmoves : Moves boot False places s places _ := Moves.free h hframe
  exact h.frees_of_same (h.moves hmoves) rfl id (fun _ hr => hr) rfl
    (sameEntries_of_words h.owned fun _ _ _ _ _ => rfl)

/-- `unmap_page`. -/
theorem Separate.frees_unmap (h : Separate boot base places s) {v : Nat}
    (hactive : s.memory.activeAddressSpace ∈ s.live) (hv : v < userSpaceEnd) :
    match s.memory.unmapPage v with
    | (some frame, memory) => Frees boot base s
        { s with
          memory
          inHand := frame :: s.inHand
          maps := SpaceState.record s.maps s.memory.activeAddressSpace v none }
    | (none, memory) => Frees boot base s { s with memory } := by
  have hroot : places (target s.memory.cr3) = some (.space (target s.memory.cr3), []) :=
    h.place hactive
  have hends := h.owned.unmapEntry hroot (leafIndex v) rfl (within_space _ hv) (inside_leaf _ v)
  have hstep := Moves.unmapPage False h hactive hv
  rw [← unmapPage_eq] at hends
  cases hx : s.memory.unmapPage v with
  | mk result m' =>
    rw [hx] at hends hstep
    cases result with
    | none =>
      obtain rfl : m' = s.memory := hstep
      exact h.frees_of_same h rfl id (fun _ hr => hr) rfl
        (sameEntries_of_words h.owned fun _ _ _ _ _ => rfl)
    | some frame =>
      obtain ⟨-, hnone, hsame, -, -, -, htouch, -⟩ := hends
      obtain ⟨places', hmoves⟩ := hstep
      have h' := h.moves hmoves
      refine ⟨⟨places', h'⟩, htouch.cr3, id, fun _ hr => hr, ?_⟩
      apply h.unmaps h' rfl (h.boot_kept (htouch.mono fun _ hf => hf.elim)) hsame
      · intro r hr w hw hhit
        obtain ⟨howner, hindices, hleaf⟩ := hhit
        obtain rfl := Owner.space.inj howner
        refine ⟨trivial, ?_⟩
        rw [lookup_eq, h.target_root hr, hindices, hleaf]
        exact hnone
      · intro w _ _ hhit
        exact nomatch hhit.1

/-- `destroy_user_address_space`. -/
theorem Separate.frees_destroy (h : Separate boot base places s) {space : Nat}
    (hspace : space ∈ s.live) (hne : space ≠ s.memory.activeAddressSpace) :
    Frees boot base s
      { s with
        memory := destroyUserAddressSpace space s.memory
        live := s.live.filter (· ≠ space) } := by
  have hrel := destroyUserAddressSpace_released h.owned (h.place hspace)
  obtain ⟨h', -, -, hsame⟩ := h.destroy hspace hne
  apply h.frees_of_same h' hrel.cr3
  · intro hactive
    apply List.mem_filter.mpr
    exact ⟨hactive, decide_eq_true hne.symm⟩
  · intro r hr
    exact (List.mem_filter.mp hr).1
  · apply hrel.words
    rw [below_space_iff]
    intro hbelow
    obtain ⟨path, hplace⟩ := hbelow
    rw [(h.fixed boot (.inl rfl)).1] at hplace
    cases hplace
  · exact hsame

/-- The step lemma. -/
theorem Separate.frees (h : Separate boot base places s)
    (hactive : s.memory.activeAddressSpace ∈ s.live) (ha : a.frees = true)
    (hs : s.step boot a = some s') : Frees boot base s s' := by
  cases a with
  | free frame =>
    unfold SpaceState.step at hs
    dsimp only at hs
    split at hs
    · rename_i hframe
      obtain rfl := Option.some.inj hs
      exact h.frees_free hframe
    · cases hs
  | unmap v =>
    unfold SpaceState.step at hs
    dsimp only at hs
    split at hs
    · rename_i hguard
      have hends := h.frees_unmap hguard.1 hguard.2
      cases hx : s.memory.unmapPage v with
      | mk result m' =>
        rw [hx] at hs hends
        cases result with
        | none =>
          obtain rfl := Option.some.inj hs
          exact hends
        | some frame =>
          obtain rfl := Option.some.inj hs
          exact hends
    · cases hs
  | releaseUserStack slot =>
    unfold SpaceState.step at hs
    dsimp only at hs
    rw [if_pos hactive] at hs
    obtain rfl := Option.some.inj hs
    obtain ⟨places', hmoves⟩ : ∃ places', Moves boot False places s places' _ :=
      Moves.releaseUserStack slot h hactive
    obtain ⟨-, t, -, -, -, hm, hcr3, hun⟩ := h.releaseUserStack hactive slot
    rw [hm] at hcr3
    exact ⟨⟨places', h.moves hmoves⟩, hcr3, id, fun _ hr => hr,
      hun.mono fun _ _ _ => trivial⟩
  | releaseKernelStack slot =>
    unfold SpaceState.step at hs
    dsimp only at hs
    split at hs
    · rename_i hslot
      obtain rfl := Option.some.inj hs
      obtain ⟨places', hmoves⟩ : ∃ places', Moves boot False places s places' _ :=
        Moves.releaseKernelStack h hslot
      obtain ⟨-, t, -, -, -, hm, hcr3, hun⟩ := h.releaseKernelStack hslot
      rw [hm] at hcr3
      exact ⟨⟨places', h.moves hmoves⟩, hcr3, id, fun _ hr => hr,
        hun.mono fun _ _ _ => trivial⟩
    · cases hs
  | destroy space =>
    unfold SpaceState.step at hs
    dsimp only at hs
    split at hs
    · rename_i hguard
      obtain rfl := Option.some.inj hs
      exact h.frees_destroy hguard.1 hguard.2
    · cases hs
  | _ => cases ha

/-- The pages are not mapped in the active address space. -/
structure Vacant (boot : Nat) (base : Memory) (cr3 : Nat) (pages : List Nat)
    (s : SpaceState) : Prop where
  separate : ∃ places, Separate boot base places s
  cr3 : s.memory.cr3 = cr3
  active : s.memory.activeAddressSpace ∈ s.live
  unmapped : ∀ v ∈ pages, s.memory.translate v = none

/-- The run lemma: pages that are not mapped stay so while frames are freed. -/
theorem Vacant.run {cr3 : Nat} {pages : List Nat} (h : Vacant boot base cr3 pages s)
    (hpages : ∀ v ∈ pages, CanonicalAddress v)
    (hrun : Run (SpaceState.step boot) (fun _ a => a.frees = true) s s') :
    Vacant boot base cr3 pages s' := by
  refine hrun.invariant _ ?_ h
  intro t a u hvacant ha hs
  obtain ⟨places, hsep⟩ := hvacant.separate
  have hfrees := hsep.frees hvacant.active ha hs
  have hsame : u.memory.activeAddressSpace = t.memory.activeAddressSpace :=
    congrArg target hfrees.cr3
  refine ⟨hfrees.separate, hfrees.cr3.trans hvacant.cr3, ?_, fun v hv => ?_⟩
  · rw [hsame]
    exact hfrees.active hvacant.active
  · have hnone := hvacant.unmapped v hv
    rw [translate_eq] at hnone ⊢
    rw [hsame]
    rcases hfrees.unmaps _ (hfrees.active hvacant.active) v (hpages v hv) with hkept | hgone
    · rw [hkept]
      exact hnone
    · exact hgone.2

end Frees

end OpenKernel
