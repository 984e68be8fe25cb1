import OpenKernel.Memory.LoadPlan
import OpenKernel.Memory.SpaceRuns

/-!
# Images that are rejected

An image that is rejected leaves a space behind that is half filled.
Destroying it gives back the frames of its tree, so it gives back all that was
taken, unless the loader has lost a frame: one that was taken for a page which
could not be mapped.  Whether that happens depends on the pages that the image
asks for and on the number of free frames.
-/

namespace OpenKernel

open Lib

/-- The pages that the loader asks for. -/
def requestedPages (image : List UInt8) (slot : Nat) : List Nat :=
  pagesOf (planned (planUserElf image slot []))

section Destroyed

variable {space : Nat} {mapped lost : Nat → Prop} {places places' : Places} {m m' : Memory}

/-- Destroying a space that has been filled gives back all frames but the lost
ones. -/
theorem Filled.destroyed (h : Filled space mapped lost places m places' m')
    (hroot : places space = some (.space space, [])) (f : Nat) :
    (destroyUserAddressSpace space m').frames.IsFree f ↔
      FreeOrIn places m (.space space) f ∧ ¬ lost f := by
  have hrel := destroyUserAddressSpace_released h.owned (h.kept _ _ hroot)
  by_cases hlost : lost f
  · obtain ⟨-, hnot, hnone⟩ := h.apart f hlost
    refine iff_of_false ?_ fun hbad => hbad.2 hlost
    rwa [(hrel.frames f ?_).1]
    rw [below_space_iff]
    rintro ⟨path, hplace⟩
    rw [hnone] at hplace
    cases hplace
  · rw [and_iff_left hlost, h.accounts f, or_iff_left hlost]
    unfold FreeOrIn
    rw [← below_space_iff]
    by_cases hgone : Below places' (.space space) [] f
    · exact iff_of_true (hrel.freed f hgone).1 (.inr hgone)
    · rw [(hrel.frames f hgone).1, or_iff_left hgone]

end Destroyed

/-! ## What a rejected image costs -/

section Rejected

variable {config : PagingConfig} {boot space slot : Nat} {base m₁ m₂ : Memory}
  {s : SpaceState} {image : List UInt8} {e : ElfError}

/-- Destroying the space of a rejected image restores the free frames exactly
when no frame is lost at any of its pages. -/
theorem rejected_image_restores (h : SpacesReached config Always boot base s)
    (hcreate : createUserAddressSpace s.memory = .ok space m₁)
    (hload : loadUserElfInto image space slot m₁ = .error e m₂) :
    (∀ f, (destroyUserAddressSpace space m₂).frames.IsFree f ↔ s.memory.frames.IsFree f) ↔
      NeverLoses s.memory.frames.freeSet.card (requestedPages image slot) := by
  obtain ⟨places, hsep, -⟩ := h.separate
  obtain ⟨places₁, howned, hroot, hempty, havailable⟩ := hsep.created hcreate
  have hends := (loadUserElfInto_follows havailable image slot []).2 _ _
    (Loaded.start image howned hroot hempty) (neverLoses_nil _)
  rw [hload] at hends
  have hrestored : ∀ {mapped lost : Nat → Prop} {places' : Places},
      Filled space mapped lost places₁ m₁ places' m₂ →
        ((∀ f, (destroyUserAddressSpace space m₂).frames.IsFree f ↔ s.memory.frames.IsFree f) ↔
          ∀ f, ¬ lost f) := by
    intro mapped lost places' hfilled
    have hfree : ∀ f, (destroyUserAddressSpace space m₂).frames.IsFree f ↔
        s.memory.frames.IsFree f ∧ ¬ lost f := by
      intro f
      rw [hfilled.destroyed hroot, ← havailable, FrameAllocator.mem_freeSet]
    refine ⟨fun hall f hlost => ?_, fun hnone f => (hfree f).trans (and_iff_left (hnone f))⟩
    have hwas : s.memory.frames.IsFree f :=
      (FrameAllocator.mem_freeSet _ f).mp ((havailable f).mpr ((hfilled.accounts f).mpr (.inr hlost)))
    exact ((hfree f).mp ((hall f).mpr hwas)).2 hlost
  unfold requestedPages
  rcases hends with ⟨rs, places', hplan, hloaded, hnever⟩ | ⟨rs, places', hloaded, hquiet⟩ |
    ⟨⟨mapped, frame, places', hfilled⟩, hloses⟩
  · rw [hplan]
    exact iff_of_true ((hrestored hloaded.filled).mpr fun _ => id) hnever
  · refine iff_of_true ((hrestored hloaded.filled).mpr fun _ => id) ?_
    have hnever := hquiet []
    rwa [List.append_nil] at hnever
  · exact iff_of_false (fun hall => (hrestored hfilled).mp hall frame rfl) hloses

end Rejected

/-- Creating a space and loading the image into it, which fails. -/
def rejects (image : List UInt8) (m : Memory) : Option (Nat × Memory × Memory) :=
  match createUserAddressSpace m with
  | .error _ _ => none
  | .ok space m₁ =>
    match loadUserElfInto image space 2 m₁ with
    | .error _ m₂ => some (space, m₁, m₂)
    | .ok _ _ => none

theorem rejects_eq_some {image : List UInt8} {m m₁ m₂ : Memory} {space : Nat}
    (h : rejects image m = some (space, m₁, m₂)) :
    createUserAddressSpace m = .ok space m₁ ∧
      ∃ e, loadUserElfInto image space 2 m₁ = .error e m₂ := by
  unfold rejects at h
  split at h
  · cases h
  · rename_i space' m₁' hcreate
    split at h
    · rename_i e m₂' hload
      obtain ⟨rfl, rfl, rfl⟩ := Option.some.inj h
      exact ⟨hcreate, e, hload⟩
    · cases h

set_option maxRecDepth 100000 in
/-- The second segment of the image has no bytes. -/
theorem rejected_image_restores_empty : ∃ (m m₁ m₂ : Memory) (space : Nat) (e : ElfError),
    loadUserElfInto (executable [codeHeader futureUserSpaceBase,
      programHeader programHeaderLoad 0 0 futureUserSpaceBase 0 0 pageSize] []) space 2 m₁ =
        .error e m₂ ∧
    ((∀ f, (destroyUserAddressSpace space m₂).frames.IsFree f ↔ m.frames.IsFree f) ↔
      NeverLoses m.frames.freeSet.card (requestedPages (executable [codeHeader futureUserSpaceBase,
        programHeader programHeaderLoad 0 0 futureUserSpaceBase 0 0 pageSize] []) 2)) := by
  have hrun : ((spacesAfter Always []).any fun s : SpaceState =>
      (rejects (executable [codeHeader futureUserSpaceBase,
        programHeader programHeaderLoad 0 0 futureUserSpaceBase 0 0 pageSize] [])
          s.memory).isSome) = true := by
    decide +kernel
  obtain ⟨s, hs, hstate⟩ := (Option.any_eq_true _ _).mp hrun
  obtain ⟨base, hreached⟩ := spacesReached_after hs
  obtain ⟨⟨space, m₁, m₂⟩, hrejects⟩ := Option.isSome_iff_exists.mp hstate
  obtain ⟨hcreate, e, hload⟩ := rejects_eq_some hrejects
  exact ⟨s.memory, m₁, m₂, space, e, hload, rejected_image_restores hreached hcreate hload⟩

set_option maxRecDepth 100000 in
/-- The two segments of the image share a page: the frame that is taken for it
a second time is not given back. -/
theorem rejected_image_loses_frame : ∃ (s : SpaceState) (base m₁ m₂ : Memory) (space f : Nat)
    (e : ElfError), SpacesReached upperHalfConfig Always 0x1000 base s ∧
    createUserAddressSpace s.memory = .ok space m₁ ∧
    loadUserElfInto (executable [codeHeader futureUserSpaceBase,
      codeHeader (futureUserSpaceBase + 1)] []) space 2 m₁ = .error e m₂ ∧
    s.memory.frames.IsFree f ∧ ¬ (destroyUserAddressSpace space m₂).frames.IsFree f := by
  have hrun : ((spacesAfter Always []).any fun s : SpaceState =>
      (rejects (executable [codeHeader futureUserSpaceBase,
        codeHeader (futureUserSpaceBase + 1)] []) s.memory).any fun result =>
          decide (s.memory.frames.IsFree 0x108000) &&
            !decide ((destroyUserAddressSpace result.1 result.2.2).frames.IsFree 0x108000)) =
        true := by
    decide +kernel
  obtain ⟨s, hs, hstate⟩ := (Option.any_eq_true _ _).mp hrun
  obtain ⟨base, hreached⟩ := spacesReached_after hs
  obtain ⟨⟨space, m₁, m₂⟩, hrejects, hframe⟩ := (Option.any_eq_true _ _).mp hstate
  rw [Bool.and_eq_true, decide_eq_true_iff, Bool.not_eq_true', decide_eq_false_iff_not] at hframe
  obtain ⟨hcreate, e, hload⟩ := rejects_eq_some hrejects
  exact ⟨s, base, m₁, m₂, space, _, e, hreached, hcreate, hload, hframe⟩

end OpenKernel
