import OpenKernel.Kernel.Heap
import OpenKernel.Memory.Allocator

/-!
# A request that runs out of frames

The page loop of `brk` returns from its middle.  The pages that it has mapped
by then are not recorded in `heap_mapped_end`, and a frame that was taken for a
page whose tables cannot be made is lost.  So a failed request can be repeated
only if it has failed at once, for want of its first frame.
-/

namespace OpenKernel

open Lib

section Loop

variable {m m' : Memory} {space page count : Nat}

/-- How the loop fails: at its first frame, with that frame lost, or after its
first page. -/
theorem HasSpace.extendHeap_error {e : PagingError} (h : HasSpace space m)
    (hactive : m.activeAddressSpace = space) (hpage : page < userSpaceEnd)
    (herror : Kernel.extendHeap (count + 1) page m = .error e m') :
    ((∀ f, ¬ m.frames.IsFree f) ∧ m' = m) ∨
      (∃ frame, m.frames.IsFree frame ∧ ¬ m'.frames.IsFree frame ∧
        ∀ path index, ¬ References m' space path index frame) ∨
      ((∃ f, m.frames.IsFree f) ∧ (m'.lookup space page).isSome) := by
  obtain ⟨places, ho, hroot⟩ := h
  rw [extendHeap_eq, show target m.cr3 = space from hactive, pagesFrom_succ,
    newUserPages_cons] at herror
  have huserFlags : PageFlags.userReadWrite.bits &&& userBit ≠ 0 := by decide
  have hone := ho.newUserPage hroot page huserFlags
  cases hx : newUserPage space .userReadWrite page m with
  | error e' m₁ =>
    rw [hx] at hone herror
    obtain ⟨-, rfl⟩ := EStateM.Result.error.inj herror
    rcases hone with ⟨-, hnone, rfl⟩ | ⟨frame, places₁, hfree, hfilled, -⟩
    · exact .inl ⟨(m₁.frames.allocate_eq_none_iff).mp hnone, rfl⟩
    · obtain ⟨-, hnot, hplace⟩ := hfilled.apart frame rfl
      refine .inr (.inl ⟨frame, hfree, hnot, fun path index href => ?_⟩)
      have hsome := hfilled.owned.place_of_references (hfilled.kept _ _ hroot) href
      rw [hplace] at hsome
      cases hsome
  | ok frame m₁ =>
    rw [hx] at hone herror
    obtain ⟨places₁, hfilled, hnew⟩ := hone
    have hroot₁ := hfilled.kept _ _ hroot
    have hrest := hfilled.owned.newUserPages hroot₁ huserFlags
      (distinct_pagesFrom (page + pageSize) count)
    dsimp only at herror
    rw [herror] at hrest
    obtain ⟨-, places₂, lost, hfilled'⟩ := hrest
    refine .inr (.inr ⟨⟨frame, hnew.fresh⟩, ?_⟩)
    rw [lookup_sound hfilled'.owned (hfilled'.kept _ _ hroot₁),
      hfilled'.entries _ _ _ _ hroot₁ rfl (within_space space hpage) (by rw [hnew.entry]; rfl),
      hnew.entry]
    rfl

/-- A page of an empty space needs more than one frame. -/
theorem newUserPage_short (flags : PageFlags) (hpage : InUserSpace page)
    (hempty : EmptySpace m space) (hroot : ¬ m.frames.IsFree (target space))
    (hshort : ∀ f g, m.frames.IsFree f → m.frames.IsFree g → f = g) :
    ∃ m', newUserPage space flags page m = .error .frameAllocationFailed m' := by
  rw [newUserPage_run]
  cases hx : m.frames.allocate with
  | mk result frames =>
    cases result with
    | none => exact ⟨m, rfl⟩
    | some frame =>
      obtain ⟨hfree, -, hnot, hothers⟩ := FrameAllocator.allocate_some hx
      have hnone : frames.allocate.1 = none := by
        refine frames.allocate_eq_none_iff.mpr fun f hf => ?_
        by_cases hff : f = frame
        · rw [hff] at hf
          exact hnot hf
        · exact hff (hshort f frame ((hothers f hff).1.mp hf) hfree)
      have hindex : (page >>> 39) &&& 0x1FF < 256 := by
        have hupper := hpage.2
        rw [index_eq]
        have : userSpaceEnd = 2 ^ 47 := by decide
        omega
      have habsent : ¬ Present ((({ m with frames } : Memory).zeroPhysicalFrame frame).words
          (target space) ((page >>> 39) &&& 0x1FF)) := by
        have hne : target space ≠ frame := fun heq => hroot (heq ▸ hfree)
        show ¬ Present (put m.words frame _ (target space) _)
        rw [put_other hne]
        exact hempty _ hindex
      have hfirst : descend flags (target space) ((page >>> 39) &&& 0x1FF)
          (({ m with frames } : Memory).zeroPhysicalFrame frame) =
            .error .frameAllocationFailed
              (({ m with frames } : Memory).zeroPhysicalFrame frame) := by
        rw [descend_of_absent flags habsent]
        cases hy : frames.allocate with
        | mk result' frames' =>
          rw [hy] at hnone
          cases hnone
          have hsecond : (({ m with frames } : Memory).zeroPhysicalFrame frame).frames.allocate =
              (none, frames') := hy
          rw [hsecond]
      dsimp only
      unfold mapUserPageIn
      rw [if_pos hpage, mapPageIn_eq]
      have herror : mapFrom flags (upperIndices page) (leafIndex page) frame (target space)
          (({ m with frames } : Memory).zeroPhysicalFrame frame) = _ :=
        mapFrom_of_first_error hfirst
      rw [herror]
      exact ⟨_, rfl⟩

end Loop

section Free

variable {space : Nat} {m : Memory} {free : List Nat}

theorem HasSpace.onlyFree (h : HasSpace space m)
    (hfree : ∀ frame ∈ free, m.frames.IsFree (frame * pageSize)) :
    HasSpace space { m with frames := m.frames.onlyFree free } := by
  obtain ⟨places, howned, hroot⟩ := h
  refine ⟨places, ⟨howned.forest, fun f x hf hbad => ?_, howned.allocated, howned.aligned⟩, hroot⟩
  obtain ⟨halign, -, hmem⟩ := (m.frames.isFree_onlyFree free f).mp hbad
  have hwas := hfree _ hmem
  rw [Nat.div_mul_cancel (Nat.dvd_of_mod_eq_zero halign)] at hwas
  exact howned.notFree f x hf hwas

end Free

namespace Kernel

/-- The first page of the heap that is not mapped. -/
structure FirstUnmapped (space : Nat) (m : Memory) (page : Nat) : Prop where
  lower : userHeapBase ≤ page
  upper : page ≤ userHeapLimit
  aligned : page % pageSize = 0
  mapped : ∀ v, userHeapBase ≤ v → v < page → (m.lookup space v).isSome
  unmapped : ∀ v, page ≤ v → v < page + pageSize → v < userHeapLimit → m.lookup space v = none

/-- A request in range runs out of frames in the page loop. -/
structure RunsOut (slot : Nat) (k : Kernel) (requestedBreak : Nat) : Prop where
  lower : userHeapBase ≤ requestedBreak
  upper : requestedBreak ≤ userHeapLimit
  grows : (k.userStates slot).heapBreak < requestedBreak
  error : ∃ m, k.heapLoop requestedBreak = .error .frameAllocationFailed m

/-- The failed request has changed nothing, and it is granted once there are
enough frames, if the pages that it asks for are not mapped. -/
structure Retriable (slot space : Nat) (k : Kernel) (requestedBreak : Nat) : Prop where
  result : (k.brkCall requestedBreak).1 = failure
  heapBreak : ((k.brkCall requestedBreak).2.userStates slot).heapBreak =
    (k.userStates slot).heapBreak
  mappedEnd : FirstUnmapped space (k.brkCall requestedBreak).2.memory
    ((k.brkCall requestedBreak).2.userStates slot).heapMappedEnd
  frames : ∀ f, k.memory.frames.IsFree f →
    ¬ (k.brkCall requestedBreak).2.memory.frames.IsFree f →
      ∃ path index, References (k.brkCall requestedBreak).2.memory space path index f
  retry : (∀ v, (k.userStates slot).heapMappedEnd ≤ v → v < pageEnd requestedBreak →
      k.memory.lookup space v = none) →
    ∀ k', HeapUntouched slot space (k.brkCall requestedBreak).2 k' →
      k'.currentStateSlot = slot → k'.activeSpace = space → k'.Supplied requestedBreak →
        (k'.brkCall requestedBreak).1 = requestedBreak

section Failure

variable {k k' : Kernel} {slot space requestedBreak : Nat}

/-- What the call does once its page loop has ended. -/
theorem brkCall_grow (hslot : k.currentStateSlot = slot) (hlower : userHeapBase ≤ requestedBreak)
    (hupper : requestedBreak ≤ userHeapLimit)
    (hgrows : (k.userStates slot).heapBreak < requestedBreak) :
    k.brkCall requestedBreak =
      match k.heapLoop requestedBreak with
      | .ok _ memory =>
        (requestedBreak, k.withBreak memory requestedBreak (pageEnd requestedBreak))
      | .error _ memory => (failure, { k with memory }) := by
  have hpos : 0 < userHeapBase := by decide
  rw [brkCall_run]
  dsimp only
  rewrite [hslot, if_neg (by omega), if_neg (by omega), if_neg (Nat.not_le_of_lt hgrows)]
  rfl

/-- With enough frames a request is granted whose pages are not mapped. -/
theorem brkCall_supplied (hsound : HasSpace space k.memory) (hslot : k.currentStateSlot = slot)
    (hactive : k.activeSpace = space) (hsupplied : k.Supplied requestedBreak)
    (haligned : (k.userStates slot).heapMappedEnd % pageSize = 0)
    (hbase : userHeapBase ≤ (k.userStates slot).heapMappedEnd)
    (hlimit : (k.userStates slot).heapMappedEnd ≤ userHeapLimit)
    (hlower : userHeapBase ≤ requestedBreak) (hupper : requestedBreak ≤ userHeapLimit)
    (hgrows : (k.userStates slot).heapBreak < requestedBreak)
    (hunmapped : ∀ v, (k.userStates slot).heapMappedEnd ≤ v → v < pageEnd requestedBreak →
      k.memory.lookup space v = none) :
    (k.brkCall requestedBreak).1 = requestedBreak := by
  have hstop : (k.userStates slot).heapMappedEnd + k.growth requestedBreak * pageSize =
      max (k.userStates slot).heapMappedEnd (pageEnd requestedBreak) := by
    have hmod := pageEnd_mod requestedBreak
    unfold growth
    rw [hslot]
    unfold pageSize at *
    omega
  have hends := hsound.extendHeap (k.growth requestedBreak) hactive haligned hbase
    (by rw [hstop]; exact Nat.max_le.mpr ⟨hlimit, pageEnd_le_limit hupper⟩)
  rw [brkCall_grow hslot hlower hupper hgrows]
  unfold Supplied heapLoop at hsupplied
  unfold heapLoop
  rw [hslot] at hsupplied ⊢
  cases hx : extendHeap (k.growth requestedBreak) (k.userStates slot).heapMappedEnd k.memory with
  | ok u memory => rfl
  | error e memory =>
    rw [hx] at hends hsupplied
    obtain ⟨-, rfl | ⟨-, v, hv, hsome⟩⟩ := hends
    · exact absurd rfl (hsupplied memory)
    · have hlt := hv.upper
      rw [hstop] at hlt
      rw [hunmapped v hv.lower (by have := hv.lower; omega)] at hsome
      cases hsome

/-- How the call has failed. -/
theorem RunsOut.cases (hout : RunsOut slot k requestedBreak) (hsound : HasSpace space k.memory)
    (hslot : k.currentStateSlot = slot) (hactive : k.activeSpace = space) :
    ∃ m', k.brkCall requestedBreak = (failure, { k with memory := m' }) ∧
      (k.userStates slot).heapMappedEnd < userHeapLimit ∧
      (((∀ f, ¬ k.memory.frames.IsFree f) ∧ m' = k.memory) ∨
        (∃ frame, k.memory.frames.IsFree frame ∧ ¬ m'.frames.IsFree frame ∧
          ∀ path index, ¬ References m' space path index frame) ∨
        ((∃ f, k.memory.frames.IsFree f) ∧
          (m'.lookup space (k.userStates slot).heapMappedEnd).isSome)) := by
  obtain ⟨hlower, hupper, hgrows, m', herror⟩ := hout
  have hcall := brkCall_grow hslot hlower hupper hgrows
  rw [herror] at hcall
  have hloop := herror
  unfold heapLoop at hloop
  rw [hslot] at hloop
  obtain ⟨count, hcount⟩ : ∃ count, k.growth requestedBreak = count + 1 := by
    cases hgrowth : k.growth requestedBreak with
    | zero =>
      rw [hgrowth] at hloop
      cases hloop
    | succ count => exact ⟨count, rfl⟩
  have hbelow : (k.userStates slot).heapMappedEnd < userHeapLimit := by
    have hend := pageEnd_le_limit hupper
    unfold growth at hcount
    rw [hslot] at hcount
    unfold pageSize at hcount
    omega
  rw [hcount] at hloop
  exact ⟨m', hcall, hbelow,
    hsound.extendHeap_error hactive (Nat.lt_trans hbelow (by decide)) hloop⟩

/-- With a frame free the request has taken something that it has not
recorded. -/
theorem RunsOut.not_retriable (hout : RunsOut slot k requestedBreak)
    (hsound : HasSpace space k.memory) (hslot : k.currentStateSlot = slot)
    (hactive : k.activeSpace = space) {f : Nat} (hfree : k.memory.frames.IsFree f) :
    ¬ Retriable slot space k requestedBreak := by
  intro hretriable
  obtain ⟨m', hcall, hbelow, hhow⟩ := hout.cases hsound hslot hactive
  have hmappedEnd := hretriable.mappedEnd
  have hframes := hretriable.frames
  rw [hcall] at hmappedEnd hframes
  rcases hhow with ⟨hnone, -⟩ | ⟨frame, hfree', hnot, hlost⟩ | ⟨-, hsome⟩
  · exact hnone f hfree
  · obtain ⟨path, index, href⟩ := hframes frame hfree' hnot
    exact hlost path index href
  · have hnone : m'.lookup space (k.userStates slot).heapMappedEnd = none :=
      hmappedEnd.unmapped _ (Nat.le_refl _) (Nat.lt_add_of_pos_right (by decide)) hbelow
    rw [hnone] at hsome
    cases hsome

/-- A request that has run out of frames can be repeated exactly when there
was no frame for it at all. -/
theorem failed_brk_retriable (hsound : HasSpace space k.memory)
    (hfirst : FirstUnmapped space k.memory (k.userStates slot).heapMappedEnd)
    (hslot : k.currentStateSlot = slot) (hactive : k.activeSpace = space)
    (hout : RunsOut slot k requestedBreak) :
    Retriable slot space k requestedBreak ↔ ∀ f, ¬ k.memory.frames.IsFree f := by
  refine ⟨fun hretriable f hfree =>
    hout.not_retriable hsound hslot hactive hfree hretriable, fun hnone => ?_⟩
  obtain ⟨m', hcall, -, hhow⟩ := hout.cases hsound hslot hactive
  have hsame : m' = k.memory := by
    rcases hhow with ⟨-, hsame⟩ | ⟨frame, hfree, -⟩ | ⟨⟨f, hfree⟩, -⟩
    · exact hsame
    · exact absurd hfree (hnone frame)
    · exact absurd hfree (hnone f)
  have hstate : (k.brkCall requestedBreak).2 = k := by
    rw [hcall, hsame]
  refine ⟨by rw [hcall], by rw [hstate], by rw [hstate]; exact hfirst, ?_, ?_⟩
  · intro f hfree
    exact absurd hfree (hnone f)
  · intro hunmapped k' hk' hslot' hactive' hsupplied
    rw [hstate] at hk'
    refine brkCall_supplied hk'.sound hslot' hactive' hsupplied ?_ ?_ ?_ hout.lower hout.upper
      ?_ ?_
    · rw [hk'.heapMappedEnd]
      exact hfirst.aligned
    · rw [hk'.heapMappedEnd]
      exact hfirst.lower
    · rw [hk'.heapMappedEnd]
      exact hfirst.upper
    · rw [hk'.heapBreak]
      exact hout.grows
    · intro v hv hv'
      rw [hk'.heapMappedEnd] at hv
      rw [hk'.lookups v (Nat.le_trans hfirst.lower hv)
        (Nat.lt_of_lt_of_le hv' (pageEnd_le_limit hout.upper))]
      exact hunmapped v hv hv'

end Failure

/-! ## Few frames -/

section Short

variable {m : Memory} {space : Nat}

/-- A process in an empty space asks for its first byte, and at most one frame
is free. -/
theorem runsOut_initial (hempty : EmptySpace m space) (hactive : m.activeAddressSpace = space)
    (hroot : ¬ m.frames.IsFree space)
    (hshort : ∀ f g, m.frames.IsFree f → m.frames.IsFree g → f = g) :
    RunsOut 0 (initial m) (userHeapBase + 1) where
  lower := by decide
  upper := by decide
  grows := Nat.lt_succ_self _
  error := by
    have hpage : InUserSpace userHeapBase := by decide
    have htarget : target space = space := by
      rw [← hactive]
      exact target_target m.cr3
    obtain ⟨m', herror⟩ := newUserPage_short .userReadWrite hpage hempty (by rwa [htarget]) hshort
    refine ⟨m', ?_⟩
    have hgrowth : (initial m).growth (userHeapBase + 1) = 1 := by
      show (pageEnd (userHeapBase + 1) - userHeapBase + pageSize - 1) / pageSize = 1
      decide
    show extendHeap ((initial m).growth (userHeapBase + 1)) userHeapBase m = _
    rw [hgrowth, extendHeap_eq, show target m.cr3 = space from hactive, pagesFrom_succ,
      newUserPages_cons, herror]

theorem firstUnmapped_initial (hempty : EmptySpace m space) :
    FirstUnmapped space m userHeapBase where
  lower := Nat.le_refl _
  upper := by decide
  aligned := by decide
  mapped v hv hv' := absurd hv (Nat.not_le_of_lt hv')
  unmapped v _ _ hv := hempty.lookup (Nat.lt_trans hv (by decide))

end Short

/-- A memory in which the space at `0x103000` is active and empty. -/
def RunsEmpty (m : Memory) : Prop :=
  EmptySpace m 0x103000 ∧ m.activeAddressSpace = 0x103000

set_option maxRecDepth 100000 in
/-- Such a memory in which only the frames of these numbers are free. -/
theorem runsEmpty (free : List Nat) (hfree : ∀ frame ∈ free, frame = 0x104) :
    ∃ m, HasSpace 0x103000 m ∧ RunsEmpty m ∧ ∀ f, m.frames.IsFree f ↔
      f % pageSize = 0 ∧ f < maxPhysicalAddress ∧ f / pageSize ∈ free := by
  have hrun : ((spacesAfter (fun _ _ => True) [.create, .switch 0x103000]).any
      fun s : SpaceState => decide (0x103000 ∈ s.live ∧ EmptySpace s.memory 0x103000) &&
        decide (s.memory.activeAddressSpace = 0x103000 ∧
          s.memory.frames.IsFree (0x104 * pageSize))) = true := by
    decide +kernel
  obtain ⟨s, hs, hstate⟩ := (Option.any_eq_true _ _).mp hrun
  obtain ⟨base, hreached⟩ := spacesReached_after hs
  rw [Bool.and_eq_true, decide_eq_true_iff, decide_eq_true_iff] at hstate
  obtain ⟨⟨hlive, hempty⟩, hactive, hframe⟩ := hstate
  refine ⟨_, (hreached.hasSpace hlive).onlyFree fun frame hmem => ?_, ⟨hempty, hactive⟩,
    s.memory.frames.isFree_onlyFree free⟩
  rw [hfree frame hmem]
  exact hframe

/-- No frame is left: the request fails and can be repeated. -/
theorem failed_brk_retriable_exhausted : ∃ k : Kernel, RunsOut 0 k (userHeapBase + 1) ∧
    (Retriable 0 0x103000 k (userHeapBase + 1) ↔ ∀ f, ¬ k.memory.frames.IsFree f) := by
  obtain ⟨m, hspace, ⟨hempty, hactive⟩, hfree⟩ := runsEmpty [] fun frame hmem => nomatch hmem
  have hnone : ∀ f, ¬ m.frames.IsFree f := by
    intro f hf
    obtain ⟨-, -, hmem⟩ := (hfree f).mp hf
    cases hmem
  have hout : RunsOut 0 (initial m) (userHeapBase + 1) :=
    runsOut_initial hempty hactive (hnone _) fun f _ hf => absurd hf (hnone f)
  exact ⟨initial m, hout,
    failed_brk_retriable hspace (firstUnmapped_initial hempty) rfl hactive hout⟩

/-- One frame is left: the request takes it for the page, has none for the
page's table, and keeps it. -/
theorem failed_brk_takes_frame : ∃ k : Kernel, HasSpace 0x103000 k.memory ∧
    FirstUnmapped 0x103000 k.memory (k.userStates 0).heapMappedEnd ∧
    k.currentStateSlot = 0 ∧ k.activeSpace = 0x103000 ∧ RunsOut 0 k (userHeapBase + 1) ∧
    ¬ Retriable 0 0x103000 k (userHeapBase + 1) := by
  obtain ⟨m, hspace, ⟨hempty, hactive⟩, hfree⟩ :=
    runsEmpty [0x104] fun frame hmem => List.mem_singleton.mp hmem
  have hone : ∀ f, m.frames.IsFree f → f = 0x104000 := by
    intro f hf
    obtain ⟨halign, -, hmem⟩ := (hfree f).mp hf
    rw [← Nat.div_mul_cancel (Nat.dvd_of_mod_eq_zero halign), List.mem_singleton.mp hmem]
    rfl
  have hout : RunsOut 0 (initial m) (userHeapBase + 1) := by
    refine runsOut_initial hempty hactive (fun hroot => absurd (hone _ hroot) (by decide)) ?_
    intro f g hf hg
    rw [hone f hf, hone g hg]
  have hleft : (initial m).memory.frames.IsFree 0x104000 := (hfree _).mpr (by decide)
  exact ⟨initial m, hspace, firstUnmapped_initial hempty, rfl, hactive, hout,
    hout.not_retriable hspace rfl hactive hleft⟩

end Kernel

end OpenKernel
