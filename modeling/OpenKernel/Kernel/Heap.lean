import OpenKernel.Kernel.ActiveSpace
import OpenKernel.Memory.CheckedElf
import OpenKernel.Memory.NewPages

/-!
# The heap of a process

`brk` keeps the mappings when the break shrinks, and writes
`heap_mapped_end` from the request when it grows.  As long as no growing
request ends below `heap_mapped_end`, rounded up to a page, it is the end of
what is mapped and every request is granted.
-/

namespace OpenKernel

open Lib

/-- The tree of a space that is in use is there. -/
theorem SpacesReached.hasSpace {config : PagingConfig}
    {guard : SpaceState → SpaceAction → Prop} {boot : Nat} {base : Memory} {s : SpaceState}
    (h : SpacesReached config guard boot base s) {space : Nat} (hlive : space ∈ s.live) :
    HasSpace space s.memory := by
  obtain ⟨places, hsep, -⟩ := h.separate
  exact ⟨places, hsep.owned, hsep.place hlive⟩

/-- The page at `v` is mapped read-write. -/
def ReadWrite (m : Memory) (space v : Nat) : Prop :=
  ∃ frame, target frame = frame ∧
    m.lookup space v = some (frame ||| PageFlags.userReadWrite.bits)

/-- The end of the page that ends at or after `v`. -/
def pageEnd (v : Nat) : Nat := (v + pageSize - 1) / pageSize * pageSize

/-- The pages from `page` on. -/
def pagesFrom (page count : Nat) : List Nat :=
  (List.range count).map fun i => page + i * pageSize

/-! ## The page loop -/

section Loop

variable {m m' : Memory} {space page count v : Nat}

theorem pagesFrom_succ (page count : Nat) :
    pagesFrom page (count + 1) = page :: pagesFrom (page + pageSize) count := by
  unfold pagesFrom
  rw [List.range_succ_eq_map, List.map_cons, List.map_map, Nat.zero_mul, Nat.add_zero]
  refine congrArg _ (List.map_congr_left fun i _ => ?_)
  show page + (i + 1) * pageSize = page + pageSize + i * pageSize
  rw [Nat.succ_mul]
  omega

theorem mapUserPageIn_target (space page frame : Nat) (flags : PageFlags) :
    mapUserPageIn (target space) page frame flags = mapUserPageIn space page frame flags := by
  unfold mapUserPageIn
  rw [mapPageIn_eq, mapPageIn_eq, target_target]

theorem newUserPage_cr3 (space : Nat) (flags : PageFlags) (page : Nat) :
    KeepsTable (newUserPage space flags page) :=
  KeepsTable.bind .allocatePhysicalFrame fun _ =>
    KeepsTable.bind (.modify fun _ => rfl) fun _ =>
      KeepsTable.bind (.mapUserPageIn _ _ _ _) fun _ => .pure _

/-- The loop of `brk` maps new pages in the active space. -/
theorem extendHeap_eq (count page : Nat) (m : Memory) :
    Kernel.extendHeap count page m =
      newUserPages (target m.cr3) .userReadWrite (pagesFrom page count) m := by
  induction count generalizing page m with
  | zero => rfl
  | succ count ih =>
    have hcr3 := newUserPage_cr3 (target m.cr3) .userReadWrite page m.cr3 m rfl
    rw [pagesFrom_succ, newUserPages_cons, newUserPage_run]
    show EStateM.bind allocatePhysicalFrame _ m = _
    unfold EStateM.bind allocatePhysicalFrame
    rw [newUserPage_run] at hcr3
    cases hx : m.frames.allocate with
    | mk result frames =>
      cases result with
      | none => rw [FrameAllocator.allocate_none hx]
      | some frame =>
        rw [hx] at hcr3
        dsimp only at hcr3 ⊢
        show EStateM.bind (mapUserPageWithFlags page frame .userReadWrite) _
          (({ m with frames } : Memory).zeroPhysicalFrame frame) = _
        unfold EStateM.bind
        have hmap : mapUserPageWithFlags page frame .userReadWrite
            (({ m with frames } : Memory).zeroPhysicalFrame frame) =
          mapUserPageIn (target m.cr3) page frame .userReadWrite
            (({ m with frames } : Memory).zeroPhysicalFrame frame) := by
          rw [mapUserPageIn_target]
          unfold mapUserPageWithFlags mapUserPageIn
          split <;> rfl
        rw [hmap]
        cases hy : mapUserPageIn (target m.cr3) page frame .userReadWrite
            (({ m with frames } : Memory).zeroPhysicalFrame frame) with
        | error e m' => rfl
        | ok u m' =>
          rw [hy] at hcr3
          have hkept : m'.cr3 = m.cr3 := hcr3
          dsimp only
          rw [ih, hkept]

theorem mem_pagesFrom : v ∈ pagesFrom page count ↔ ∃ i < count, page + i * pageSize = v := by
  unfold pagesFrom
  rw [List.mem_map]
  simp only [List.mem_range]

theorem distinct_pagesFrom (page count : Nat) : Distinct (pagesFrom page count) := by
  unfold Distinct pagesFrom
  rw [List.pairwise_map]
  refine List.pairwise_lt_range.imp fun {i j} hij => ?_
  rw [Nat.add_mul_div_right _ _ (by decide), Nat.add_mul_div_right _ _ (by decide)]
  omega

theorem inUserSpace_heap (hv : userHeapBase ≤ v) (hv' : v < userHeapLimit) : InUserSpace v :=
  ⟨Nat.le_trans (by decide) hv, Nat.lt_trans hv' (by decide)⟩

/-- The addresses of the pages from `page` on. -/
structure InPages (page count v : Nat) : Prop where
  lower : page ≤ v
  upper : v < page + count * pageSize

theorem InPages.exists_page (h : InPages page count v) (haligned : page % pageSize = 0) :
    ∃ w ∈ pagesFrom page count, v / pageSize = w / pageSize := by
  obtain ⟨hlower, hupper⟩ := h
  refine ⟨page + (v - page) / pageSize * pageSize, mem_pagesFrom.mpr ⟨_, ?_, rfl⟩, ?_⟩
  · unfold pageSize at *
    omega
  · unfold pageSize at *
    omega

theorem inPages_of_mem (hv : v ∈ pagesFrom page count) : InPages page count v := by
  obtain ⟨i, hi, rfl⟩ := mem_pagesFrom.mp hv
  have hle : (i + 1) * pageSize ≤ count * pageSize := Nat.mul_le_mul_right _ hi
  rw [Nat.succ_mul] at hle
  have hpos : 0 < pageSize := by decide
  exact ⟨Nat.le_add_right _ _, by omega⟩

/-- What the page loop leaves of the heap, whether it comes to its end or
not. -/
structure Extended (space page count : Nat) (m m' : Memory) : Prop where
  sound : HasSpace space m'
  cr3 : m'.cr3 = m.cr3
  outside : ∀ v < userSpaceEnd, ¬ InPages page count v → m'.lookup space v = m.lookup space v
  kept : ∀ v < userSpaceEnd, (m.lookup space v).isSome → m'.lookup space v = m.lookup space v

theorem Filled.extended {lost : Nat → Prop} {places places' : Places}
    (h : Filled space (· ∈ pagesFrom page count) lost places m places' m')
    (ho : Owned places m) (hroot : places space = some (.space space, []))
    (haligned : page % pageSize = 0)
    (hlimit : page + count * pageSize ≤ userHeapLimit) : Extended space page count m m' where
  sound := ⟨places', h.owned, h.kept _ _ hroot⟩
  cr3 := h.touches.cr3
  outside v hv hout := by
    rw [lookup_sound h.owned (h.kept _ _ hroot), lookup_sound ho hroot]
    refine h.same _ _ _ _ hroot rfl (within_space space hv) ?_
    rintro ⟨-, w, hw, hpath, hlast⟩
    have hwin := inPages_of_mem hw
    have hwuser : w < userSpaceEnd :=
      Nat.lt_of_lt_of_le hwin.upper (Nat.le_trans hlimit (by decide))
    have hsame := (same_page hv hwuser).mp ⟨hpath, hlast⟩
    obtain ⟨i, hi, rfl⟩ := mem_pagesFrom.mp hw
    have hle : (i + 1) * pageSize ≤ count * pageSize := Nat.mul_le_mul_right _ hi
    rw [Nat.succ_mul] at hle
    refine hout ⟨?_, ?_⟩
    · unfold pageSize at *
      omega
    · unfold pageSize at *
      omega
  kept v hv hsome := by
    rw [lookup_sound h.owned (h.kept _ _ hroot), lookup_sound ho hroot] at *
    exact h.entries _ _ _ _ hroot rfl (within_space space hv) hsome

/-- How the page loop of `brk` ends. -/
theorem HasSpace.extendHeap (h : HasSpace space m) (count : Nat)
    (hactive : m.activeAddressSpace = space) (haligned : page % pageSize = 0)
    (hbase : userHeapBase ≤ page)
    (hlimit : page + count * pageSize ≤ userHeapLimit) :
    match Kernel.extendHeap count page m with
    | .ok _ m' => Extended space page count m m' ∧
        ∀ v, InPages page count v → m.lookup space v = none ∧ ReadWrite m' space v
    | .error e m' => Extended space page count m m' ∧
        (e = .frameAllocationFailed ∨
          e = .alreadyMapped ∧ ∃ v, InPages page count v ∧ (m.lookup space v).isSome) := by
  obtain ⟨places, ho, hroot⟩ := h
  have huser : ∀ v, InPages page count v → InUserSpace v := fun v hv =>
    inUserSpace_heap (Nat.le_trans hbase hv.lower) (Nat.lt_of_lt_of_le hv.upper hlimit)
  have huserFlags : PageFlags.userReadWrite.bits &&& userBit ≠ 0 := by decide
  have hends := ho.newUserPages hroot huserFlags (distinct_pagesFrom page count)
  have hloop := extendHeap_eq count page m
  rw [show target m.cr3 = space from hactive] at hloop
  rw [hloop]
  cases hx : newUserPages space .userReadWrite (pagesFrom page count) m with
  | ok u m' =>
    rw [hx] at hends
    obtain ⟨places', hfilled, hpages⟩ := hends
    refine ⟨hfilled.extended ho hroot haligned hlimit, fun v hv => ?_⟩
    obtain ⟨w, hw, hpage⟩ := hv.exists_page haligned
    have hvuser := (huser v hv).2
    have hwuser := (huser w (inPages_of_mem hw)).2
    obtain ⟨-, habsent, frame, hplace, hentry⟩ := hpages w hw
    refine ⟨?_, frame, hfilled.owned.aligned frame _ hplace, ?_⟩
    · rw [lookup_page m space hvuser hwuser hpage, lookup_sound ho hroot]
      exact habsent
    · rw [lookup_page m' space hvuser hwuser hpage,
        lookup_sound hfilled.owned (hfilled.kept _ _ hroot)]
      exact hentry
  | error e m' =>
    rw [hx] at hends
    obtain ⟨hwhy, places', lost, hfilled⟩ := hends
    refine ⟨hfilled.extended ho hroot haligned hlimit, ?_⟩
    rcases hwhy with he | ⟨he, v, hv, -, hsome⟩ | ⟨-, v, hv, hnot⟩
    · exact .inl he
    · refine .inr ⟨he, v, inPages_of_mem hv, ?_⟩
      rw [lookup_sound ho hroot]
      exact hsome
    · exact absurd (huser v (inPages_of_mem hv)) hnot

theorem ReadWrite.isSome (h : ReadWrite m space v) : (m.lookup space v).isSome := by
  obtain ⟨frame, -, hlookup⟩ := h
  rw [hlookup]
  rfl

theorem ReadWrite.congr (h : ReadWrite m space v)
    (hsame : m'.lookup space v = m.lookup space v) : ReadWrite m' space v := by
  unfold ReadWrite
  rw [hsame]
  exact h

end Loop

namespace Kernel

/-! ## One request -/

/-- The value that `brk` returns, and the state after it. -/
def brkCall (k : Kernel) (requestedBreak : Nat) : Nat × Kernel :=
  match brk requestedBreak k with
  | .ok value k => (value, k)
  | .error _ k => (failure, k)

/-- The pages that `brk` maps for a request that grows the break. -/
def growth (k : Kernel) (requestedBreak : Nat) : Nat :=
  (pageEnd requestedBreak - (k.userStates k.currentStateSlot).heapMappedEnd + pageSize - 1) /
    pageSize

/-- The page loop of `brk` for a request that grows the break. -/
def heapLoop (k : Kernel) (requestedBreak : Nat) : EStateM.Result PagingError Memory Unit :=
  extendHeap (k.growth requestedBreak) (k.userStates k.currentStateSlot).heapMappedEnd k.memory

section Request

variable {k k' : Kernel} {slot space requestedBreak : Nat}

theorem alignDown_pageEnd (h : requestedBreak ≤ userHeapLimit) :
    alignDown (requestedBreak + pageSize - 1) pageSize = pageEnd requestedBreak := by
  have hlimit : userHeapLimit + pageSize < 2 ^ 64 := by decide
  rw [CheckedLoader.alignDown_page (by omega), Nat.mul_comm]
  rfl

/-- The state of the heap after a request that is granted. -/
def withBreak (k : Kernel) (memory : Memory) (heapBreak heapMappedEnd : Nat) : Kernel :=
  { k with
    memory
    userStates := put k.userStates k.currentStateSlot
      { k.userStates k.currentStateSlot with heapBreak, heapMappedEnd } }

/-- `brk`, by the kind of its request. -/
theorem brkCall_run (k : Kernel) (requestedBreak : Nat) :
    k.brkCall requestedBreak =
      let state := k.userStates k.currentStateSlot
      if requestedBreak = 0 then (state.heapBreak, k)
      else if requestedBreak < userHeapBase ∨ userHeapLimit < requestedBreak then (failure, k)
      else if requestedBreak ≤ state.heapBreak then
        (requestedBreak, k.withBreak k.memory requestedBreak state.heapMappedEnd)
      else
        match k.heapLoop requestedBreak with
        | .ok _ memory => (requestedBreak, k.withBreak memory requestedBreak (pageEnd requestedBreak))
        | .error _ memory => (failure, { k with memory }) := by
  unfold brkCall brk
  show (match (EStateM.bind get _ k : EStateM.Result Stop Kernel Nat) with
    | .ok value k => (value, k) | .error _ k => (failure, k)) = _
  unfold EStateM.bind
  dsimp only [get, getThe, MonadStateOf.get, EStateM.get]
  by_cases hzero : requestedBreak = 0
  · rw [if_pos hzero, if_pos hzero]
    rfl
  · rw [if_neg hzero, if_neg hzero]
    by_cases hout : requestedBreak < userHeapBase ∨ userHeapLimit < requestedBreak
    · rw [if_pos hout, if_pos hout]
      rfl
    · rw [if_neg hout, if_neg hout]
      by_cases hle : requestedBreak ≤ (k.userStates k.currentStateSlot).heapBreak
      · rw [if_pos hle, if_pos hle]
        rfl
      · rw [if_neg hle, if_neg hle,
          alignDown_pageEnd (Nat.le_of_not_lt fun hlt => hout (.inr hlt))]
        show (match (EStateM.bind (KernelCall.ofMemory _) _ k : EStateM.Result Stop Kernel Nat) with
          | .ok value k => (value, k) | .error _ k => (failure, k)) = _
        unfold EStateM.bind KernelCall.ofMemory heapLoop growth
        cases extendHeap _ (k.userStates k.currentStateSlot).heapMappedEnd k.memory <;> rfl

end Request

/-! ## The invariant -/

/-- What is mapped of the heap ends at `stop`. -/
structure HeapMapped (space : Nat) (m : Memory) (stop : Nat) : Prop where
  lower : userHeapBase ≤ stop
  upper : stop ≤ userHeapLimit
  aligned : stop % pageSize = 0
  mapped : ∀ v, userHeapBase ≤ v → v < stop → ReadWrite m space v
  unmapped : ∀ v, stop ≤ v → v < userHeapLimit → m.lookup space v = none

/-- The heap of the process with the state `slot`, in its space. -/
structure HeapSound (slot space : Nat) (k : Kernel) : Prop where
  sound : HasSpace space k.memory
  heap : HeapMapped space k.memory (k.userStates slot).heapMappedEnd
  lower : userHeapBase ≤ (k.userStates slot).heapBreak
  upper : (k.userStates slot).heapBreak ≤ (k.userStates slot).heapMappedEnd

/-- No frame that the request asks for is missing. -/
def Supplied (k : Kernel) (requestedBreak : Nat) : Prop :=
  ∀ m, k.heapLoop requestedBreak ≠ .error .frameAllocationFailed m

instance (k : Kernel) (requestedBreak : Nat) : Decidable (k.Supplied requestedBreak) :=
  match hloop : k.heapLoop requestedBreak with
  | .ok _ _ => isTrue fun m heq => by rw [hloop] at heq; cases heq
  | .error e m =>
    if he : e = .frameAllocationFailed then isFalse fun h => h m (by rw [hloop, he])
    else isTrue fun m' heq => by
      rw [hloop] at heq
      exact he (EStateM.Result.error.inj heq).1

/-- A request that grows the break does not end below `heap_mapped_end`. -/
def ReachesMappedEnd (slot : Nat) (k : Kernel) (requestedBreak : Nat) : Prop :=
  (k.userStates slot).heapBreak < requestedBreak → requestedBreak ≤ userHeapLimit →
    (k.userStates slot).heapMappedEnd ≤ pageEnd requestedBreak

/-- What a request is answered with and leaves behind. -/
structure Follows (slot space : Nat) (k : Kernel) (requestedBreak : Nat) : Prop where
  result : userHeapBase ≤ requestedBreak → requestedBreak ≤ userHeapLimit →
    (k.brkCall requestedBreak).1 = requestedBreak
  mapped : ∀ v, userHeapBase ≤ v →
    v < pageEnd ((k.brkCall requestedBreak).2.userStates slot).heapBreak →
      ReadWrite (k.brkCall requestedBreak).2.memory space v
  mappedEnd : HeapMapped space (k.brkCall requestedBreak).2.memory
    ((k.brkCall requestedBreak).2.userStates slot).heapMappedEnd

section Invariant

variable {k k' : Kernel} {slot space requestedBreak v stop : Nat} {m m' : Memory}

theorem le_pageEnd (v : Nat) : v ≤ pageEnd v := by
  unfold pageEnd pageSize
  omega

theorem pageEnd_mod (v : Nat) : pageEnd v % pageSize = 0 := Nat.mul_mod_left _ _

theorem pageEnd_le (hv : v ≤ stop) (hstop : stop % pageSize = 0) : pageEnd v ≤ stop := by
  unfold pageEnd pageSize at *
  omega

theorem pageEnd_le_limit (hv : v ≤ userHeapLimit) : pageEnd v ≤ userHeapLimit :=
  pageEnd_le hv (by decide)

/-- A sound heap is mapped up to its break. -/
theorem HeapSound.mapped (h : HeapSound slot space k) (hv : userHeapBase ≤ v)
    (hv' : v < pageEnd (k.userStates slot).heapBreak) : ReadWrite k.memory space v :=
  h.heap.mapped v hv (Nat.lt_of_lt_of_le hv' (pageEnd_le h.upper h.heap.aligned))

theorem withBreak_state (k : Kernel) (memory : Memory) (heapBreak heapMappedEnd : Nat)
    (hslot : k.currentStateSlot = slot) :
    ((k.withBreak memory heapBreak heapMappedEnd).userStates slot).heapBreak = heapBreak ∧
      ((k.withBreak memory heapBreak heapMappedEnd).userStates slot).heapMappedEnd =
        heapMappedEnd := by
  show (put k.userStates k.currentStateSlot _ slot).heapBreak = heapBreak ∧
    (put k.userStates k.currentStateSlot _ slot).heapMappedEnd = heapMappedEnd
  rw [hslot, put_same]
  exact ⟨rfl, rfl⟩

/-- The heap grows from the end of what is mapped to the end of the
request. -/
theorem HeapMapped.grow {count stop' : Nat} (h : HeapMapped space m stop)
    (hext : Extended space stop count m m') (hstop : stop + count * pageSize = stop')
    (hupper : stop' ≤ userHeapLimit) (haligned : stop' % pageSize = 0)
    (hnew : ∀ v, InPages stop count v → ReadWrite m' space v) : HeapMapped space m' stop' where
  lower := Nat.le_trans h.lower (by omega)
  upper := hupper
  aligned := haligned
  mapped v hv hv' := by
    by_cases hold : v < stop
    · have hmapped := h.mapped v hv hold
      have hlt : v < userSpaceEnd := by
        have hbelow := Nat.lt_of_lt_of_le hold h.upper
        exact Nat.lt_trans hbelow (by decide)
      exact hmapped.congr (hext.kept v hlt hmapped.isSome)
    · exact hnew v ⟨Nat.le_of_not_lt hold, by omega⟩
  unmapped v hv hv' := by
    have hlt : v < userSpaceEnd := Nat.lt_trans hv' (by decide)
    rw [hext.outside v hlt fun hin => Nat.not_lt_of_le hv (hstop ▸ hin.upper)]
    exact h.unmapped v (by omega) hv'

/-- A request that grows the break to or beyond the end of what is mapped. -/
theorem HeapSound.grow (h : HeapSound slot space k) (hslot : k.currentStateSlot = slot)
    (hactive : k.activeSpace = space) (hsupplied : k.Supplied requestedBreak)
    (hgrows : (k.userStates slot).heapBreak < requestedBreak)
    (hlimit : requestedBreak ≤ userHeapLimit)
    (hreaches : (k.userStates slot).heapMappedEnd ≤ pageEnd requestedBreak) :
    ∃ memory, k.heapLoop requestedBreak = .ok () memory ∧
      HeapSound slot space (k.withBreak memory requestedBreak (pageEnd requestedBreak)) := by
  have hstop : (k.userStates slot).heapMappedEnd + k.growth requestedBreak * pageSize =
      pageEnd requestedBreak := by
    have hmod := pageEnd_mod requestedBreak
    have haligned := h.heap.aligned
    unfold growth
    rw [hslot]
    unfold pageSize at *
    omega
  have hupper := pageEnd_le_limit hlimit
  have hends := h.sound.extendHeap (k.growth requestedBreak) hactive h.heap.aligned
    h.heap.lower (by rw [hstop]; exact hupper)
  unfold Supplied heapLoop at hsupplied
  unfold heapLoop
  rw [hslot] at hsupplied ⊢
  cases hx : extendHeap (k.growth requestedBreak) (k.userStates slot).heapMappedEnd k.memory with
  | error e memory =>
    rw [hx] at hends hsupplied
    obtain ⟨-, rfl | ⟨-, v, hv, hsome⟩⟩ := hends
    · exact absurd rfl (hsupplied memory)
    · rw [h.heap.unmapped v hv.lower (Nat.lt_of_lt_of_le hv.upper (by rw [hstop]; exact hupper))]
        at hsome
      cases hsome
  | ok u memory =>
    rw [hx] at hends
    obtain ⟨hext, hnew⟩ := hends
    obtain ⟨hbreak, hend⟩ := withBreak_state k memory requestedBreak (pageEnd requestedBreak) hslot
    refine ⟨memory, rfl, hext.sound, ?_, ?_, ?_⟩
    · rw [hend]
      exact h.heap.grow hext hstop hupper (pageEnd_mod _) fun v hv => (hnew v hv).2
    · rw [hbreak]
      exact Nat.le_of_lt (Nat.lt_of_le_of_lt h.lower hgrows)
    · rw [hbreak, hend]
      exact le_pageEnd _

/-- One request of a sound heap. -/
theorem HeapSound.brk (h : HeapSound slot space k) (hslot : k.currentStateSlot = slot)
    (hactive : k.activeSpace = space) (hsupplied : k.Supplied requestedBreak)
    (hreaches : k.ReachesMappedEnd slot requestedBreak) :
    HeapSound slot space (k.brkCall requestedBreak).2 ∧
      (userHeapBase ≤ requestedBreak → requestedBreak ≤ userHeapLimit →
        (k.brkCall requestedBreak).1 = requestedBreak) := by
  rw [brkCall_run]
  dsimp only
  by_cases hzero : requestedBreak = 0
  · rw [if_pos hzero]
    refine ⟨h, fun hbase => ?_⟩
    rw [hzero] at hbase
    exact absurd hbase (by decide)
  · rw [if_neg hzero]
    by_cases hout : requestedBreak < userHeapBase ∨ userHeapLimit < requestedBreak
    · rw [if_pos hout]
      refine ⟨h, fun hbase hlimit => ?_⟩
      rcases hout with hlt | hlt
      · exact absurd hbase (Nat.not_le_of_lt hlt)
      · exact absurd hlimit (Nat.not_le_of_lt hlt)
    · rw [if_neg hout]
      have hbase := Nat.le_of_not_lt fun hlt => hout (.inl hlt)
      have hlimit := Nat.le_of_not_lt fun hlt => hout (.inr hlt)
      by_cases hle : requestedBreak ≤ (k.userStates k.currentStateSlot).heapBreak
      · rw [if_pos hle]
        rw [hslot] at hle ⊢
        obtain ⟨hbreak, hend⟩ := withBreak_state k k.memory requestedBreak
          (k.userStates slot).heapMappedEnd hslot
        refine ⟨⟨h.sound, ?_, ?_, ?_⟩, fun _ _ => rfl⟩
        · rw [hend]
          exact h.heap
        · rwa [hbreak]
        · rw [hbreak, hend]
          exact Nat.le_trans hle h.upper
      · rw [if_neg hle]
        rw [hslot] at hle
        have hgrows := Nat.lt_of_not_le hle
        obtain ⟨memory, hloop, hnext⟩ := h.grow hslot hactive hsupplied hgrows hlimit
          (hreaches hgrows hlimit)
        rw [hloop]
        exact ⟨hnext, fun _ _ => rfl⟩

/-- A growing request that ends below `heap_mapped_end` takes it back from
pages that stay mapped. -/
theorem HeapSound.not_follows (h : HeapSound slot space k) (hslot : k.currentStateSlot = slot)
    (hnot : ¬ k.ReachesMappedEnd slot requestedBreak) :
    ¬ Follows slot space k requestedBreak := by
  unfold ReachesMappedEnd at hnot
  push Not at hnot
  obtain ⟨hgrows, hlimit, hbelow⟩ := hnot
  intro hfollows
  have hend := hfollows.mappedEnd
  have hnone : k.growth requestedBreak = 0 := by
    unfold growth
    rw [hslot, Nat.sub_eq_zero_of_le (Nat.le_of_lt hbelow)]
    rfl
  have hbase : userHeapBase ≤ requestedBreak :=
    Nat.le_trans h.lower (Nat.le_of_lt hgrows)
  have hrun : (k.brkCall requestedBreak).2 =
      k.withBreak k.memory requestedBreak (pageEnd requestedBreak) := by
    have hpos : 0 < userHeapBase := by decide
    rw [brkCall_run]
    dsimp only
    rw [hslot, if_neg (by omega), if_neg (by omega), if_neg (Nat.not_le_of_lt hgrows)]
    unfold heapLoop
    rw [hnone]
    rfl
  rw [hrun, (withBreak_state k _ _ _ hslot).2] at hend
  have hle := le_pageEnd requestedBreak
  have hnone' : k.memory.lookup space (pageEnd requestedBreak) = none :=
    hend.unmapped _ (Nat.le_refl _) (Nat.lt_of_lt_of_le hbelow h.heap.upper)
  have hsome := (h.heap.mapped (pageEnd requestedBreak) (Nat.le_trans hbase hle) hbelow).isSome
  rw [hnone'] at hsome
  cases hsome

end Invariant

/-! ## Sequences of requests -/

/-- What happens between two requests: nothing maps or unmaps a page of the
heap or changes the break of the process. -/
structure HeapUntouched (slot space : Nat) (k k' : Kernel) : Prop where
  sound : HasSpace space k'.memory
  lookups : ∀ v, userHeapBase ≤ v → v < userHeapLimit →
    k'.memory.lookup space v = k.memory.lookup space v
  heapBreak : (k'.userStates slot).heapBreak = (k.userStates slot).heapBreak
  heapMappedEnd : (k'.userStates slot).heapMappedEnd = (k.userStates slot).heapMappedEnd

/-- The requests of one process, each with the state in which it is made. -/
inductive HeapRun (slot space : Nat) (k₀ : Kernel) : List (Kernel × Nat) → Kernel → Prop
  | start : HeapRun slot space k₀ [] k₀
  | brk {calls : List (Kernel × Nat)} {k : Kernel} (requestedBreak : Nat)
      (before : HeapRun slot space k₀ calls k) (hslot : k.currentStateSlot = slot)
      (hactive : k.activeSpace = space) (hsupplied : k.Supplied requestedBreak) :
      HeapRun slot space k₀ (calls ++ [(k, requestedBreak)]) (k.brkCall requestedBreak).2
  | other {calls : List (Kernel × Nat)} {k k' : Kernel}
      (before : HeapRun slot space k₀ calls k) (h : HeapUntouched slot space k k') :
      HeapRun slot space k₀ calls k'

section Run

variable {k₀ k k' : Kernel} {slot space : Nat} {calls : List (Kernel × Nat)}

theorem HeapSound.untouched (h : HeapSound slot space k) (hk : HeapUntouched slot space k k') :
    HeapSound slot space k' where
  sound := hk.sound
  heap := by
    rw [hk.heapMappedEnd]
    refine ⟨h.heap.lower, h.heap.upper, h.heap.aligned, fun v hv hv' => ?_, fun v hv hv' => ?_⟩
    · exact (h.heap.mapped v hv hv').congr
        (hk.lookups v hv (Nat.lt_of_lt_of_le hv' h.heap.upper))
    · rw [hk.lookups v (Nat.le_trans h.heap.lower hv) hv']
      exact h.heap.unmapped v hv hv'
  lower := by
    rw [hk.heapBreak]
    exact h.lower
  upper := by
    rw [hk.heapBreak, hk.heapMappedEnd]
    exact h.upper

/-- A heap stays sound as long as its requests reach the end of what is
mapped. -/
theorem HeapRun.sound (hrun : HeapRun slot space k₀ calls k) (h₀ : HeapSound slot space k₀)
    (hreaches : ∀ call ∈ calls, call.1.ReachesMappedEnd slot call.2) :
    HeapSound slot space k ∧ ∀ call ∈ calls, Follows slot space call.1 call.2 := by
  induction hrun with
  | start => exact ⟨h₀, fun call hcall => nomatch hcall⟩
  | @brk calls k requestedBreak before hslot hactive hsupplied ih =>
    obtain ⟨hsound, hfollows⟩ := ih fun call hcall =>
      hreaches call (List.mem_append_left _ hcall)
    have hlast := hreaches (k, requestedBreak)
      (List.mem_append_right _ (List.mem_singleton_self _))
    obtain ⟨hnext, hresult⟩ := hsound.brk hslot hactive hsupplied hlast
    refine ⟨hnext, fun call hcall => ?_⟩
    rcases List.mem_append.mp hcall with hold | hnew
    · exact hfollows call hold
    · rw [List.mem_singleton.mp hnew]
      exact ⟨hresult, fun v hv hv' => hnext.mapped hv hv', hnext.heap⟩
  | other before hk ih =>
    obtain ⟨hsound, hfollows⟩ := ih hreaches
    exact ⟨hsound.untouched hk, hfollows⟩

/-- `brk` follows its requests exactly as long as no request that grows the
break ends below `heap_mapped_end`. -/
theorem brk_follows_requests (h₀ : HeapSound slot space k₀)
    (hrun : HeapRun slot space k₀ calls k) :
    (∀ call ∈ calls, Follows slot space call.1 call.2) ↔
      ∀ call ∈ calls, call.1.ReachesMappedEnd slot call.2 := by
  refine ⟨fun hfollows => ?_, fun hreaches => (hrun.sound h₀ hreaches).2⟩
  induction hrun with
  | start => exact fun call hcall => nomatch hcall
  | @brk calls k requestedBreak before hslot hactive hsupplied ih =>
    have hold := ih fun call hcall => hfollows call (List.mem_append_left _ hcall)
    have hsound := (before.sound h₀ hold).1
    intro call hcall
    rcases List.mem_append.mp hcall with hmem | hnew
    · exact hold call hmem
    · rw [List.mem_singleton.mp hnew]
      by_contra hnot
      exact hsound.not_follows hslot hnot (hfollows (k, requestedBreak)
        (List.mem_append_right _ (List.mem_singleton_self _)))
  | other before hk ih => exact ih hfollows

end Run

/-! ## A run -/

/-- A process that has made no request yet, in an empty space. -/
theorem heapSound_initial {m : Memory} {space : Nat} (hsound : HasSpace space m)
    (hempty : EmptySpace m space) (slot : Nat) :
    HeapSound slot space (initial m) where
  sound := hsound
  heap := by
    show HeapMapped space m userHeapBase
    refine ⟨Nat.le_refl _, (by decide), (by decide), fun v hv hv' => ?_, fun v _ hv => ?_⟩
    · exact absurd hv (Nat.not_le_of_lt hv')
    · exact hempty.lookup (Nat.lt_trans hv (by decide))
  lower := Nat.le_refl _
  upper := Nat.le_refl _

/-- The state after some requests. -/
def afterRequests (k : Kernel) (requests : List Nat) : Kernel :=
  requests.foldl (fun k requestedBreak => (k.brkCall requestedBreak).2) k

/-- The requests, one after the other, with the state of each. -/
def callsFrom (k : Kernel) : List Nat → List (Kernel × Nat)
  | [] => []
  | requestedBreak :: requests =>
    (k, requestedBreak) :: callsFrom (k.brkCall requestedBreak).2 requests

/-- The requests are those of the process with the state `slot` in its space,
and no frame is missing for them. -/
def Serves (slot space : Nat) (k : Kernel) (requests : List Nat) : Prop :=
  ∀ call ∈ callsFrom k requests, call.1.currentStateSlot = slot ∧
    call.1.activeSpace = space ∧ call.1.Supplied call.2

instance (slot space : Nat) (k : Kernel) (requests : List Nat) :
    Decidable (Serves slot space k requests) :=
  inferInstanceAs (Decidable (∀ call ∈ callsFrom k requests, call.1.currentStateSlot = slot ∧
    call.1.activeSpace = space ∧ call.1.Supplied call.2))

section Requests

variable {k₀ k : Kernel} {slot space : Nat} {calls : List (Kernel × Nat)}

theorem HeapRun.requests (requests : List Nat) (before : HeapRun slot space k₀ calls k)
    (h : Serves slot space k requests) :
    HeapRun slot space k₀ (calls ++ callsFrom k requests) (k.afterRequests requests) := by
  induction requests generalizing calls k with
  | nil =>
    rw [show callsFrom k [] = [] from rfl, List.append_nil]
    exact before
  | cons requestedBreak requests ih =>
    obtain ⟨hslot, hactive, hsupplied⟩ := h (k, requestedBreak) List.mem_cons_self
    have hrest := ih (before.brk requestedBreak hslot hactive hsupplied)
      fun call hcall => h call (List.mem_cons_of_mem _ hcall)
    rw [List.append_assoc] at hrest
    exact hrest

end Requests

set_option maxRecDepth 100000 in
/-- A break that grows twice. -/
theorem brk_follows_requests_twice : ∃ (k₀ : Kernel) (calls : List (Kernel × Nat)),
    calls.length = 2 ∧
    ((∀ call ∈ calls, Follows 0 0x103000 call.1 call.2) ↔
      ∀ call ∈ calls, call.1.ReachesMappedEnd 0 call.2) ∧ HeapSound 0 0x103000 k₀ := by
  have hrun : ((spacesAfter (fun _ _ => True) [.create, .switch 0x103000]).any
      fun s : SpaceState =>
      decide (0x103000 ∈ s.live ∧ EmptySpace s.memory 0x103000) &&
        decide (Serves 0 0x103000 (initial s.memory) [userHeapBase + 1, userHeapBase + 4097])) =
          true := by
    decide +kernel
  obtain ⟨s, hs, hstate⟩ := (Option.any_eq_true _ _).mp hrun
  obtain ⟨base, hreached⟩ := spacesReached_after hs
  rw [Bool.and_eq_true, decide_eq_true_iff, decide_eq_true_iff] at hstate
  obtain ⟨⟨hlive, hempty⟩, hcalls⟩ := hstate
  have hsound := heapSound_initial (hreached.hasSpace hlive) hempty 0
  exact ⟨initial s.memory, _, rfl,
    brk_follows_requests hsound (HeapRun.start.requests _ hcalls), hsound⟩

set_option maxRecDepth 100000 in
/-- The break shrinks to the base and grows by a byte, and then the request
for the byte after the first page is refused: its page is mapped. -/
theorem brk_loses_mapped_end : ∃ k₀ calls k, HeapSound 0 0x103000 k₀ ∧
    HeapRun 0 0x103000 k₀ calls k ∧ ∃ call ∈ calls, userHeapBase ≤ call.2 ∧
      call.2 ≤ userHeapLimit ∧ (call.1.brkCall call.2).1 = failure := by
  have hrun : ((spacesAfter (fun _ _ => True) [.create, .switch 0x103000]).any
      fun s : SpaceState =>
      decide (0x103000 ∈ s.live ∧ EmptySpace s.memory 0x103000) &&
        decide (Serves 0 0x103000 (initial s.memory) [userHeapBase + 8192, userHeapBase,
          userHeapBase + 1, userHeapBase + 4097]) &&
        (callsFrom (initial s.memory) [userHeapBase + 8192, userHeapBase,
          userHeapBase + 1, userHeapBase + 4097]).any fun call =>
            decide (userHeapBase ≤ call.2 ∧ call.2 ≤ userHeapLimit) &&
              (call.1.brkCall call.2).1 == failure) = true := by
    decide +kernel
  obtain ⟨s, hs, hstate⟩ := (Option.any_eq_true _ _).mp hrun
  obtain ⟨base, hreached⟩ := spacesReached_after hs
  rw [Bool.and_eq_true, Bool.and_eq_true, decide_eq_true_iff, decide_eq_true_iff,
    List.any_eq_true] at hstate
  obtain ⟨⟨⟨hlive, hempty⟩, hcalls⟩, call, hcall, hrefused⟩ := hstate
  rw [Bool.and_eq_true, decide_eq_true_iff, beq_iff_eq] at hrefused
  exact ⟨initial s.memory, _, _, heapSound_initial (hreached.hasSpace hlive) hempty 0,
    HeapRun.start.requests _ hcalls, call, hcall, hrefused.1.1, hrefused.1.2, hrefused.2⟩

end Kernel

end OpenKernel
