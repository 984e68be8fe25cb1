import OpenKernel.Memory.Allocator
import OpenKernel.Memory.SpaceSteps

/-!
# Runs of address spaces

The kernel starts with the page table of its boot loader, and
`initialize_virtual_memory` gives it the window.  From there every sequence
of steps keeps the invariants.
-/

namespace OpenKernel

open Lib

/-- What the kernel relies on when it takes over the boot loader's page table:
the table and what its upper half leads to are not free, no entry leads back
to the table, and behind the window's root entry there is nothing yet, or
tables of its own. -/
structure BootTables (places : Places) (m : Memory) : Prop where
  owned : Owned places m
  window : ∀ f o path, places f = some (o, path) → o = .window
  entry : HasWindow places m (target m.cr3) ∨
    ¬ Present (m.words (target m.cr3) windowEntry) ∧ ∀ f, places f = none
  fixed : ∀ f, BootFrame m (target m.cr3) f → places f = none ∧ ¬ m.frames.IsFree f
  loop : ¬ KernelTable m (target m.cr3) (target m.cr3)

/-- Nothing but the boot table and its upper half has to be looked at when
the window's root entry is empty. -/
theorem bootTables_of_absent {m : Memory}
    (habsent : ¬ Present (m.words (target m.cr3) windowEntry))
    (hfixed : ∀ f, BootFrame m (target m.cr3) f → ¬ m.frames.IsFree f)
    (hloop : ¬ KernelTable m (target m.cr3) (target m.cr3)) :
    BootTables (fun _ => none) m where
  owned := by
    have hforest : pageTree.Forest (fun _ => none) m.words := by
      constructor <;> intros <;> contradiction
    constructor
    · exact hforest
    all_goals intros; contradiction
  window _ _ _ h := nomatch h
  entry := .inr ⟨habsent, fun _ => rfl⟩
  fixed f hf := ⟨rfl, hfixed f hf⟩
  loop := hloop

section Start

variable {places : Places} {m m' : Memory} {boot : Nat}

theorem kernelTable_congr (hwords : m'.words = m.words) (f : Nat) :
    KernelTable m' boot f ↔ KernelTable m boot f := by
  unfold KernelTable
  simp only [walk_eq, hwords]

theorem bootFrame_congr (hwords : m'.words = m.words) (f : Nat) :
    BootFrame m' boot f ↔ BootFrame m boot f :=
  or_congr Iff.rfl (kernelTable_congr hwords f)

/-- The tables of the kernel half are the same when their words are. -/
theorem kernelTable_of_same (hboot : ∀ i, i ≠ windowEntry → m'.words boot i = m.words boot i)
    (hsame : ∀ f, KernelTable m boot f → m'.words f = m.words f) {f : Nat}
    (hf : KernelTable m' boot f) : KernelTable m boot f := by
  obtain ⟨index, rest, hlo, hhi, hne, hlen, hwalk⟩ := hf
  refine ⟨index, rest, hlo, hhi, hne, hlen, ?_⟩
  -- Below the root a walk visits tables of the kernel half only.
  have hbelow : ∀ (rest front : List Nat) {t u : Nat},
      front.length + rest.length ≤ 2 → m.walk (index :: front) boot = some t →
        m'.walk rest t = some u → m.walk (index :: (front ++ rest)) boot = some u := by
    intro rest
    induction rest with
    | nil =>
      intro front t u _ ht hu
      obtain rfl := Option.some.inj hu
      rw [List.append_nil]
      exact ht
    | cons i rest ih =>
      intro front t u hlen ht hu
      rw [List.length_cons] at hlen
      have hwords := hsame t ⟨index, front, hlo, hhi, hne, by omega, ht⟩
      rw [walk_eq] at hu
      obtain ⟨v, hv, hu⟩ := Option.bind_eq_some_iff.mp hu
      rw [hwords] at hv
      have hnext : m.walk (index :: (front ++ [i])) boot = some v := by
        rw [walk_eq] at ht ⊢
        rw [← List.cons_append, Radix.walk_append, ht]
        show (pageTree.follow (m.words t i)).bind _ = _
        rw [hv]
        rfl
      have := ih (front ++ [i]) (by rw [List.length_append, List.length_singleton]; omega)
        hnext (by rw [walk_eq]; exact hu)
      rwa [List.append_assoc] at this
  rw [walk_eq] at hwalk
  obtain ⟨t, ht, hu⟩ := Option.bind_eq_some_iff.mp hwalk
  rw [hboot index hne] at ht
  refine hbelow rest [] (by rw [List.length_nil, Nat.zero_add]; exact hlen) ?_
    (by rw [walk_eq]; exact hu)
  rw [walk_eq]
  show (pageTree.follow (m.words boot index)).bind _ = _
  rw [ht]
  rfl

/-- The memory after `initialize_virtual_memory`, as the boot table sees it. -/
structure Initialized (places : Places) (m m' : Memory) : Prop where
  owned : Owned places m'
  spaces : ∀ f r, places f ≠ some (.space r, [])
  window : HasWindow places m' (target m.cr3)
  cr3 : m'.cr3 = m.cr3
  entries : ∀ i, i ≠ windowEntry → m'.words (target m.cr3) i = m.words (target m.cr3) i
  fixed : ∀ f, BootFrame m (target m.cr3) f → places f = none ∧ ¬ m'.frames.IsFree f
  tables : ∀ f, KernelTable m (target m.cr3) f → m'.words f = m.words f

/-- The call when the window's root table is there.  It writes to tables of
the window and to free frames only. -/
theorem Initialized.mapPage {places : Places} {m₀ : Memory} (h : Initialized places m₀ m)
    (hmap : OpenKernel.mapPage deviceWindowBase 0xB8000 .device m = .ok () m') :
    (∃ places', Initialized places' m₀ m') ∧
      ∀ f, places f = none → ¬ m.frames.IsFree f → m'.words f = m.words f := by
  have hw : HasWindow places m (target m.cr3) := by
    rw [h.cr3]
    exact h.window
  have hends := mapDevicePage_alters 0xB8000 h.owned hw le_rfl (by decide)
  rw [show mapDevicePage deviceWindowBase 0xB8000 m =
    OpenKernel.mapPage deviceWindowBase 0xB8000 .device m from rfl, hmap] at hends
  obtain ⟨places', h', htouch, -, -⟩ := hends
  have hboot := h.fixed _ (.inl rfl)
  have hkept := htouch.frames _ hboot.1 hboot.2 id
  refine ⟨⟨places', h', ?_, ?_, htouch.cr3.trans h.cr3, ?_, ?_, ?_⟩,
    fun f hnone hfree => (htouch.frames f hnone hfree id).2.1⟩
  · intro f r hf
    exact h.spaces f r ((htouch.roots f _).mp hf)
  · unfold HasWindow
    rw [hkept.2.1]
    exact ⟨h.window.1, h.window.2.1, (htouch.roots _ _).mpr h.window.2.2⟩
  · intro i hi
    rw [hkept.2.1]
    exact h.entries i hi
  · intro f hf
    obtain ⟨hnone, hfree⟩ := h.fixed f hf
    have := htouch.frames f hnone hfree id
    exact ⟨this.1, this.2.2.1⟩
  · intro f hf
    obtain ⟨hnone, hfree⟩ := h.fixed f (.inr hf)
    exact (htouch.frames f hnone hfree id).2.1.trans (h.tables f hf)

theorem empty_forest (heap : Nat → Nat → Nat) : pageTree.Forest (fun _ => none) heap := by
  constructor <;> intros <;> contradiction

theorem mapPage_device (m : Memory) (page : Nat) (flags : PageFlags) :
    mapPage deviceWindowBase page flags m =
      mapFrom flags (windowEntry :: windowIndices deviceWindowBase)
        (leafIndex deviceWindowBase) page (target m.cr3) m := by
  rw [← upperIndices_window le_rfl (by decide)]
  rfl

/-- The placing with the window's root table and nothing else. -/
def windowOnly (w : Nat) : Places := Function.update (fun _ => none) w (some (.window, []))

theorem windowOnly_eq_some {w f : Nat} {x : Owner × List Nat}
    (hf : windowOnly w f = some x) : f = w ∧ x = (.window, []) := by
  unfold windowOnly at hf
  by_cases hfw : f = w
  · rw [hfw, Function.update_self] at hf
    exact ⟨hfw, (Option.some.inj hf).symm⟩
  · rw [Function.update_of_ne hfw] at hf
    cases hf

/-- The root table of the window is made. -/
theorem BootTables.plant (h : BootTables places m) {frames : FrameAllocator} {w : Nat}
    (halloc : m.frames.allocate = (some w, frames)) (hne : target m.cr3 ≠ w)
    (hgrown : pageTree.Grown m.words
      (m.linked frames .device (target m.cr3) windowEntry w).words (target m.cr3)
      windowEntry w) :
    Initialized (windowOnly w) m
      (m.linked frames .device (target m.cr3) windowEntry w) := by
  obtain ⟨hfree, -, hnot, hothers⟩ := FrameAllocator.allocate_some halloc
  obtain ⟨hpresent, htarget⟩ := ref_eq_some hgrown.link
  have hbootFrame : ∀ f, BootFrame m (target m.cr3) f → f ≠ w := by
    rintro f hf rfl
    exact (h.fixed f hf).2 hfree
  refine ⟨⟨?_, ?_, ?_, ?_⟩, ?_, ?_, rfl, ?_, ?_, ?_⟩
  · exact (empty_forest _).plant (fun _ _ => rfl) (fun i _ => hgrown.blank i) rfl
      fun f hf => nomatch hf
  · intro f x hf
    rw [(windowOnly_eq_some hf).1]
    exact hnot
  · intro f r path hf
    exact nomatch (windowOnly_eq_some hf).2
  · intro f x hf
    rw [(windowOnly_eq_some hf).1]
    exact hfree.target_eq
  · intro f r hf
    exact nomatch (windowOnly_eq_some hf).2
  · refine ⟨hpresent, isOpen_eq_true.mp hgrown.opens, ?_⟩
    rw [htarget]
    exact Function.update_self _ _ _
  · intro i hi
    exact hgrown.row i hi
  · intro f hf
    have hfw := hbootFrame f hf
    exact ⟨Function.update_of_ne hfw _ _, mt (hothers f hfw).1.mp (h.fixed f hf).2⟩
  · intro f hf
    refine hgrown.other f ?_ (hbootFrame f (.inr hf))
    rintro rfl
    exact h.loop hf

/-- The first mapping in the window makes its root table if it is missing. -/
theorem BootTables.mapPage (h : BootTables places m)
    (hmap : OpenKernel.mapPage deviceWindowBase 0xB8000 .device m = .ok () m') :
    (∃ places', Initialized places' m m') ∧
      ∀ f, places f = none → ¬ m.frames.IsFree f → f ≠ target m.cr3 →
        m'.words f = m.words f := by
  rcases h.entry with hw | ⟨habsent, -⟩
  · have hi : Initialized places m m := by
      refine ⟨h.owned, ?_, hw, rfl, fun _ _ => rfl, h.fixed, fun _ _ => rfl⟩
      intro f r hf
      exact nomatch h.window f _ _ hf
    obtain ⟨hinit, hkept⟩ := hi.mapPage hmap
    exact ⟨hinit, fun f hnone hfree _ => hkept f hnone hfree⟩
  · rw [mapPage_device] at hmap
    have hstep := descend_of_absent .device habsent
    cases hx : m.frames.allocate with
    | mk result frames =>
      rw [hx] at hstep
      cases result with
      | none =>
        rw [mapFrom_of_first_error hstep] at hmap
        cases hmap
      | some w =>
        have hfree := (FrameAllocator.allocate_some hx).1
        have hne : target m.cr3 ≠ w := by
          intro heq
          exact (h.fixed _ (.inl rfl)).2 (by rw [heq]; exact hfree)
        have hgrown := grown_linked .device frames hne hfree.target_eq habsent
        obtain ⟨hpresent, -⟩ := ref_eq_some hgrown.link
        rw [mapFrom_of_first hstep hpresent (isOpen_eq_true.mp hgrown.opens)] at hmap
        obtain ⟨hinit, hkept⟩ :=
          (h.plant hx hne hgrown).mapPage ((mapPage_device _ _ _).trans hmap)
        refine ⟨hinit, fun f _ hused hroot => ?_⟩
        have hfw : f ≠ w := by
          rintro rfl
          exact hused hfree
        have hstill := mt ((FrameAllocator.allocate_some hx).2.2.2 f hfw).1.mp hused
        exact (hkept f (Function.update_of_ne hfw _ _) hstill).trans
          (hgrown.other f hroot hfw)

theorem BootTables.initialize (h : BootTables places m) {config : PagingConfig}
    (hinit : initializeVirtualMemory config m = .ok () m') :
    (∃ places', Initialized places' m m') ∧
      ∀ f, places f = none → ¬ m.frames.IsFree f → f ≠ target m.cr3 →
        m'.words f = m.words f := by
  have hwords : ({ m with physicalMemoryOffset := config.physicalMemoryOffset } :
    Memory).words = m.words := rfl
  have h₁ : BootTables places
      { m with physicalMemoryOffset := config.physicalMemoryOffset } :=
    ⟨⟨h.owned.forest, h.owned.notFree, h.owned.allocated, h.owned.aligned⟩, h.window,
      h.entry, fun f hf => h.fixed f ((bootFrame_congr hwords f).mp hf),
      mt (kernelTable_congr hwords _).mp h.loop⟩
  have hmap : OpenKernel.mapPage deviceWindowBase 0xB8000 .device
      { m with physicalMemoryOffset := config.physicalMemoryOffset } = .ok () m' := hinit
  obtain ⟨⟨places', hi⟩, hkept⟩ := h₁.mapPage hmap
  exact ⟨⟨places', hi.owned, hi.spaces, hi.window, hi.cr3, hi.entries,
    fun f hf => hi.fixed f ((bootFrame_congr hwords f).mpr hf),
    fun f hf => hi.tables f ((kernelTable_congr hwords f).mpr hf)⟩, hkept⟩

/-! ## Reachable states -/

/-- No space exists yet. -/
def SpaceState.start (m : Memory) : SpaceState :=
  { memory := m
    live := []
    inHand := []
    maps := fun _ _ => none
    kernelStacks := [] }

theorem Initialized.separate (h : Initialized places m m') :
    Separate (target m.cr3) m' places (.start m') where
  owned := h.owned
  live r := ⟨(fun hr => nomatch hr), fun hr => absurd hr (h.spaces r r)⟩
  roots f r hf := absurd hf (h.spaces f r)
  window := h.window
  upper r hr := nomatch hr
  fixed f hf := by
    have hold : BootFrame m (target m.cr3) f := by
      rcases hf with hf | hf
      · exact .inl hf
      · exact .inr (kernelTable_of_same h.entries h.tables hf)
    exact ⟨(h.fixed f hold).1, (h.fixed f hold).2, rfl, fun hmem => nomatch hmem⟩
  hand f hf := nomatch hf
  active := by
    rw [show (SpaceState.start m').memory.cr3 = m'.cr3 from rfl, h.cr3]
    exact .inl rfl
  bootTarget := target_target m.cr3

theorem Initialized.userLinked (h : Initialized places m m') : UserLinked places m' := by
  intro f r path i hf
  obtain ⟨root, hroot⟩ := h.owned.forest.exists_root hf
  exact absurd hroot (h.spaces root r)

end Start

/-- The states that guarded steps lead to from a boot table, once the virtual
memory is initialised. -/
structure SpacesReached (config : PagingConfig)
    (guard : SpaceState → SpaceAction → Prop) (boot : Nat) (base : Memory)
    (s : SpaceState) : Prop where
  start : ∃ m places, BootTables places m ∧ target m.cr3 = boot ∧
    initializeVirtualMemory config m = .ok () base
  run : Run (SpaceState.step boot) guard (.start base) s

/-- The guard of runs that map user pages with the user bit only. -/
def UserFlagsOnly : SpaceState → SpaceAction → Prop := fun _ a => a.UserFlags

section Reached

variable {config : PagingConfig} {guard : SpaceState → SpaceAction → Prop} {boot : Nat}
  {base : Memory} {s : SpaceState}

theorem SpacesReached.separate (h : SpacesReached config guard boot base s) :
    ∃ places, Separate boot base places s ∧ Recorded boot s := by
  obtain ⟨⟨m, places, hboot, rfl, hinit⟩, hrun⟩ := h
  obtain ⟨⟨places₀, hi⟩, -⟩ := hboot.initialize hinit
  refine hrun.invariant (fun s => ∃ places, Separate (target m.cr3) base places s ∧
    Recorded (target m.cr3) s) ?_ ⟨places₀, hi.separate, ?_⟩
  · rintro t a u ⟨places, hsep, hrec⟩ - hstep
    obtain ⟨places', hsep', hrec', -⟩ := hsep.step hrec hstep
    exact ⟨places', hsep', hrec'⟩
  · exact ⟨fun r hr => (nomatch hr), fun r hr => (nomatch hr), fun slot hslot => nomatch hslot⟩

theorem SpacesReached.userLinked (h : SpacesReached config UserFlagsOnly boot base s) :
    ∃ places, Separate boot base places s ∧ Recorded boot s ∧
      UserLinked places s.memory := by
  obtain ⟨⟨m, places, hboot, rfl, hinit⟩, hrun⟩ := h
  obtain ⟨⟨places₀, hi⟩, -⟩ := hboot.initialize hinit
  refine hrun.invariant (fun s => ∃ places, Separate (target m.cr3) base places s ∧
    Recorded (target m.cr3) s ∧ UserLinked places s.memory) ?_
    ⟨places₀, hi.separate, ?_, hi.userLinked⟩
  · rintro t a u ⟨places, hsep, hrec, hlinked⟩ huser hstep
    obtain ⟨places', hsep', hrec', hlinked'⟩ := hsep.step hrec hstep
    exact ⟨places', hsep', hrec', hlinked' huser hlinked⟩
  · exact ⟨fun r hr => (nomatch hr), fun r hr => (nomatch hr), fun slot hslot => nomatch hslot⟩

end Reached

/-! ## A boot table -/

theorem kernelTable_bareMemory {f : Nat} (hf : KernelTable bareMemory 0x1000 f) :
    f = 0x2000 := by
  obtain ⟨index, rest, -, -, -, -, hwalk⟩ := hf
  rw [walk_eq] at hwalk
  obtain ⟨t, ht, hrest⟩ := Option.bind_eq_some_iff.mp hwalk
  have htable : t = 0x2000 := by
    have href := (ref_eq_some (pageTree.ref_of_follow ht))
    change Present (if 0x1000 = 0x1000 ∧ index = 511 then 0x2003 else 0) ∧
      target (if 0x1000 = 0x1000 ∧ index = 511 then 0x2003 else 0) = t at href
    by_cases hindex : index = 511
    · rw [if_pos ⟨rfl, hindex⟩] at href
      rw [← href.2]
      decide
    · rw [if_neg fun hx => hindex hx.2] at href
      exact absurd href.1 not_present_zero
  rw [htable] at hrest
  cases rest with
  | nil => exact (Option.some.inj hrest).symm
  | cons i rest =>
    obtain ⟨u, hu, -⟩ := Option.bind_eq_some_iff.mp hrest
    exact absurd (ref_eq_some (pageTree.ref_of_follow hu)).1 not_present_zero

theorem bootTables_bareMemory : BootTables (fun _ => none) bareMemory := by
  have hroot : target bareMemory.cr3 = 0x1000 := by decide
  refine bootTables_of_absent (by decide) ?_ ?_
  · rw [hroot]
    rintro f (rfl | hf)
    · decide
    · rw [kernelTable_bareMemory hf]
      decide
  · rw [hroot]
    intro hloop
    exact absurd (kernelTable_bareMemory hloop) (by decide)

/-- The state after some steps from a boot loader's memory. -/
def spacesFrom (m : Memory) (guard : SpaceState → SpaceAction → Prop)
    [∀ s a, Decidable (guard s a)] (actions : List SpaceAction) : Option SpaceState :=
  match initializeVirtualMemory upperHalfConfig m with
  | .ok _ base => exec (SpaceState.step 0x1000) guard actions (.start base)
  | .error _ _ => none

theorem spacesReached_from {m : Memory} {places : Places} (hboot : BootTables places m)
    (hroot : target m.cr3 = 0x1000) {guard : SpaceState → SpaceAction → Prop}
    [∀ s a, Decidable (guard s a)] {actions : List SpaceAction} {s : SpaceState}
    (h : spacesFrom m guard actions = some s) :
    ∃ base, SpacesReached upperHalfConfig guard 0x1000 base s := by
  unfold spacesFrom at h
  split at h
  · rename_i base hinit
    exact ⟨base, ⟨m, places, hboot, hroot, hinit⟩, run_of_exec h⟩
  · cases h

/-- The state after some steps from the bare memory. -/
def spacesAfter (guard : SpaceState → SpaceAction → Prop) [∀ s a, Decidable (guard s a)]
    (actions : List SpaceAction) : Option SpaceState :=
  spacesFrom bareMemory guard actions

theorem spacesReached_after {guard : SpaceState → SpaceAction → Prop}
    [∀ s a, Decidable (guard s a)] {actions : List SpaceAction} {s : SpaceState}
    (h : spacesAfter guard actions = some s) :
    ∃ base, SpacesReached upperHalfConfig guard 0x1000 base s :=
  spacesReached_from bootTables_bareMemory (by decide) h

/-- The bare machine when only the frames of these numbers, above the first
mebibyte, are free. -/
def scarceMemory (free : List Nat) : Memory :=
  { bareMemory with
    frames := { bareMemory.frames.onlyFree free with freeFrames := free.length } }

theorem words_scarceMemory (free : List Nat) :
    (scarceMemory free).words = bareMemory.words := rfl

theorem bootTables_scarceMemory {free : List Nat} (hfree : ∀ frame ∈ free, 256 ≤ frame) :
    BootTables (fun _ => none) (scarceMemory free) := by
  have hroot : target bareMemory.cr3 = 0x1000 := by decide
  change target (scarceMemory free).cr3 = 0x1000 at hroot
  have hlow : ∀ f < 0x100000, ¬ (scarceMemory free).frames.IsFree f := by
    intro f hf hbad
    have hbad : (bareMemory.frames.onlyFree free).IsFree f := hbad
    obtain ⟨-, -, hmem⟩ := (bareMemory.frames.isFree_onlyFree free f).mp hbad
    have hlarge := hfree _ hmem
    rw [show pageSize = 4096 from rfl] at hlarge
    omega
  have htable : ∀ f, KernelTable (scarceMemory free) 0x1000 f → f = 0x2000 := by
    intro f hf
    apply kernelTable_bareMemory
    exact (kernelTable_congr (words_scarceMemory free) f).mp hf
  apply bootTables_of_absent
  · rw [words_scarceMemory, hroot]
    decide
  · rw [hroot]
    intro f hf
    rcases hf with rfl | hf
    · exact hlow _ (by decide)
    · rw [htable f hf]
      exact hlow _ (by decide)
  · rw [hroot]
    intro hloop
    exact absurd (htable _ hloop) (by decide)

end OpenKernel
