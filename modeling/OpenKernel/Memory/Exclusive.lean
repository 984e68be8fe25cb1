import OpenKernel.Memory.SpaceRuns

/-!
# Frame exclusivity

No two entries of the lower halves of the live spaces refer to the same
frame, and no frame they refer to belongs to the kernel.
-/

namespace OpenKernel

open Lib

/-- A present entry of the lower half of a space refers to the frame, as a
page table or as a page.  The path leads to the table that holds the
entry. -/
def References (m : Memory) (space : Nat) (path : List Nat) (index frame : Nat) : Prop :=
  path.length ≤ 3 ∧ (∀ i ∈ path, i < 512) ∧ index < 512 ∧ path.headD index < 256 ∧
    ∃ table, m.walk path space = some table ∧ Present (m.words table index) ∧
      target (m.words table index) = frame

/-- The upper half of a space leads to the table. -/
def KernelHalfTable (m : Memory) (space table : Nat) : Prop :=
  ∃ index rest, 256 ≤ index ∧ index < 512 ∧ rest.length ≤ 2 ∧ (∀ i ∈ rest, i < 512) ∧
    m.walk (index :: rest) space = some table

/-- The frame is mapped as a page of a kernel stack. -/
def KernelStackPage (m : Memory) (space frame : Nat) : Prop :=
  ∃ slot, StackInWindow slot ∧ ∃ page ∈ kernelStack slot, ∃ leaf,
    m.lookup space page = some leaf ∧ target leaf = frame

section Exclusive

variable {boot : Nat} {base : Memory} {places : Places} {s : SpaceState}
  {r frame index : Nat} {path : List Nat}

theorem within_of_lt (r : Nat) (front : List Nat) (hpath : ∀ i ∈ path, i < 512)
    (hhead : front = [] → path.headD index < 256) :
    pageTree.Within (.space r) front path := by
  induction path generalizing front with
  | nil => trivial
  | cons i path ih =>
    refine ⟨⟨hpath i List.mem_cons_self, hhead⟩, ih (i :: front) ?_ fun h => nomatch h⟩
    exact fun j hj => hpath j (List.mem_cons_of_mem i hj)

/-- A frame has the place that its entry gives it. -/
theorem Owned.place_of_references {m : Memory} (h : Owned places m)
    (hroot : places r = some (.space r, [])) (href : References m r path index frame) :
    places frame = some (.space r, index :: path.reverse) := by
  obtain ⟨hlen, hpath, hindex, hhead, table, hwalk, hp, rfl⟩ := href
  rw [walk_eq] at hwalk
  have hplace := h.forest.walk_place hroot
    (by rw [List.length_nil, Nat.zero_add]; exact Nat.le_succ_of_le hlen)
    (within_of_lt r [] hpath fun _ => hhead) hwalk
  rw [List.append_nil] at hplace
  refine h.forest.child hplace ?_ ⟨hindex, fun hnil => ?_⟩ (ref_eq hp)
  · rw [List.length_reverse]
    exact Nat.lt_succ_of_le hlen
  · rw [List.reverse_eq_nil_iff.mp hnil] at hhead
    exact hhead

theorem Separate.place_of_references (h : Separate boot base places s) (hr : r ∈ s.live)
    (href : References s.memory r path index frame) :
    places frame = some (.space r, index :: path.reverse) :=
  h.owned.place_of_references (h.place hr) href

theorem Separate.walk_upper (h : Separate boot base places s) {space : Nat}
    (hspace : space = boot ∨ space ∈ s.live) (hi : 256 ≤ index) (hi' : index < 512)
    (rest : List Nat) :
    s.memory.walk (index :: rest) space = s.memory.walk (index :: rest) boot := by
  rcases hspace with rfl | hlive
  · rfl
  · rw [walk_eq, walk_eq, Radix.walk, Radix.walk, h.upper space hlive index hi hi']

/-- The tables of the kernel half are those that the kernel was booted with. -/
theorem Separate.kernelTable_base (h : Separate boot base places s)
    (ht : KernelTable s.memory boot frame) : KernelTable base boot frame :=
  kernelTable_of_same (fun i _ => by rw [(h.fixed boot (.inl rfl)).2.2.1])
    (fun f hf => (h.fixed f (.inr hf)).2.2.1) ht

/-- The tables of the kernel half are tables of the window, or the kernel was
booted with them. -/
theorem Separate.kernelHalfTable_place (h : Separate boot base places s) {space : Nat}
    (hspace : space = boot ∨ space ∈ s.live)
    (ht : KernelHalfTable s.memory space frame) :
    (∃ path, places frame = some (.window, path) ∧ path.length ≤ 2) ∨
      BootFrame base boot frame := by
  obtain ⟨index, rest, hlo, hhi, hlen, hrest, hwalk⟩ := ht
  rw [h.walk_upper hspace hlo hhi] at hwalk
  by_cases hwindow : index = windowEntry
  · rw [hwindow, walk_eq] at hwalk
    obtain ⟨w, hw, hwalk⟩ := Option.bind_eq_some_iff.mp hwalk
    rw [h.window.follow] at hw
    obtain rfl := Option.some.inj hw
    have hin : pageTree.Within .window [] rest := by
      match rest, hlen, hrest with
      | [], _, _ => trivial
      | [i], _, hrest =>
        exact ⟨⟨hrest i List.mem_cons_self, fun _ _ hx => nomatch hx⟩, trivial⟩
      | [i, j], _, hrest =>
        exact ⟨⟨hrest i List.mem_cons_self, fun _ _ hx => nomatch hx⟩,
          ⟨hrest j (List.mem_cons_of_mem i List.mem_cons_self), fun _ _ hx => nomatch hx⟩,
          trivial⟩
    refine .inl ⟨_, h.owned.forest.walk_place h.window.2.2
      (by rw [List.length_nil, Nat.zero_add]; exact Nat.le_succ_of_le hlen) hin hwalk, ?_⟩
    rwa [List.append_nil, List.length_reverse]
  · exact .inr (.inr (h.kernelTable_base ⟨index, rest, hlo, hhi, hwindow, hlen, hwalk⟩))

/-- The tables of the kernel half belong to no space. -/
theorem Separate.kernelHalfTable (h : Separate boot base places s) {space : Nat}
    (hspace : space = boot ∨ space ∈ s.live)
    (ht : KernelHalfTable s.memory space frame) (path : List Nat) :
    places frame ≠ some (.space r, path) := by
  intro heq
  rcases h.kernelHalfTable_place hspace ht with ⟨path', hplace, -⟩ | hboot
  · rw [heq] at hplace
    cases hplace
  · rw [(h.fixed frame hboot).1] at heq
    cases heq

theorem Separate.kernelHalfTable_notFree (h : Separate boot base places s) {space : Nat}
    (hspace : space = boot ∨ space ∈ s.live)
    (ht : KernelHalfTable s.memory space frame) : ¬ s.memory.frames.IsFree frame := by
  rcases h.kernelHalfTable_place hspace ht with ⟨path, hplace, -⟩ | hboot
  · exact h.owned.notFree _ _ hplace
  · exact (h.fixed frame hboot).2.1

/-- The pages of kernel stacks belong to no space. -/
theorem Separate.kernelStackPage (h : Separate boot base places s) {space : Nat}
    (hspace : space = boot ∨ space ∈ s.live)
    (hpage : KernelStackPage s.memory space frame) (path : List Nat) :
    places frame ≠ some (.space r, path) := by
  obtain ⟨slot, hslot, page, hmem, leaf, hlookup, rfl⟩ := hpage
  obtain ⟨hguard, hend⟩ := mem_kernelStack hslot hmem
  rw [h.lookup_window hspace (base_le_of_guard hguard) hend] at hlookup
  unfold Radix.entry at hlookup
  obtain ⟨table, hwalk, hleaf⟩ := Option.bind_eq_some_iff.mp hlookup
  split at hleaf
  · rename_i hpresent
    rw [Option.some.inj hleaf] at hpresent
    have htable := h.owned.forest.walk_place h.window.2.2
      (Nat.le_of_lt (length_windowIndices page)) (within_window page) hwalk
    have hin := (inside_window_leaf (base_le_of_guard hguard) hend).mpr hguard
    have href := ref_eq ((ref_isSome leaf).mp hpresent)
    rw [← Option.some.inj hleaf] at href
    have hplace := h.owned.forest.child htable (length_windowIndices page) hin href
    rw [Option.some.inj hleaf] at hplace
    rw [hplace]
    exact fun heq => nomatch heq
  · cases hleaf

end Exclusive

/-- In every reachable state a frame that the lower half of a live space
refers to is referred to once, is allocated, and is neither a root table nor
a table or a stack page of the kernel. -/
theorem frames_exclusive {config : PagingConfig} {boot : Nat} {base : Memory}
    {s : SpaceState} (h : SpacesReached config Always boot base s) :
    (∀ r ∈ s.live, s.memory.frames.IsAllocated r ∧ r ≠ boot ∧
      ∀ space, space = boot ∨ space ∈ s.live → ¬ KernelHalfTable s.memory space r) ∧
    ∀ r ∈ s.live, ∀ path index frame, References s.memory r path index frame →
      (∀ r' ∈ s.live, ∀ path' index', References s.memory r' path' index' frame →
        r' = r ∧ path' = path ∧ index' = index) ∧
      s.memory.frames.IsAllocated frame ∧ frame ∉ s.live ∧ frame ≠ boot ∧
      (∀ space, space = boot ∨ space ∈ s.live →
        ¬ KernelHalfTable s.memory space frame) ∧
      ∀ space, space = boot ∨ space ∈ s.live →
        ¬ KernelStackPage s.memory space frame := by
  obtain ⟨places, hsep, -⟩ := h.separate
  refine ⟨?_, ?_⟩
  · intro r hr
    have hplace := hsep.place hr
    refine ⟨hsep.owned.allocated r r [] hplace, ?_, ?_⟩
    · rintro rfl
      rw [(hsep.fixed r (.inl rfl)).1] at hplace
      cases hplace
    · exact fun space hspace ht => hsep.kernelHalfTable hspace ht [] hplace
  · intro r hr path index frame href
    have hplace := hsep.place_of_references hr href
    refine ⟨?_, hsep.owned.allocated _ _ _ hplace, ?_, ?_, ?_, ?_⟩
    · intro r' hr' path' index' href'
      rw [hsep.place_of_references hr' href'] at hplace
      obtain ⟨howner, hpath⟩ := Prod.mk.inj (Option.some.inj hplace)
      obtain ⟨hindex, hpath⟩ := List.cons.inj hpath
      exact ⟨Owner.space.inj howner, List.reverse_injective hpath, hindex⟩
    · intro hlive
      rw [hsep.place hlive] at hplace
      exact nomatch (Prod.mk.inj (Option.some.inj hplace)).2
    · rintro rfl
      rw [(hsep.fixed frame (.inl rfl)).1] at hplace
      cases hplace
    · exact fun space hspace ht => hsep.kernelHalfTable hspace ht _ hplace
    · exact fun space hspace hpage => hsep.kernelStackPage hspace hpage _ hplace

set_option maxRecDepth 100000 in
/-- Two spaces map a page at the same address, and the second mapping of it
in one of them fails. -/
theorem frames_exclusive_twoSpaces : ∃ s : SpaceState, s.live = [0x104000, 0x103000] ∧
    References s.memory 0x103000 [0, 1, 0] 0 0x105000 ∧
    References s.memory 0x104000 [0, 1, 0] 0 0x109000 ∧
    ∀ r' ∈ s.live, ∀ path' index', References s.memory r' path' index' 0x105000 →
      r' = 0x103000 ∧ path' = [0, 1, 0] ∧ index' = 0 := by
  have hrun : ((spacesAfter Always [.create, .create, .allocate,
      .mapIn 0x103000 futureUserSpaceBase 0x105000 .userReadWrite, .allocate,
      .mapIn 0x104000 futureUserSpaceBase 0x109000 .userReadExecute, .allocate,
      .mapIn 0x103000 futureUserSpaceBase 0x10D000 .userReadOnly, .free 0x10D000]).any
      fun s => decide (s.live = [0x104000, 0x103000] ∧
        (s.memory.walk [0, 1, 0] 0x103000 = some 0x108000 ∧
          Present (s.memory.words 0x108000 0) ∧
          target (s.memory.words 0x108000 0) = 0x105000) ∧
        s.memory.walk [0, 1, 0] 0x104000 = some 0x10C000 ∧
          Present (s.memory.words 0x10C000 0) ∧
          target (s.memory.words 0x10C000 0) = 0x109000)) = true := by decide +kernel
  obtain ⟨s, hs, hstate⟩ := (Option.any_eq_true _ _).mp hrun
  obtain ⟨hlive, hfirst, hsecond⟩ := of_decide_eq_true hstate
  obtain ⟨base, hreached⟩ := spacesReached_after hs
  have href : References s.memory 0x103000 [0, 1, 0] 0 0x105000 :=
    ⟨by decide, by decide, by decide, by decide, _, hfirst⟩
  refine ⟨s, hlive, href, ⟨by decide, by decide, by decide, by decide, _, hsecond⟩, ?_⟩
  exact ((frames_exclusive hreached).2 0x103000 (by rw [hlive]; decide) _ _ _ href).1

end OpenKernel
