import OpenKernel.Memory.Release

/-!
# Mapping and unmapping

What `map_page_in` and `unmap_page` do to a forest, in terms of lookups:
`Memory.lookup` is the leaf entry that the walk of a virtual address ends
at.  A successful `map_page_in` adds one lookup and changes no other, a
failing one changes none, and `unmap_page` removes one.
-/

namespace OpenKernel

open Lib

/-- The present leaf entry for a virtual address, if the walk reaches one. -/
def Memory.lookup (m : Memory) (addressSpace virtualAddress : Nat) : Option Nat :=
  (m.walk (upperIndices virtualAddress) (target addressSpace)).bind fun table =>
    let leaf := m.words table (leafIndex virtualAddress)
    if Present leaf then some leaf else none

theorem ref_isSome (entry : Nat) : (pageTree.ref entry).isSome = true ↔ Present entry := by
  by_cases hp : Present entry
  · rw [ref_eq hp]
    exact iff_of_true rfl hp
  · rw [ref_eq_none hp]
    exact iff_of_false Bool.false_ne_true hp

/-- A lookup is the entry of the tree on the path that the address spells. -/
theorem lookup_eq (m : Memory) (addressSpace virtualAddress : Nat) :
    m.lookup addressSpace virtualAddress =
      pageTree.entry m.words (upperIndices virtualAddress) (leafIndex virtualAddress)
        (target addressSpace) := by
  unfold Memory.lookup Radix.entry
  rw [walk_eq]
  congr 1
  funext table
  exact if_congr (ref_isSome _).symm rfl rfl

/-! ## Frames outside the forest -/

/-- The frames that are in no tree, not free and not in `used` are as they
were, and the trees have the same roots. -/
structure Touches (used : Nat → Prop) (places : Places) (m : Memory)
    (places' : Places) (m' : Memory) : Prop where
  frames : ∀ f, places f = none → ¬ m.frames.IsFree f → ¬ used f →
    places' f = none ∧ m'.words f = m.words f ∧ ¬ m'.frames.IsFree f ∧
      (m'.frames.IsAllocated f ↔ m.frames.IsAllocated f)
  roots : ∀ f o, places' f = some (o, []) ↔ places f = some (o, [])
  outside : ∀ f o i, places f = some (o, []) → ¬ pageTree.inside o [] i →
    m'.words f i = m.words f i
  cr3 : m'.cr3 = m.cr3
  offset : m'.physicalMemoryOffset = m.physicalMemoryOffset

section Touches

variable {flags : PageFlags} {used used' : Nat → Prop}
  {places places' places'' : Places} {m m' m'' : Memory}
  {table page last : Nat} {o : Owner} {path : List Nat}

theorem Touches.refl : Touches used places m places m where
  frames _ hf hfree _ := ⟨hf, rfl, hfree, Iff.rfl⟩
  roots _ _ := Iff.rfl
  outside _ _ _ _ _ := rfl
  cr3 := rfl
  offset := rfl

theorem Touches.trans (h : Touches used places m places' m')
    (h' : Touches used places' m' places'' m'') :
    Touches used places m places'' m'' where
  frames f hf hfree hused := by
    obtain ⟨hf₁, hw₁, hfree₁, hall₁⟩ := h.frames f hf hfree hused
    obtain ⟨hf₂, hw₂, hfree₂, hall₂⟩ := h'.frames f hf₁ hfree₁ hused
    exact ⟨hf₂, hw₂.trans hw₁, hfree₂, hall₂.trans hall₁⟩
  roots f o := (h'.roots f o).trans (h.roots f o)
  outside f o i hf hi :=
    (h'.outside f o i ((h.roots f o).mpr hf) hi).trans (h.outside f o i hf hi)
  cr3 := h'.cr3.trans h.cr3
  offset := h'.offset.trans h.offset

theorem Touches.mono (h : Touches used places m places' m')
    (hused : ∀ f, used f → used' f) : Touches used' places m places' m' :=
  ⟨fun f hf hfree hnot => h.frames f hf hfree (mt (hused f) hnot), h.roots, h.outside,
    h.cr3, h.offset⟩

theorem Grows.touches (h : Grows flags o places m places' m') :
    Touches used places m places' m' where
  frames f hf hfree _ := by
    have hf' : places' f = none := by
      by_contra hsome
      exact hfree (h.fresh f hf hsome).1
    exact ⟨hf', h.words f hf', mt (h.frames f hf').1.mp hfree, (h.frames f hf').2⟩
  roots f o := ⟨h.roots f o, h.kept f _⟩
  outside f o i hf hi := h.outside f o [] i hf hi
  cr3 := h.cr3
  offset := h.offset

/-- Writing a word of a table inside the forest. -/
theorem touches_writeWord (ht : places table = some (o, path)) {i : Nat} (value : Nat)
    (hin : path = [] → pageTree.inside o [] i)
    (hroots : ∀ f o, places' f = some (o, []) ↔ places f = some (o, []))
    (hplaces : ∀ f, places f = none → ¬ used f → places' f = none) :
    Touches used places m places' (m.writeWord table i value) where
  frames f hf hfree hnot := by
    refine ⟨hplaces f hf hnot, ?_, hfree, Iff.rfl⟩
    have hne : f ≠ table := by
      rintro rfl
      rw [ht] at hf
      cases hf
    exact put_other hne
  roots := hroots
  outside f o' j hf hout := by
    have hw : Radix.Wrote m.words (m.writeWord table i value).words table i :=
      wrote_writeWord m value
    rcases hw.eq_or f j with ⟨rfl, rfl⟩ | hsame
    · rw [ht] at hf
      obtain ⟨rfl, rfl⟩ := Prod.mk.inj (Option.some.inj hf)
      exact absurd (hin rfl) hout
    · exact hsame
  cr3 := rfl
  offset := rfl

/-- Mapping a page uses its frame and nothing else. -/
theorem touches_fill (ht : places table = some (o, path)) {i : Nat} (value : Nat)
    (hin : pageTree.inside o path i) (hfresh : places page = none) :
    Touches (· = page) places m
      (Function.update places page (some (o, i :: path))) (m.writeWord table i value) := by
  refine touches_writeWord ht value (fun heq => by rwa [heq] at hin) ?_ ?_
  · intro f o'
    by_cases hf : f = page
    · rw [hf, Function.update_self, hfresh]
      simp
    · rw [Function.update_of_ne hf]
  · intro f hf hne
    rw [Function.update_of_ne hne, hf]

/-- Unmapping a page touches no frame outside the forest. -/
theorem touches_clear (ht : places table = some (o, path)) {i : Nat}
    (hin : pageTree.inside o path i) (hpage : places page = some (o, i :: path)) :
    Touches used places m (Function.update places page none)
      (m.writeWord table i 0) := by
  refine touches_writeWord ht 0 (fun heq => by rwa [heq] at hin) ?_ ?_
  · intro f o'
    by_cases hf : f = page
    · rw [hf, Function.update_self, hpage]
      simp
    · rw [Function.update_of_ne hf]
  · intro f hf _
    by_cases hfp : f = page
    · rw [hfp, Function.update_self]
    · rw [Function.update_of_ne hfp, hf]

end Touches

/-! ## Virtual addresses -/

section Addresses

variable {v w : Nat}

theorem index_eq (v shift : Nat) : (v >>> shift) &&& 0x1FF = v / 2 ^ shift % 512 := by
  rw [Nat.shiftRight_eq_div_pow]
  exact Nat.and_two_pow_sub_one_eq_mod _ 9

theorem index_lt (v shift : Nat) : (v >>> shift) &&& 0x1FF < 512 := by
  rw [index_eq]
  exact Nat.mod_lt _ (by omega)

/-- The indices of a lower-half address stay inside the tree of its space. -/
theorem within_space (root : Nat) (hv : v < userSpaceEnd) :
    pageTree.Within (.space root) [] (upperIndices v) := by
  refine ⟨⟨index_lt v 39, fun _ => ?_⟩, ⟨index_lt v 30, fun h => nomatch h⟩,
    ⟨index_lt v 21, fun h => nomatch h⟩, trivial⟩
  rw [index_eq]
  have : userSpaceEnd = 2 ^ 47 := by decide
  omega

theorem length_upperIndices (v : Nat) : 0 + (upperIndices v).length < 4 :=
  Nat.lt_succ_self 3

theorem inside_leaf (root v : Nat) :
    pageTree.inside (.space root) ((upperIndices v).reverse ++ []) (leafIndex v) :=
  ⟨index_lt v 12, fun h => nomatch h⟩

/-- Two lower-half addresses with the same indices lie in the same page. -/
theorem same_page (hv : v < userSpaceEnd) (hw : w < userSpaceEnd) :
    (upperIndices v = upperIndices w ∧ leafIndex v = leafIndex w) ↔
      v / pageSize = w / pageSize := by
  have hend : userSpaceEnd = 2 ^ 47 := by decide
  have hpage : pageSize = 4096 := rfl
  unfold upperIndices leafIndex
  simp only [index_eq, List.cons.injEq, and_true, hpage]
  constructor
  · rintro ⟨⟨h₄, h₃, h₂⟩, h₁⟩
    omega
  · intro h
    omega

end Addresses

/-! ## Mapping -/

/-- `map_page_in` from any table on. -/
def mapFrom (flags : PageFlags) (indices : List Nat) (last physicalAddress table : Nat) :
    Paging Unit := do
  let table ← indices.foldlM (descend flags) table
  if Present ((← get).words table last) then
    throw .alreadyMapped
  else
    modify (·.writeWord table last (target physicalAddress ||| flags.bits))

theorem mapPageIn_eq (addressSpace virtualAddress physicalAddress : Nat)
    (flags : PageFlags) :
    mapPageIn addressSpace virtualAddress physicalAddress flags =
      mapFrom flags (upperIndices virtualAddress) (leafIndex virtualAddress)
        physicalAddress (target addressSpace) := rfl

section Map

variable {flags : PageFlags} {places : Places} {m m' : Memory}
  {table last page : Nat} {o : Owner} {path is : List Nat}

theorem mapFrom_of_walk {final : Nat}
    (hx : is.foldlM (descend flags) table m = .ok final m') :
    mapFrom flags is last page table m =
      if Present (m'.words final last) then .error .alreadyMapped m'
      else .ok () (m'.writeWord final last (target page ||| flags.bits)) := by
  unfold mapFrom
  show EStateM.bind (is.foldlM (descend flags) table) _ m = _
  unfold EStateM.bind
  rw [hx]
  show (if Present (m'.words final last) then _ else _ : Paging Unit) m' = _
  by_cases hp : Present (m'.words final last)
  · rw [if_pos hp, if_pos hp]
    rfl
  · rw [if_neg hp, if_neg hp]
    rfl

theorem mapFrom_of_error {e : PagingError}
    (hx : is.foldlM (descend flags) table m = .error e m') :
    mapFrom flags is last page table m = .error e m' := by
  unfold mapFrom
  show EStateM.bind (is.foldlM (descend flags) table) _ m = _
  unfold EStateM.bind
  rw [hx]

/-- The first step of a walk, when it fails. -/
theorem mapFrom_of_first_error {e : PagingError} {index : Nat}
    (hx : descend flags table index m = .error e m') :
    mapFrom flags (index :: is) last page table m = .error e m' := by
  refine mapFrom_of_error ?_
  show EStateM.bind (descend flags table index) _ m = _
  unfold EStateM.bind
  rw [hx]

/-- The first step of a walk can be taken back: the walk finds its link. -/
theorem mapFrom_of_first {index : Nat}
    (hx : descend flags table index m = .ok (target (m'.words table index)) m')
    (hp : Present (m'.words table index)) (hh : ¬ Huge (m'.words table index)) :
    mapFrom flags (index :: is) last page table m =
      mapFrom flags (index :: is) last page table m' := by
  have hfold : (index :: is).foldlM (descend flags) table m =
      (index :: is).foldlM (descend flags) table m' := by
    show EStateM.bind (descend flags table index) _ m =
      EStateM.bind (descend flags table index) _ m'
    unfold EStateM.bind
    rw [hx, descend_of_present hp hh]
  cases hy : (index :: is).foldlM (descend flags) table m' with
  | ok final m₁ => rw [mapFrom_of_walk hy, mapFrom_of_walk (hfold.trans hy)]
  | error e m₁ => rw [mapFrom_of_error hy, mapFrom_of_error (hfold.trans hy)]

/-- How `map_page_in` ends: it has grown the tree, and then it has written
the leaf, has found it present, or has found no frame for a table. -/
theorem Owned.mapFrom (h : Owned places m) (ht : places table = some (o, path))
    (flags : PageFlags) (last page : Nat) (hlen : path.length + is.length < pageTree.depth o)
    (hin : pageTree.Within o path is) :
    match OpenKernel.mapFrom flags is last page table m with
    | .ok _ m' => ∃ places₁ m₁ final, Owned places₁ m₁ ∧
        Grows flags o places m places₁ m₁ ∧
        places₁ final = some (o, is.reverse ++ path) ∧
        pageTree.walk m₁.words is table = some final ∧
        ¬ Present (m₁.words final last) ∧
        m' = m₁.writeWord final last (target page ||| flags.bits)
    | .error e m' => ∃ places₁, Owned places₁ m' ∧
        Grows flags o places m places₁ m' ∧
        (e = .frameAllocationFailed ∧ m'.frames.allocate.1 = none ∧
            pageTree.walk m.words is table = none ∨
          e = .alreadyMapped ∧ ∃ final, places₁ final = some (o, is.reverse ++ path) ∧
            pageTree.walk m'.words is table = some final ∧
            Present (m'.words final last)) := by
  have hwalk := h.descends ht flags hlen hin
  cases hx : is.foldlM (OpenKernel.descend flags) table m with
  | error e m₁ =>
    rw [hx] at hwalk
    obtain ⟨he, hnone, hwalk, places₁, h₁, hgrows⟩ := hwalk
    rw [mapFrom_of_error hx]
    exact ⟨places₁, h₁, hgrows, .inl ⟨he, hnone, hwalk⟩⟩
  | ok final m₁ =>
    rw [hx] at hwalk
    obtain ⟨places₁, h₁, hgrows, hfinal, hwalk⟩ := hwalk
    rw [mapFrom_of_walk hx]
    by_cases hp : Present (m₁.words final last)
    · rw [if_pos hp]
      exact ⟨places₁, h₁, hgrows, .inr ⟨rfl, final, hfinal, hwalk, hp⟩⟩
    · rw [if_neg hp]
      exact ⟨places₁, m₁, final, h₁, hgrows, hfinal, hwalk, hp, rfl⟩

end Map

/-! ## One page of a tree -/

/-- Every link of the spaces can be followed from user mode. -/
def UserLinked (places : Places) (m : Memory) : Prop :=
  ∀ f r path i, places f = some (.space r, path) → path.length + 1 < 4 →
    pageTree.inside (.space r) path i → Present (m.words f i) →
      m.words f i &&& (presentBit ||| userBit ||| hugePageBit) = presentBit ||| userBit

/-- All entries of the last level are as before, but for those in `except`. -/
def SameEntries (places : Places) (m m' : Memory)
    (except : Owner → List Nat → Nat → Prop) : Prop :=
  ∀ o f is last, places f = some (o, []) → is.length + 1 = pageTree.depth o →
    pageTree.Within o [] is → ¬ except o is last →
      pageTree.entry m'.words is last f = pageTree.entry m.words is last f

/-- `unmap_page` from any table on. -/
def Memory.unmapFrom (m : Memory) (indices : List Nat) (last table : Nat) :
    Option Nat × Memory :=
  match m.walk indices table with
  | none => (none, m)
  | some table =>
    let leaf := m.words table last
    if ¬ Present leaf then (none, m)
    else (some (target leaf), m.writeWord table last 0)

theorem unmapPage_eq (m : Memory) (virtualAddress : Nat) :
    m.unmapPage virtualAddress =
      m.unmapFrom (upperIndices virtualAddress) (leafIndex virtualAddress)
        (target m.cr3) := rfl

section Page

variable {flags : PageFlags} {places places' : Places} {m m' : Memory}
  {table last page root r : Nat} {o : Owner} {path is : List Nat}

theorem Grows.userLinked (h : Grows flags o places m places' m')
    (huser : o ≠ .window → flags.bits &&& userBit ≠ 0) (hlinked : UserLinked places m) :
    UserLinked places' m' := by
  intro f r path i hf hlen hin hp
  rcases h.links f _ path i hf hlen hin hp with ⟨hold, hsame⟩ | hnew
  · rw [hsame] at hp ⊢
    exact hlinked f r path i hold hlen hin hp
  · refine hnew.2 (huser ?_)
    rw [← hnew.1]
    exact fun heq => nomatch heq

theorem Grows.sameEntries (h : Grows flags o places m places' m') :
    SameEntries places m m' fun _ _ _ => False :=
  fun o f is last hf hlen hin _ =>
    h.entries f o [] is last hf (by rw [List.length_nil, Nat.zero_add]; exact hlen) hin

/-- Writing a leaf leaves the links alone. -/
theorem UserLinked.writeLeaf (h : UserLinked places m)
    (ht : places table = some (o, path)) (hlen : path.length + 1 = pageTree.depth o)
    (hplaces : ∀ f r path', places' f = some (.space r, path') →
      path'.length + 1 < 4 → places f = some (.space r, path')) (value : Nat) :
    UserLinked places' (m.writeWord table last value) := by
  intro f r path' i hf hlen' hin hp
  have hf := hplaces f r path' hf hlen'
  have hne : f ≠ table := by
    rintro rfl
    rw [ht] at hf
    obtain ⟨rfl, rfl⟩ := Prod.mk.inj (Option.some.inj hf)
    change path.length + 1 = 4 at hlen
    omega
  rw [(wrote_writeWord m value).other f hne] at hp ⊢
  exact h f r path' i hf hlen' hin hp

/-- The entry of a path that leads to a table. -/
theorem entry_of_walk (hwalk : pageTree.walk m.words is root = some table) :
    pageTree.entry m.words is last root =
      if Present (m.words table last) then some (m.words table last) else none := by
  unfold Radix.entry
  rw [hwalk]
  exact if_congr (ref_isSome _) rfl rfl

theorem entry_of_walk_none (hwalk : pageTree.walk m.words is root = none) :
    pageTree.entry m.words is last root = none := by
  unfold Radix.entry
  rw [hwalk]
  rfl

/-- A leaf that is written is what its path leads to. -/
theorem entry_write_self (h : Owned places m) (hroot : places root = some (o, []))
    (hlen : is.length + 1 = pageTree.depth o) (hin : pageTree.Within o [] is)
    (hwalk : pageTree.walk m.words is root = some table) (value : Nat) :
    pageTree.entry (m.writeWord table last value).words is last root =
      if Present value then some value else none := by
  have hlen' : ([] : List Nat).length + is.length + 1 = pageTree.depth o := by
    rw [List.length_nil, Nat.zero_add]
    exact hlen
  have ht := h.forest.walk_place hroot (by omega) hin hwalk
  rw [h.forest.entry_wrote_self (wrote_writeWord m value) ht
    (by rw [List.append_nil, List.length_reverse]; exact hlen) hroot hlen' hin hwalk,
    writeWord_same]
  exact if_congr (ref_isSome value) rfl rfl

theorem sameEntries_write (h : Owned places m)
    (ht : places table = some (o, is.reverse ++ []))
    (hlen : is.length + 1 = pageTree.depth o) (value : Nat) :
    SameEntries places m (m.writeWord table last value) fun o' is' last' =>
      o' = o ∧ is' = is ∧ last' = last := by
  intro o' f is' last' hf hlen' hin hne
  refine h.forest.entry_wrote_other (wrote_writeWord m value) ht
    (by rw [List.append_nil, List.length_reverse]; exact hlen) hf
    (by rw [List.length_nil, Nat.zero_add]; exact hlen') hin ?_
  rintro ⟨howner, hpath, hlast⟩
  rw [List.append_nil, List.append_nil] at hpath
  exact hne ⟨howner, List.reverse_injective hpath, hlast⟩

/-- The path of a leaf is not that of a root table. -/
theorem leaf_path_ne (hlen : is.length + 1 = pageTree.depth o) : is.reverse ++ [] ≠ [] := by
  rw [List.append_nil]
  intro hnil
  rw [List.reverse_eq_nil_iff.mp hnil] at hlen
  cases o <;> cases hlen

/-- What mapping a page does to the entries, whatever its frame is. -/
theorem Owned.setEntry (h : Owned places m) (hroot : places root = some (o, []))
    (flags : PageFlags) (last : Nat) (hlen : is.length + 1 = pageTree.depth o)
    (hin : pageTree.Within o [] is) (hpage : target page = page) :
    match OpenKernel.mapFrom flags is last page root m with
    | .ok _ m' => pageTree.entry m.words is last root = none ∧
        pageTree.entry m'.words is last root = some (page ||| flags.bits) ∧
        SameEntries places m m' (fun o' is' last' => o' = o ∧ is' = is ∧ last' = last) ∧
        ∃ places', Touches (fun _ => False) places m places' m'
    | .error e m' =>
        (e = .alreadyMapped ∧ (pageTree.entry m.words is last root).isSome ∨
          e = .frameAllocationFailed ∧ pageTree.entry m.words is last root = none) ∧
        SameEntries places m m' (fun _ _ _ => False) ∧
        ∃ places', Touches (fun _ => False) places m places' m' := by
  have hends := h.mapFrom hroot flags last page
    (by rw [List.length_nil, Nat.zero_add]; omega) hin
  cases hx : OpenKernel.mapFrom flags is last page root m with
  | error e m' =>
    rw [hx] at hends
    obtain ⟨places', h', hgrows, hends⟩ := hends
    refine ⟨?_, hgrows.sameEntries, places', hgrows.touches⟩
    rcases hends with ⟨he, -, hwalk⟩ | ⟨he, final, -, hwalk, hp⟩
    · exact .inr ⟨he, entry_of_walk_none hwalk⟩
    · refine .inl ⟨he, ?_⟩
      rw [← hgrows.sameEntries o root is last hroot hlen hin id, entry_of_walk hwalk,
        if_pos hp]
      rfl
  | ok u m' =>
    rw [hx] at hends
    obtain ⟨places₁, m₁, final, h₁, hgrows, hfinal, hwalk, hp, rfl⟩ := hends
    rw [hpage]
    refine ⟨?_, ?_, ?_, places₁, hgrows.touches.trans (touches_writeWord hfinal _
      (fun hnil => absurd hnil (leaf_path_ne hlen)) (fun _ _ => Iff.rfl) fun _ hf _ => hf)⟩
    · rw [← hgrows.sameEntries o root is last hroot hlen hin id, entry_of_walk hwalk,
        if_neg hp]
    · rw [entry_write_self h₁ (hgrows.kept _ _ hroot) hlen hin hwalk,
        if_pos (present_page hpage flags)]
    · intro o' f is' last' hf hlen' hin' hne
      rw [sameEntries_write h₁ hfinal hlen _ o' f is' last' (hgrows.kept _ _ hf) hlen' hin'
        hne]
      exact hgrows.sameEntries o' f is' last' hf hlen' hin' id

/-- What a call leaves behind that has used no frame outside the trees but
those in `used`. -/
def Leaves (used : Nat → Prop) (flags : PageFlags) (o : Owner) (places : Places)
    (m m' : Memory) : Prop :=
  ∃ places', Owned places' m' ∧ Touches used places m places' m' ∧
    ((o ≠ .window → flags.bits &&& userBit ≠ 0) → UserLinked places m →
      UserLinked places' m')

/-- Mapping a page of a tree to a frame that is in no tree. -/
theorem Owned.mapEntry (h : Owned places m) (hroot : places root = some (o, []))
    (flags : PageFlags) (last : Nat) (hlen : is.length + 1 = pageTree.depth o)
    (hin : pageTree.Within o [] is) (hleaf : pageTree.inside o (is.reverse ++ []) last)
    (hfresh : places page = none) (hall : m.frames.IsAllocated page)
    (hnot : ¬ m.frames.IsFree page) :
    match OpenKernel.mapFrom flags is last page root m with
    | .ok _ m' => pageTree.entry m.words is last root = none ∧
        pageTree.entry m'.words is last root = some (page ||| flags.bits) ∧
        SameEntries places m m' (fun o' is' last' => o' = o ∧ is' = is ∧ last' = last) ∧
        Leaves (· = page) flags o places m m'
    | .error e m' =>
        (e = .alreadyMapped ∧ (pageTree.entry m.words is last root).isSome ∨
          e = .frameAllocationFailed ∧ pageTree.entry m.words is last root = none) ∧
        SameEntries places m m' (fun _ _ _ => False) ∧
        Leaves (fun _ => False) flags o places m m' := by
  have htarget := hall.target_eq
  have hentry := h.setEntry hroot flags last hlen hin htarget
  have hends := h.mapFrom hroot flags last page
    (by rw [List.length_nil, Nat.zero_add]; omega) hin
  cases hx : OpenKernel.mapFrom flags is last page root m with
  | error e m' =>
    rw [hx] at hentry hends
    obtain ⟨places', h', hgrows, -⟩ := hends
    exact ⟨hentry.1, hentry.2.1, places', h', hgrows.touches, hgrows.userLinked⟩
  | ok u m' =>
    rw [hx] at hentry hends
    obtain ⟨hnone, hsome, hsame, -⟩ := hentry
    obtain ⟨places₁, m₁, final, h₁, hgrows, hfinal, -, hp, rfl⟩ := hends
    rw [htarget] at hsome hsame ⊢
    have hdepth : (is.reverse ++ []).length + 1 = pageTree.depth o := by
      rw [List.append_nil, List.length_reverse]
      exact hlen
    have htouch : Touches (· = page) places m places₁ m₁ := hgrows.touches
    have hnone' : Touches (fun _ => False) places m places₁ m₁ := hgrows.touches
    have hpage := hnone'.frames page hfresh hnot id
    refine ⟨hnone, hsome, hsame, _,
      h₁.fill hfinal hdepth flags hleaf hp hpage.1 (hpage.2.2.2.mpr hall) hpage.2.2.1,
      htouch.trans (touches_fill hfinal _ hleaf hpage.1), ?_⟩
    intro huser hlinked
    refine (hgrows.userLinked huser hlinked).writeLeaf hfinal hdepth ?_ _
    intro f r path' hf hlen
    by_cases hfp : f = page
    · rw [hfp, Function.update_self] at hf
      obtain ⟨rfl, rfl⟩ := Prod.mk.inj (Option.some.inj hf)
      rw [List.length_cons, hdepth] at hlen
      exact absurd hlen (show ¬ 4 + 1 < 4 by decide)
    · rwa [Function.update_of_ne hfp] at hf

/-- Unmapping a page of a tree. -/
theorem Owned.unmapEntry (h : Owned places m) (hroot : places root = some (o, []))
    (last : Nat) (hlen : is.length + 1 = pageTree.depth o)
    (hin : pageTree.Within o [] is) (hleaf : pageTree.inside o (is.reverse ++ []) last) :
    match m.unmapFrom is last root with
    | (none, m') => m' = m ∧ pageTree.entry m.words is last root = none
    | (some frame, m') =>
        (∃ leaf, pageTree.entry m.words is last root = some leaf ∧ target leaf = frame) ∧
        pageTree.entry m'.words is last root = none ∧
        SameEntries places m m' (fun o' is' last' => o' = o ∧ is' = is ∧ last' = last) ∧
        m'.frames = m.frames ∧
        (∃ path, places frame = some (o, path) ∧ path ≠ []) ∧
        Owned (Function.update places frame none) m' ∧
        Touches (fun _ => False) places m (Function.update places frame none) m' ∧
        (UserLinked places m → UserLinked (Function.update places frame none) m') := by
  have hlen' : ([] : List Nat).length + is.length + 1 = pageTree.depth o := by
    rw [List.length_nil, Nat.zero_add]
    exact hlen
  have hdepth : (is.reverse ++ []).length + 1 = pageTree.depth o := by
    rw [List.append_nil, List.length_reverse]
    exact hlen
  unfold Memory.unmapFrom
  rw [walk_eq]
  cases hwalk : pageTree.walk m.words is root with
  | none => exact ⟨rfl, entry_of_walk_none hwalk⟩
  | some table =>
    have htable := h.forest.walk_place hroot (by omega) hin hwalk
    dsimp only
    by_cases hp : Present (m.words table last)
    · rw [if_neg (not_not.mpr hp)]
      have hframe := h.forest.child htable (by omega) hleaf (ref_eq hp)
      refine ⟨⟨m.words table last, ?_, rfl⟩, ?_, sameEntries_write h htable hlen 0, rfl,
        ⟨_, hframe, List.cons_ne_nil _ _⟩, h.clear htable hdepth hleaf hp rfl,
        touches_clear htable hleaf hframe, ?_⟩
      · rw [entry_of_walk hwalk, if_pos hp]
      · rw [entry_write_self h hroot hlen hin hwalk, if_neg not_present_zero]
      · intro hlinked
        refine hlinked.writeLeaf htable hdepth ?_ 0
        intro f r path' hf _
        by_cases hfp : f = target (m.words table last)
        · rw [hfp, Function.update_self] at hf
          cases hf
        · rwa [Function.update_of_ne hfp] at hf
    · rw [if_pos hp]
      exact ⟨rfl, by rw [entry_of_walk hwalk, if_neg hp]⟩

end Page

/-! ## Frames that come and go -/

section Frames

variable {used : Nat → Prop} {places places' places'' : Places} {m m' m'' : Memory}
  {frame : Nat}

/-- A call that touches only frames that were placed or free before the call
before it. -/
theorem Touches.after (h : Touches (fun _ => False) places m places' m')
    (h' : Touches used places' m' places'' m'')
    (hused : ∀ f, used f → places f = none → m.frames.IsFree f) :
    Touches (fun _ => False) places m places'' m'' where
  frames f hf hfree hnot := by
    obtain ⟨hf₁, hw₁, hfree₁, hall₁⟩ := h.frames f hf hfree hnot
    obtain ⟨hf₂, hw₂, hfree₂, hall₂⟩ :=
      h'.frames f hf₁ hfree₁ fun hu => hfree (hused f hu hf)
    exact ⟨hf₂, hw₂.trans hw₁, hfree₂, hall₂.trans hall₁⟩
  roots f o := (h'.roots f o).trans (h.roots f o)
  outside f o i hf hi :=
    (h'.outside f o i ((h.roots f o).mpr hf) hi).trans (h.outside f o i hf hi)
  cr3 := h'.cr3.trans h.cr3
  offset := h'.offset.trans h.offset

/-- A frame is handed out. -/
theorem Owned.allocate {frames : FrameAllocator} (h : Owned places m)
    (halloc : m.frames.allocate = (some frame, frames)) :
    Owned places { m with frames } ∧
      Touches (fun _ => False) places m places { m with frames } ∧
      m.frames.IsFree frame ∧ places frame = none ∧ frames.IsAllocated frame ∧
      ¬ frames.IsFree frame := by
  obtain ⟨hfree, hall, hnot, hothers⟩ := FrameAllocator.allocate_some halloc
  have hfresh := h.none_of_free hfree
  have hne : ∀ f x, places f = some x → f ≠ frame := by
    rintro f x hf rfl
    rw [hfresh] at hf
    cases hf
  refine ⟨⟨h.forest, ?_, ?_, h.aligned⟩, ⟨?_, fun _ _ => Iff.rfl, fun _ _ _ _ _ => rfl, rfl, rfl⟩,
    hfree, hfresh, hall, hnot⟩
  · intro f x hf
    exact mt (hothers f (hne f x hf)).1.mp (h.notFree f x hf)
  · intro f r path hf
    exact (hothers f (hne f _ hf)).2.mpr (h.allocated f r path hf)
  · intro f hf hnotFree _
    have hff : f ≠ frame := by
      rintro rfl
      exact hnotFree hfree
    exact ⟨hf, rfl, mt (hothers f hff).1.mp hnotFree, (hothers f hff).2⟩

/-- A frame that is in no tree is given back. -/
theorem Owned.freePhysicalFrame (h : Owned places m) (hnone : places frame = none) :
    Owned places (m.freePhysicalFrame frame) ∧
      Touches (· = frame) places m places (m.freePhysicalFrame frame) := by
  have hne : ∀ f x, places f = some x → f ≠ frame := by
    rintro f x hf rfl
    rw [hnone] at hf
    cases hf
  refine ⟨⟨h.forest, ?_, ?_, h.aligned⟩, ⟨?_, fun _ _ => Iff.rfl, fun _ _ _ _ _ => rfl, rfl, rfl⟩⟩
  · intro f x hf
    exact mt (FrameAllocator.free_other (hne f x hf)).1.mp (h.notFree f x hf)
  · intro f r path hf
    exact (FrameAllocator.free_other (hne f _ hf)).2.mpr (h.allocated f r path hf)
  · intro f hf hnotFree hff
    have hother := FrameAllocator.free_other (a := m.frames) hff
    exact ⟨hf, rfl, mt hother.1.mp hnotFree, hother.2⟩

/-- A word of a frame is written that is a page or in no tree. -/
theorem Owned.writePage (h : Owned places m) (index value : Nat)
    (hpage : ∀ o path, places frame = some (o, path) → path.length = pageTree.depth o) :
    Owned places (m.writeWord frame index value) ∧
      Touches (fun f => f = frame ∧ places frame = none) places m places
        (m.writeWord frame index value) := by
  have hother : ∀ f, f ≠ frame → (m.writeWord frame index value).words f = m.words f :=
    fun f hf => put_other hf
  refine ⟨⟨h.forest.congr ?_, h.notFree, h.allocated, h.aligned⟩,
    ⟨?_, fun _ _ => Iff.rfl, ?_, rfl, rfl⟩⟩
  · intro f o path i hf hlt _
    rw [hother f]
    rintro rfl
    rw [hpage o path hf] at hlt
    exact absurd hlt (Nat.lt_irrefl _)
  · intro f hf hfree hne
    refine ⟨hf, hother f ?_, hfree, Iff.rfl⟩
    rintro rfl
    exact hne ⟨rfl, hf⟩
  · intro f o i hf _
    rw [hother f]
    rintro rfl
    have hlen := hpage o [] hf
    cases o <;> cases hlen

end Frames

/-! ## The window -/

/-- The root entry that the window hangs on. -/
def windowEntry : Nat := (deviceWindowBase >>> 39) &&& 0x1FF

/-- The end of the addresses behind the window's root entry. -/
def windowEnd : Nat := deviceWindowBase + 2 ^ 39

/-- The indices of a window address below the root table. -/
def windowIndices (virtualAddress : Nat) : List Nat :=
  (upperIndices virtualAddress).tail

/-- The window of an address space: what its root entry links to. -/
def HasWindow (places : Places) (m : Memory) (root : Nat) : Prop :=
  Present (m.words root windowEntry) ∧ ¬ Huge (m.words root windowEntry) ∧
    places (target (m.words root windowEntry)) = some (.window, [])

section Window

variable {flags : PageFlags} {places places' : Places} {m m' : Memory}
  {table page root w v : Nat} {path : List Nat}

theorem upperIndices_window (hv : deviceWindowBase ≤ v) (hv' : v < windowEnd) :
    upperIndices v = windowEntry :: windowIndices v := by
  have hindex : (v >>> 39) &&& 0x1FF = windowEntry := by
    unfold windowEntry
    rw [index_eq, index_eq]
    have : deviceWindowBase = 2 ^ 39 * 0x1FFFFFE := by decide
    have : windowEnd = 2 ^ 39 * 0x1FFFFFF := by decide
    omega
  show ((v >>> 39) &&& 0x1FF) :: windowIndices v = _
  rw [hindex]

theorem length_windowIndices (v : Nat) : 0 + (windowIndices v).length < 3 :=
  Nat.lt_succ_self 2

theorem within_window (v : Nat) : pageTree.Within .window [] (windowIndices v) :=
  ⟨⟨index_lt v 30, fun _ _ h => nomatch h⟩, ⟨index_lt v 21, fun _ _ h => nomatch h⟩, trivial⟩

/-- The leaves inside the window's tree are those of the kernel stacks. -/
theorem inside_window_leaf (hv : deviceWindowBase ≤ v) (hv' : v < windowEnd) :
    pageTree.inside .window ((windowIndices v).reverse ++ []) (leafIndex v) ↔
      kernelStackGuardPage ≤ v := by
  have hbase : deviceWindowBase = 2 ^ 39 * 0x1FFFFFE := by decide
  have hend : windowEnd = 2 ^ 39 * 0x1FFFFFF := by decide
  have hguard : kernelStackGuardPage = 2 ^ 39 * 0x1FFFFFE + 64 * 2 ^ 30 := by decide
  have hfirst : firstStackEntry = 64 := by decide
  have hiff : 64 ≤ (v >>> 30) &&& 0x1FF ↔ kernelStackGuardPage ≤ v := by
    rw [index_eq]
    omega
  rw [← hiff]
  constructor
  · intro h
    rw [← hfirst]
    exact h.2 _ _ rfl
  · intro h
    refine ⟨index_lt v 12, ?_⟩
    intro second first heq
    obtain ⟨-, hheq⟩ := List.cons.inj heq
    rw [← (List.cons.inj hheq).1, hfirst]
    exact h

/-- Two window addresses with the same indices lie in the same page. -/
theorem same_window_page {v' : Nat} (hv : deviceWindowBase ≤ v) (hv' : v < windowEnd)
    (hw : deviceWindowBase ≤ v') (hw' : v' < windowEnd)
    (hindices : windowIndices v = windowIndices v') (hleaf : leafIndex v = leafIndex v') :
    v / pageSize = v' / pageSize := by
  have hbase : deviceWindowBase = 2 ^ 39 * 0x1FFFFFE := by decide
  have hend : windowEnd = 2 ^ 39 * 0x1FFFFFF := by decide
  have hpage : pageSize = 4096 := rfl
  change [_, _] = [_, _] at hindices
  unfold leafIndex at hleaf
  simp only [index_eq, List.cons.injEq, and_true] at hindices hleaf
  rw [hpage]
  omega

theorem HasWindow.follow (h : HasWindow places m root) :
    pageTree.follow (m.words root windowEntry) =
      some (target (m.words root windowEntry)) := by
  unfold Radix.follow
  rw [if_pos (isOpen_eq_true.mpr h.2.1), ref_eq h.1]

/-- The lookup of a window address goes on from the window's root. -/
theorem lookup_window (hw : HasWindow places m (target root))
    (hv : deviceWindowBase ≤ v) (hv' : v < windowEnd) :
    m.lookup root v = pageTree.entry m.words (windowIndices v) (leafIndex v)
      (target (m.words (target root) windowEntry)) := by
  rw [lookup_eq, upperIndices_window hv hv']
  unfold Radix.entry
  conv_lhs => rw [Radix.walk, hw.follow]
  rfl

/-- `map_page_in` of a window address goes on from the window's root. -/
theorem mapPageIn_window (hw : HasWindow places m (target root))
    (hv : deviceWindowBase ≤ v) (hv' : v < windowEnd) :
    mapPageIn root v page flags m =
      mapFrom flags (windowIndices v) (leafIndex v) page
        (target (m.words (target root) windowEntry)) m := by
  rw [mapPageIn_eq, upperIndices_window hv hv']
  have hfirst : (windowEntry :: windowIndices v).foldlM (descend flags) (target root) m =
      (windowIndices v).foldlM (descend flags)
        (target (m.words (target root) windowEntry)) m := by
    show EStateM.bind (descend flags (target root) windowEntry) _ m = _
    unfold EStateM.bind
    rw [descend_of_present hw.1 hw.2.1]
  cases hx : (windowIndices v).foldlM (descend flags)
      (target (m.words (target root) windowEntry)) m with
  | ok final m₁ =>
    rw [mapFrom_of_walk hx, mapFrom_of_walk (hfirst.trans hx)]
  | error e m₁ =>
    rw [mapFrom_of_error hx, mapFrom_of_error (hfirst.trans hx)]

end Window

end OpenKernel
