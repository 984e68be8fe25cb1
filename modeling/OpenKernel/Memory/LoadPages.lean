import OpenKernel.Memory.Elf
import OpenKernel.Memory.Contents
import OpenKernel.Memory.NewPages
import OpenKernel.Memory.Allocator

/-!
# Loading pages

The three loops of the ELF loader ask for one page after the other: a page of
a segment, of the stack or of the TLS block, each with a part of the file.
`Loaded` says what a space holds once a list of such requests has been
answered: these pages and no others, with these bytes and permissions, and the
tables above them.  How many frames that takes depends on the pages alone.
-/

namespace OpenKernel

open Lib

/-- A page that the loader asks for.  The file bytes start at the address
`base` and at the offset `fileOffset`. -/
structure PageRequest where
  page : Nat
  flags : PageFlags
  base : Nat
  fileOffset : Nat
  fileSize : Nat

/-- One turn of the loops. -/
def loadRequest (image : List UInt8) (space : Nat) (r : PageRequest) : Loader Unit :=
  loadPage image space r.base r.fileOffset r.fileSize r.flags r.page

namespace PageRequest

/-- The byte that belongs at this offset of the page. -/
def byte (r : PageRequest) (image : List UInt8) (offset : Nat) : UInt8 :=
  if r.base ≤ r.page + offset ∧ r.page + offset < r.base + r.fileSize then
    image[r.fileOffset + (r.page + offset - r.base)]?.getD 0
  else 0

/-- The copy at the end of a turn. -/
def fill (r : PageRequest) (image : List UInt8) (frame : Nat) (m : Memory) : Memory :=
  let copyStart := max r.page r.base
  let copyEnd := min (r.page + pageSize) (r.base + r.fileSize)
  if copyStart < copyEnd then
    m.writePhysicalFrame (frame + copyStart - r.page)
      ((image.drop (r.fileOffset + copyStart - r.base)).take (copyEnd - copyStart))
  else m

section Fill

variable {r : PageRequest} {image : List UInt8} {frame offset : Nat} {m : Memory}

theorem fill_words (r : PageRequest) (image : List UInt8) (frame : Nat) (m : Memory) :
    ∃ words, r.fill image frame m = { m with words } := by
  unfold fill
  dsimp only
  split
  · exact m.writePhysicalFrame_words _ _
  · exact ⟨m.words, rfl⟩

theorem words_fill (r : PageRequest) (image : List UInt8) (m : Memory) {f : Nat}
    (hframe : frame % pageSize = 0) (hf : f ≠ frame) :
    (r.fill image frame m).words f = m.words f := by
  unfold fill
  dsimp only
  split
  · refine Memory.words_writePhysicalFrame fun i hi heq => hf ?_
    have hlen := List.length_take_le (min (r.page + pageSize) (r.base + r.fileSize) -
      max r.page r.base) (image.drop (r.fileOffset + max r.page r.base - r.base))
    rw [heq]
    unfold pageSize at *
    omega
  · rfl

/-- The bytes of a page that was clear. -/
theorem physicalByte_fill (r : PageRequest) (image : List UInt8) (hframe : frame % pageSize = 0)
    (hclear : m.words frame = fun _ => 0) (hoffset : offset < pageSize) :
    (r.fill image frame m).physicalByte (frame + offset) = r.byte image offset := by
  have hzero : m.physicalByte (frame + offset) = 0 := by
    have hsame : (frame + offset) / pageSize * pageSize = frame := by
      unfold pageSize at *
      omega
    exact Memory.physicalByte_clear (by rw [hsame, hclear])
  unfold fill byte
  dsimp only
  split
  · rw [Memory.physicalByte_writePhysicalFrame, hzero]
    by_cases hin : r.base ≤ r.page + offset ∧ r.page + offset < r.base + r.fileSize
    · rw [if_pos hin, if_pos (by omega), List.getElem?_take, List.getElem?_drop,
        if_pos (by omega)]
      congr 2
      omega
    · rw [if_neg hin]
      split
      · rw [List.getElem?_take, if_neg (by omega)]
        rfl
      · rfl
  · rw [hzero, if_neg (by omega)]

end Fill

end PageRequest

/-! ## The paths of a tree -/

/-- The paths of a tree with these pages: theirs and those of the tables above
them. -/
def treePaths (pages : List Nat) : Finset (List Nat) :=
  insert [] (pages.flatMap fun v => (pagePath v).tails).toFinset

theorem mem_treePaths {pages : List Nat} {path : List Nat} :
    path ∈ treePaths pages ↔ path = [] ∨ ∃ v ∈ pages, path <:+ pagePath v := by
  unfold treePaths
  rw [Finset.mem_insert, List.mem_toFinset, List.mem_flatMap]
  simp only [List.mem_tails]

theorem treePaths_append_mono (pages rest : List Nat) :
    treePaths pages ⊆ treePaths (pages ++ rest) := by
  intro path hpath
  rw [mem_treePaths] at hpath ⊢
  refine hpath.imp_right fun ⟨v, hv, hsuffix⟩ => ⟨v, ?_, hsuffix⟩
  exact List.mem_append_left rest hv

/-- The frames that a space with these pages takes up, its root included. -/
def framesFor (pages : List Nat) : Nat := (treePaths pages).card

theorem pagePath_inj {v w : Nat} (hv : v < userSpaceEnd) (hw : w < userSpaceEnd) :
    pagePath v = pagePath w ↔ v / pageSize = w / pageSize := by
  unfold pagePath
  rw [List.cons.injEq, List.reverse_inj, and_comm]
  exact same_page hv hw

/-! ## What has been loaded -/

section Count

variable {space : Nat} {mapped lost : Nat → Prop} {places places' : Places} {m m' : Memory}

/-- Where the frames are that were available to the space. -/
theorem Filled.card {available gone : Finset Nat} {paths : Finset (List Nat)}
    (h : Filled space mapped lost places m places' m')
    (havailable : ∀ f, f ∈ available ↔ FreeOrIn places m (.space space) f)
    (hpaths : ∀ path ∈ paths, ∃ f, places' f = some (.space space, path))
    (hgone : ∀ f ∈ gone, lost f) :
    m'.frames.freeSet.card + paths.card + gone.card ≤ available.card ∧
      ((∀ f path, places' f = some (.space space, path) → path ∈ paths) →
        (∀ f, lost f → f ∈ gone) →
          available.card = m'.frames.freeSet.card + paths.card + gone.card) := by
  choose! frame hframe using hpaths
  have hinj : Set.InjOn frame paths := by
    intro path hmem path' hmem' heq
    have hf := hframe path hmem
    rw [heq, hframe path' hmem'] at hf
    exact (Prod.mk.inj (Option.some.inj hf)).2.symm
  have hmem : ∀ f ∈ paths.image frame, ∃ path, places' f = some (.space space, path) := by
    intro f hf
    obtain ⟨path, hin, rfl⟩ := Finset.mem_image.mp hf
    exact ⟨path, hframe path hin⟩
  have hfree : Disjoint m'.frames.freeSet (paths.image frame) := by
    refine Finset.disjoint_left.mpr fun f hf hin => ?_
    obtain ⟨path, hplace⟩ := hmem f hin
    exact h.owned.notFree f _ hplace ((FrameAllocator.mem_freeSet _ f).mp hf)
  have hlost : Disjoint (m'.frames.freeSet ∪ paths.image frame) gone := by
    refine Finset.disjoint_left.mpr fun f hf hin => ?_
    obtain ⟨-, hnot, hnone⟩ := h.apart f (hgone f hin)
    rcases Finset.mem_union.mp hf with hf | hf
    · exact hnot ((FrameAllocator.mem_freeSet _ f).mp hf)
    · obtain ⟨path, hplace⟩ := hmem f hf
      rw [hnone] at hplace
      cases hplace
  have hcard : (m'.frames.freeSet ∪ paths.image frame ∪ gone).card =
      m'.frames.freeSet.card + paths.card + gone.card := by
    rw [Finset.card_union_of_disjoint hlost, Finset.card_union_of_disjoint hfree,
      Finset.card_image_of_injOn hinj]
  rw [← hcard]
  have hsub : m'.frames.freeSet ∪ paths.image frame ∪ gone ⊆ available := by
    intro f hf
    refine (havailable f).mpr ((h.accounts f).mpr ?_)
    rcases Finset.mem_union.mp hf with hf | hf
    · exact .inl ((Finset.mem_union.mp hf).imp (FrameAllocator.mem_freeSet _ f).mp (hmem f))
    · exact .inr (hgone f hf)
  refine ⟨Finset.card_le_card hsub, fun hall hin => ?_⟩
  congr 1
  refine Finset.Subset.antisymm (fun f hf => ?_) hsub
  rcases (h.accounts f).mp ((havailable f).mp hf) with (hf | ⟨path, hf⟩) | hf
  · exact Finset.mem_union_left _ (Finset.mem_union_left _
      ((FrameAllocator.mem_freeSet _ f).mpr hf))
  · have hpath := hall f path hf
    refine Finset.mem_union_left _ (Finset.mem_union_right _ (Finset.mem_image.mpr ?_))
    exact ⟨path, hpath, h.owned.forest.unique (hframe path hpath) hf⟩
  · exact Finset.mem_union_right _ (hin f hf)

end Count

/-- The requests have been answered: the space holds their pages, with these
bytes and permissions, and nothing else. -/
structure Loaded (image : List UInt8) (space : Nat) (places₀ : Places) (m₀ : Memory)
    (rs : List PageRequest) (places : Places) (m : Memory) : Prop where
  filled : Filled space (fun v => ∃ r ∈ rs, r.page = v) (fun _ => False) places₀ m₀ places m
  root : places₀ space = some (.space space, [])
  paths : ∀ path, (∃ f, places f = some (.space space, path)) ↔
    path ∈ treePaths (rs.map PageRequest.page)
  distinct : Distinct (rs.map PageRequest.page)
  pages : ∀ r ∈ rs, InUserSpace r.page ∧
    ∃ frame, places frame = some (.space space, pagePath r.page) ∧
      pageTree.entry m.words (upperIndices r.page) (leafIndex r.page) space =
        some (frame ||| r.flags.bits) ∧
      ∀ offset < pageSize, m.physicalByte (frame + offset) = r.byte image offset

/-- With this many frames available, and these pages mapped, the frame that is
taken for the next page is lost. -/
def LosesFrameAt (free : Nat) (done : List Nat) (page : Nat) : Prop :=
  framesFor done < free ∧ (¬ InUserSpace page ∨ (∃ v ∈ done, v / pageSize = page / pageSize) ∨
    free < framesFor (done ++ [page]))

/-! ## A new space -/

section Created

variable {boot space : Nat} {base m₁ : Memory} {places : Places}
  {s : SpaceState}

/-- A space that has just been created is empty, and what is available to it
is what was free. -/
theorem Separate.created (h : Separate boot base places s)
    (hcreate : createUserAddressSpace s.memory = .ok space m₁) :
    ∃ places₁, Owned places₁ m₁ ∧ places₁ space = some (.space space, []) ∧
      EmptySpace m₁ space ∧
      ∀ f, f ∈ s.memory.frames.freeSet ↔ FreeOrIn places₁ m₁ (.space space) f := by
  cases hx : s.memory.frames.allocate with
  | mk result frames =>
    cases result with
    | none =>
      rw [createUserAddressSpace_of_none hx] at hcreate
      cases hcreate
    | some frame =>
      obtain ⟨-, -, hfree, hfresh, -, hnot⟩ := h.owned.allocate hx
      have hothers := (FrameAllocator.allocate_some hx).2.2.2
      rw [createUserAddressSpace_of_some hx (h.active_ne hfree)] at hcreate
      obtain ⟨rfl, rfl⟩ := EStateM.Result.ok.inj hcreate
      obtain ⟨hsep, -⟩ := h.create hx
      refine ⟨_, hsep.owned, Function.update_self _ _ _, fun i hi => ?_, fun f => ?_⟩
      · have hzero : (s.memory.withSpace frames frame).words frame i = 0 := by
          show put s.memory.words frame _ frame i = 0
          rw [put_same, if_neg (by omega)]
        rw [hfree.target_eq, hzero]
        exact not_present_zero
      · rw [FrameAllocator.mem_freeSet]
        unfold FreeOrIn
        show _ ↔ frames.IsFree f ∨ _
        by_cases hf : f = frame
        · subst hf
          exact iff_of_true hfree (.inr ⟨[], Function.update_self _ _ _⟩)
        · rw [(hothers f hf).1, Function.update_of_ne hf]
          refine (or_iff_left ?_).symm
          rintro ⟨path, hplace⟩
          obtain ⟨root, hroot⟩ := h.owned.forest.exists_root hplace
          rw [h.roots root frame hroot, hfresh] at hroot
          cases hroot

end Created

/-! ## Loading a page -/

section Load

variable {image : List UInt8} {space : Nat} {places₀ places : Places} {m₀ m : Memory}
  {rs : List PageRequest} {r : PageRequest} {available : Finset Nat}

/-- Nothing has been loaded into an empty space. -/
theorem Loaded.start (image : List UInt8) (h : Owned places m)
    (hroot : places space = some (.space space, [])) (hempty : EmptySpace m space) :
    Loaded image space places m [] places m where
  filled := .refl h
  root := hroot
  paths path := by
    rw [List.map_nil, mem_treePaths]
    constructor
    · rintro ⟨f, hf⟩
      rcases List.eq_nil_or_concat path with rfl | ⟨front, i, rfl⟩
      · exact .inl rfl
      · rw [List.concat_eq_append] at hf
        obtain ⟨g, hg⟩ := h.exists_above hf
        obtain ⟨-, hin, u, hu, href⟩ := h.forest.parent hg
        obtain rfl := h.forest.root hu hroot
        refine absurd (ref_eq_some href).1 ?_
        have habsent := hempty i (hin.2 rfl)
        rwa [h.aligned _ _ hroot] at habsent
    · rintro (rfl | ⟨v, hv, -⟩)
      · exact ⟨space, hroot⟩
      · cases hv
  distinct := List.Pairwise.nil
  pages r hr := nomatch hr

theorem loadRequest_run (image : List UInt8) (space : Nat) (r : PageRequest) (m : Memory) :
    loadRequest image space r m =
      match newUserPage space r.flags r.page m with
      | .ok frame m' => .ok () (r.fill image frame m')
      | .error e m' => .error (.paging e) m' := by
  rw [newUserPage_run]
  show EStateM.bind (Loader.ofPaging allocatePhysicalFrame) _ m = _
  unfold EStateM.bind Loader.ofPaging allocatePhysicalFrame
  cases hx : m.frames.allocate with
  | mk result frames =>
    cases result with
    | none => rw [FrameAllocator.allocate_none hx]
    | some frame =>
      show EStateM.bind (Loader.ofPaging (mapUserPageIn space r.page frame r.flags)) _ _ = _
      unfold EStateM.bind Loader.ofPaging
      dsimp only
      cases mapUserPageIn space r.page frame r.flags
        (({ m with frames } : Memory).zeroPhysicalFrame frame) with
      | error e m' => rfl
      | ok u m' =>
        unfold PageRequest.fill
        dsimp only
        split <;> rfl

/-- The frames that are left. -/
theorem Loaded.card (h : Loaded image space places₀ m₀ rs places m)
    (havailable : ∀ f, f ∈ available ↔ FreeOrIn places₀ m₀ (.space space) f) :
    available.card = m.frames.freeSet.card + framesFor (rs.map PageRequest.page) := by
  have hnone : ∀ f ∈ (∅ : Finset Nat), False := fun f hf => absurd hf (Finset.notMem_empty f)
  have hcard := (h.filled.card havailable (fun path => (h.paths path).mpr) hnone).2
    (fun f path hf => (h.paths path).mp ⟨f, hf⟩) fun f hf => hf.elim
  rwa [Finset.card_empty, Nat.add_zero] at hcard

/-- A page that is not mapped is the page of no request. -/
theorem Loaded.ne_page (h : Loaded image space places₀ m₀ rs places m) {v : Nat}
    (hv : InUserSpace v)
    (habsent : pageTree.entry m.words (upperIndices v) (leafIndex v) space = none)
    (r' : PageRequest) (hr' : r' ∈ rs) : r'.page / pageSize ≠ v / pageSize := by
  intro heq
  obtain ⟨huser, frame, -, hentry, -⟩ := h.pages r' hr'
  obtain ⟨hupper, hleaf⟩ := (same_page huser.2 hv.2).mpr heq
  rw [hupper, hleaf, habsent] at hentry
  cases hentry

/-- A request is answered. -/
theorem Loaded.append {frame : Nat} {places' : Places} {m' : Memory}
    (h : Loaded image space places₀ m₀ rs places m)
    (hfilled : Filled space (· = r.page) (fun _ => False) places m places' m')
    (hnew : NewPage space r.flags r.page frame places m places' m') :
    Loaded image space places₀ m₀ (rs ++ [r]) places' (r.fill image frame m') := by
  have hroot := h.filled.kept _ _ h.root
  have hframe : frame % pageSize = 0 := hnew.fresh.1
  have hnone := h.filled.owned.none_of_free hnew.fresh
  obtain ⟨words, hfill⟩ := r.fill_words image frame m'
  have hother : ∀ f, f ≠ frame → words f = m'.words f := by
    intro f hf
    have hsame := r.words_fill image m' hframe hf
    rwa [hfill] at hsame
  have hbytes : ∀ offset < pageSize, (r.fill image frame m').physicalByte (frame + offset) =
      r.byte image offset := fun _ => r.physicalByte_fill image hframe hnew.clear
  rw [hfill] at hbytes ⊢
  have hlen : (leafIndex r.page :: (upperIndices r.page).reverse).length = 4 := rfl
  have hwhole := hfilled.rewrite hnew.place hlen hnone hnew.fresh hother
  have hsame := sameEntries_rewrite hfilled.owned hnew.place hlen hother
  have hne := h.ne_page hnew.inUser hnew.absent
  constructor
  · refine (h.filled.mono (fun v ⟨r', hr', hv⟩ => ⟨r', List.mem_append_left _ hr', hv⟩)
      fun f => Iff.rfl).trans (hwhole.mono ?_ fun f => Iff.rfl) |>.mono (fun v => id)
        fun f => or_iff_left id
    intro v hv
    exact ⟨r, List.mem_append_right _ (List.mem_singleton_self r), hv.symm⟩
  · exact h.root
  · intro path
    rw [mem_treePaths, List.map_append, List.map_singleton]
    constructor
    · rintro ⟨f, hf⟩
      rcases hnew.paths f path hf with hold | hsuffix
      · refine ((mem_treePaths).mp ((h.paths path).mp ⟨f, hold⟩)).imp_right ?_
        exact fun ⟨v, hv, hsuffix⟩ => ⟨v, List.mem_append_left _ hv, hsuffix⟩
      · exact .inr ⟨r.page, List.mem_append_right _ (List.mem_singleton_self _), hsuffix⟩
    · intro hpath
      have hold : path ∈ treePaths (rs.map PageRequest.page) →
          ∃ f, places' f = some (.space space, path) := fun hmem => by
        obtain ⟨f, hf⟩ := (h.paths path).mpr hmem
        exact ⟨f, hfilled.kept _ _ hf⟩
      rcases hpath with rfl | ⟨v, hv, hsuffix⟩
      · exact hold (mem_treePaths.mpr (.inl rfl))
      · rcases List.mem_append.mp hv with hv | hv
        · exact hold (mem_treePaths.mpr (.inr ⟨v, hv, hsuffix⟩))
        · obtain rfl := List.mem_singleton.mp hv
          obtain ⟨front, hfront⟩ := hsuffix
          have hplace : places' frame = some (.space space, front ++ path) := by
            rw [hfront]
            exact hnew.place
          exact hfilled.owned.exists_above hplace
  · rw [List.map_append, List.map_singleton]
    refine List.pairwise_append.mpr ⟨h.distinct, List.pairwise_singleton _ _, ?_⟩
    intro v hv w hw
    obtain ⟨r', hr', rfl⟩ := List.mem_map.mp hv
    rw [List.mem_singleton.mp hw]
    exact hne r' hr'
  · intro r' hr'
    rcases List.mem_append.mp hr' with hr' | hr'
    · obtain ⟨huser, frame', hplace, hentry, hold⟩ := h.pages r' hr'
      refine ⟨huser, frame', hfilled.kept _ _ hplace, ?_, fun offset hoffset => ?_⟩
      · rw [← hentry]
        exact hwhole.entries _ _ _ _ hroot rfl (within_space space huser.2)
          (by rw [hentry]; rfl)
      · rw [← hold offset hoffset]
        refine Memory.physicalByte_congr ?_
        have halign : frame' % pageSize = 0 := (h.filled.owned.allocated _ _ _ hplace).1
        rw [show (frame' + offset) / pageSize * pageSize = frame' by unfold pageSize at *; omega]
        exact hwhole.contents frame' _ _ hplace rfl
    · obtain rfl := List.mem_singleton.mp hr'
      refine ⟨hnew.inUser, frame, hnew.place, ?_, fun offset hoffset => hbytes offset hoffset⟩
      rw [← hnew.entry]
      exact hsame _ _ _ _ (hfilled.kept _ _ hroot) rfl (within_space space hnew.inUser.2) id

/-- A page that is mapped is the page of a request. -/
theorem Loaded.page_of_entry (h : Loaded image space places₀ m₀ rs places m) {v leaf : Nat}
    (hv : v < userSpaceEnd)
    (hentry : pageTree.entry m.words (upperIndices v) (leafIndex v) space = some leaf) :
    places (target leaf) = some (.space space, pagePath v) ∧
      ∃ w ∈ rs.map PageRequest.page, w / pageSize = v / pageSize := by
  have hroot := h.filled.kept _ _ h.root
  obtain ⟨table, hwalk, hleaf⟩ := Option.bind_eq_some_iff.mp hentry
  split at hleaf
  · obtain rfl := Option.some.inj hleaf
    rename_i hsome
    obtain ⟨child, hchild⟩ := Option.isSome_iff_exists.mp hsome
    have htable := h.filled.owned.forest.walk_place hroot
      (Nat.le_of_lt (length_upperIndices v)) (within_space space hv) hwalk
    have hplace := h.filled.owned.forest.child htable (show 3 < 4 by decide)
      (inside_leaf space v) hchild
    rw [← (ref_eq_some hchild).2, List.append_nil] at hplace
    refine ⟨hplace, ?_⟩
    rcases mem_treePaths.mp ((h.paths _).mp ⟨_, hplace⟩) with hbad | ⟨w, hw, hsuffix⟩
    · cases hbad
    · refine ⟨w, hw, ?_⟩
      obtain ⟨r', hr', rfl⟩ := List.mem_map.mp hw
      have hsame : pagePath v = pagePath r'.page := hsuffix.eq_of_length rfl
      exact ((pagePath_inj hv (h.pages r' hr').1.2).mp hsame).symm
  · cases hleaf

/-- The frames that the pages and a lost one have taken. -/
theorem Loaded.card_lost {mapped : Nat → Prop} {frame : Nat} {places' : Places} {m' : Memory}
    (h : Loaded image space places₀ m₀ rs places m)
    (hfilled : Filled space mapped (· = frame) places m places' m')
    (havailable : ∀ f, f ∈ available ↔ FreeOrIn places₀ m₀ (.space space) f) :
    ∃ mapped', Filled space mapped' (· = frame) places₀ m₀ places' m' ∧
      framesFor (rs.map PageRequest.page) < available.card := by
  have hwhole : Filled space (fun v => (∃ r ∈ rs, r.page = v) ∨ mapped v) (· = frame)
      places₀ m₀ places' m' :=
    ((h.filled.mono (fun v => .inl) fun f => Iff.rfl).trans
      (hfilled.mono (fun v => .inr) fun f => Iff.rfl)).mono (fun v => id)
        fun f => or_iff_right id
  refine ⟨_, hwhole, ?_⟩
  have hgone : ∀ f ∈ ({frame} : Finset Nat), f = frame := fun f => Finset.mem_singleton.mp
  have hpaths : ∀ path ∈ treePaths (rs.map PageRequest.page),
      ∃ f, places' f = some (.space space, path) := by
    intro path hpath
    obtain ⟨f, hf⟩ := (h.paths path).mpr hpath
    exact ⟨f, hfilled.kept _ _ hf⟩
  have hcard := (hwhole.card havailable hpaths hgone).1
  rw [Finset.card_singleton] at hcard
  unfold framesFor
  omega

/-- Without a frame for a table, the tables on the way to the page take fewer
frames than the page needs. -/
theorem Loaded.card_exhausted {mapped : Nat → Prop} {frame : Nat} {places' : Places}
    {m' : Memory} (h : Loaded image space places₀ m₀ rs places m)
    (hfilled : Filled space mapped (· = frame) places m places' m')
    (havailable : ∀ f, f ∈ available ↔ FreeOrIn places₀ m₀ (.space space) f)
    (hnone : m'.frames.allocate.1 = none)
    (hlast : ∀ f, places' f ≠ some (.space space, (upperIndices r.page).reverse))
    (hpaths : ∀ f path, places' f = some (.space space, path) →
      places f = some (.space space, path) ∨ path <:+ pagePath r.page) :
    available.card < framesFor (rs.map PageRequest.page ++ [r.page]) := by
  classical
  obtain ⟨mapped', hwhole, -⟩ := h.card_lost hfilled havailable
  set whole := treePaths (rs.map PageRequest.page ++ [r.page]) with hwholePaths
  have hnew : ∀ path, path <:+ pagePath r.page → path ∈ whole := fun path hsuffix =>
    mem_treePaths.mpr (.inr ⟨r.page, List.mem_append_right _ (List.mem_singleton_self _), hsuffix⟩)
  have htable : (upperIndices r.page).reverse ∈ whole := hnew _ (List.suffix_cons _ _)
  have hleaf : pagePath r.page ∈ whole := hnew _ (List.suffix_refl _)
  have hne : pagePath r.page ≠ (upperIndices r.page).reverse := by
    intro heq
    have hlen := congrArg List.length heq
    unfold pagePath at hlen
    rw [List.length_cons] at hlen
    omega
  have hfree : m'.frames.freeSet = ∅ := by
    refine Finset.eq_empty_of_forall_notMem fun f hf => ?_
    exact m'.frames.allocate_eq_none_iff.mp hnone f ((FrameAllocator.mem_freeSet _ f).mp hf)
  -- The paths of the tree are among those of the page, but for its last two.
  set held := whole.filter fun path => ∃ f, places' f = some (.space space, path) with hheld
  have hgone : ∀ f ∈ ({frame} : Finset Nat), f = frame := fun f => Finset.mem_singleton.mp
  have hheldPaths : ∀ path ∈ held, ∃ f, places' f = some (.space space, path) :=
    fun path hpath => (Finset.mem_filter.mp hpath).2
  have hall : ∀ f path, places' f = some (.space space, path) → path ∈ held := by
    intro f path hf
    refine Finset.mem_filter.mpr ⟨?_, f, hf⟩
    rcases hpaths f path hf with hold | hsuffix
    · exact treePaths_append_mono _ _ ((h.paths path).mp ⟨f, hold⟩)
    · exact hnew path hsuffix
  have hcard := (hwhole.card havailable hheldPaths hgone).2 hall
    fun f => Finset.mem_singleton.mpr
  rw [hfree, Finset.card_empty, Finset.card_singleton, Nat.zero_add] at hcard
  have hsub : held ⊆ (whole.erase (pagePath r.page)).erase (upperIndices r.page).reverse := by
    intro path hpath
    obtain ⟨hin, f, hf⟩ := Finset.mem_filter.mp hpath
    refine Finset.mem_erase.mpr ⟨?_, Finset.mem_erase.mpr ⟨?_, hin⟩⟩
    · rintro rfl
      exact hlast f hf
    · rintro rfl
      obtain ⟨-, -, u, hu, -⟩ := hfilled.owned.forest.parent hf
      exact hlast u hu
  have hle := Finset.card_le_card hsub
  rw [Finset.card_erase_of_mem (Finset.mem_erase.mpr ⟨hne.symm, htable⟩),
    Finset.card_erase_of_mem hleaf] at hle
  have htwo : 1 < whole.card := Finset.one_lt_card.mpr ⟨_, hleaf, _, htable, hne⟩
  show available.card < whole.card
  omega

/-- How a request ends. -/
theorem Loaded.load (h : Loaded image space places₀ m₀ rs places m)
    (huser : r.flags.bits &&& userBit ≠ 0)
    (havailable : ∀ f, f ∈ available ↔ FreeOrIn places₀ m₀ (.space space) f) :
    match loadRequest image space r m with
    | .ok _ m' => (∃ places', Loaded image space places₀ m₀ (rs ++ [r]) places' m') ∧
        ¬ LosesFrameAt available.card (rs.map PageRequest.page) r.page
    | .error _ m' =>
        (m' = m ∧ framesFor (rs.map PageRequest.page) = available.card) ∨
        (LosesFrameAt available.card (rs.map PageRequest.page) r.page ∧
          ∃ mapped frame places', Filled space mapped (· = frame) places₀ m₀ places' m') := by
  have hpage := h.filled.owned.newUserPage (h.filled.kept _ _ h.root) r.page huser
  rw [loadRequest_run]
  cases hx : newUserPage space r.flags r.page m with
  | ok frame m' =>
    rw [hx] at hpage
    obtain ⟨places', hfilled, hnew⟩ := hpage
    have hafter := h.append hfilled hnew
    refine ⟨⟨places', hafter⟩, ?_⟩
    have hcard := hafter.card havailable
    rw [List.map_append, List.map_singleton] at hcard
    rintro ⟨-, hout | ⟨v, hv, heq⟩ | hshort⟩
    · exact hout hnew.inUser
    · obtain ⟨r', hr', rfl⟩ := List.mem_map.mp hv
      exact h.ne_page hnew.inUser hnew.absent r' hr' heq
    · omega
  | error e m' =>
    rw [hx] at hpage
    rcases hpage with ⟨-, hnone, rfl⟩ | ⟨frame, places', hfree, hfilled, hwhy⟩
    · refine .inl ⟨rfl, ?_⟩
      have hempty : m'.frames.freeSet = ∅ := FrameAllocator.freeSet_of_allocate_none
        (Prod.ext hnone rfl)
      have hcard := h.card havailable
      rw [hempty, Finset.card_empty, Nat.zero_add] at hcard
      exact hcard.symm
    · obtain ⟨mapped, hwhole, hlt⟩ := h.card_lost hfilled havailable
      refine .inr ⟨⟨hlt, ?_⟩, mapped, frame, places', hwhole⟩
      rcases hwhy with ⟨-, hout⟩ | ⟨-, hin, hsome⟩ | ⟨-, -, -, hnone, hlast, hpaths⟩
      · exact .inl hout
      · obtain ⟨leaf, hleaf⟩ := Option.isSome_iff_exists.mp hsome
        exact .inr (.inl (h.page_of_entry hin.2 hleaf).2)
      · exact .inr (.inr (h.card_exhausted hfilled havailable hnone hlast hpaths))

end Load

end OpenKernel
