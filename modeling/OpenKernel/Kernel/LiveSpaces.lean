import OpenKernel.Kernel.Heap
import OpenKernel.Memory.FailedStacks
import OpenKernel.Memory.ReleasedStacks
import OpenKernel.Memory.TlsBlock

/-!
# The live address spaces

What each call of the kernel does to the set of live address spaces.  All of
them keep the page tables sound, and apart from creation and destruction they
keep the set.
-/

namespace OpenKernel

open Lib

/-- What the calls work around: the boot table, the memory that the kernel was
booted with, and frames that are set aside with what they hold. -/
structure Ground where
  boot : Nat
  base : Memory
  aside : Nat → Prop
  words : Nat → Nat → Nat
  /-- whether every process record names a live space -/
  named : Prop

/-- No frame is set aside. -/
def Ground.plain (boot : Nat) (base : Memory) : Ground :=
  { boot, base, aside := fun _ => False, words := base.words, named := True }

/-- The frames set aside are in use, but in no tree, and hold what they held. -/
def Ground.Spares (g : Ground) (places : Places) (s : SpaceState) : Prop :=
  ∀ f, g.aside f → places f = none ∧ ¬ s.memory.frames.IsFree f ∧ f ∉ s.inHand ∧
    s.memory.words f = g.words f

/-- The page tables are sound, and these address spaces exist. -/
def HasSpaces (g : Ground) (live : List Nat) (m : Memory) : Prop :=
  ∃ places s, Separate g.boot g.base places s ∧ g.Spares places s ∧ s.live = live ∧
    s.memory = m

section Calls

variable {g : Ground} {live : List Nat} {m m' : Memory} {r slot v : Nat} {places places' : Places}
  {s s' : SpaceState}

theorem Ground.Spares.moves (h : g.Spares places s) {boot : Nat} {user : Prop}
    (hm : Moves boot user places s places' s') : g.Spares places' s' := by
  intro f hf
  obtain ⟨hnone, hfree, hhand, hwords⟩ := h f hf
  obtain ⟨hnone', hwords', hfree', -⟩ := hm.touches.frames f hnone hfree hhand
  refine ⟨hnone', hfree', fun hmem => ?_, hwords'.trans hwords⟩
  rcases (hm.hand f hmem).2.2.2 with hheld | hwas | hplaced
  · exact hhand hheld
  · exact hfree hwas
  · exact hplaced hnone

theorem Separate.hasSpaces (h : Separate g.boot g.base places s) (hg : g.Spares places s) :
    HasSpaces g s.live s.memory :=
  ⟨places, s, h, hg, rfl, rfl⟩

theorem Takes.hasSpaces (ht : Takes places s.memory places' m')
    (h : Separate g.boot g.base places s) (hg : g.Spares places s) :
    HasSpaces g s.live m' := by
  refine (ht.separate h).hasSpaces fun f hf => ?_
  obtain ⟨hnone, hfree, hhand, hwords⟩ := hg f hf
  obtain ⟨hnone', hwords', hfree', -⟩ := ht.touches.frames f hnone hfree id
  exact ⟨hnone', hfree', hhand, hwords'.trans hwords⟩

theorem HasSpaces.target_eq (h : HasSpaces g live m) (hr : r ∈ live) : target r = r := by
  obtain ⟨places, s, hsep, -, rfl, rfl⟩ := h
  exact hsep.target_root hr

theorem HasSpaces.hasSpace (h : HasSpaces g live m) (hr : r ∈ live) : HasSpace r m := by
  obtain ⟨places, s, hsep, -, rfl, rfl⟩ := h
  exact ⟨places, hsep.owned, hsep.place hr⟩

/-! ## Creation, switches and destruction -/

theorem Ground.Spares.create (h : g.Spares places s) {frame : Nat} {frames : FrameAllocator}
    (halloc : s.memory.frames.allocate = (some frame, frames)) :
    g.Spares (Function.update places frame (some (.space frame, [])))
      { s with
        memory := s.memory.withSpace frames frame
        live := frame :: s.live
        maps := put s.maps frame fun _ => none } := by
  obtain ⟨hfree, -, -, hothers⟩ := FrameAllocator.allocate_some halloc
  intro f hf
  obtain ⟨hnone, hnot, hhand, hwords⟩ := h f hf
  have hne : f ≠ frame := by
    rintro rfl
    exact hnot hfree
  refine ⟨?_, mt (hothers f hne).1.mp hnot, hhand, ?_⟩
  · rw [Function.update_of_ne hne, hnone]
  · rw [← hwords]
    exact put_other hne

theorem Ground.Spares.destroy (h : g.Spares places s) (hsep : Separate g.boot g.base places s)
    (hr : r ∈ s.live) :
    g.Spares (places.without (.space r))
      { s with
        memory := destroyUserAddressSpace r s.memory
        live := s.live.filter (· ≠ r) } := by
  have hreleased := destroyUserAddressSpace_released hsep.owned (hsep.place hr)
  intro f hf
  obtain ⟨hnone, hnot, hhand, hwords⟩ := h f hf
  have hout : ¬ Below places (.space r) [] f := by
    rw [below_space_iff]
    rintro ⟨path, hplace⟩
    rw [hnone] at hplace
    cases hplace
  exact ⟨without_eq_none places _ hnone, mt (hreleased.frames f hout).1.mp hnot, hhand,
    (hreleased.words f hout).trans hwords⟩

theorem HasSpaces.switch (h : HasSpaces g live m) (hr : r ∈ live) :
    HasSpaces g live (m.switchAddressSpace r) := by
  obtain ⟨places, s, hsep, hg, rfl, rfl⟩ := h
  exact (hsep.switch (.inr hr)).hasSpaces hg

/-- A new space is empty and none of the live ones. -/
theorem HasSpaces.create (h : HasSpaces g live m) :
    match createUserAddressSpace m with
    | .ok space m' => HasSpaces g (space :: live) m' ∧ space ∉ live ∧
        EmptySpace m' space
    | .error _ m' => m' = m := by
  obtain ⟨places, s, hsep, hg, rfl, rfl⟩ := h
  cases hx : s.memory.frames.allocate with
  | mk result frames =>
    cases result with
    | none => rw [createUserAddressSpace_of_none hx]
    | some frame =>
      obtain ⟨-, -, hfree, -⟩ := hsep.owned.allocate hx
      have hcreate := createUserAddressSpace_of_some hx (hsep.active_ne hfree)
      obtain ⟨-, -, -, hempty, -⟩ := hsep.created hcreate
      rw [hcreate]
      refine ⟨(hsep.create hx).1.hasSpaces (hg.create hx), fun hmem => ?_, hempty⟩
      exact hsep.owned.notFree _ _ (hsep.place hmem) hfree

theorem HasSpaces.destroy (h : HasSpaces g live m) (hr : r ∈ live)
    (hactive : r ≠ m.activeAddressSpace) :
    HasSpaces g (live.filter (· ≠ r)) (destroyUserAddressSpace r m) := by
  obtain ⟨places, s, hsep, hg, rfl, rfl⟩ := h
  exact (hsep.destroy hr hactive).1.hasSpaces (hg.destroy hsep hr)

/-! ## Stacks -/

theorem HasSpaces.allocateKernelStack (hslot : StackInWindow slot) :
    Keeps (HasSpaces g live) (OpenKernel.allocateKernelStack slot) := by
  rintro m ⟨places, s, hsep, hg, rfl, rfl⟩
  have hends := hsep.allocateKernelStack hslot
  cases hx : OpenKernel.allocateKernelStack slot s.memory with
  | ok top m' =>
    rw [hx] at hends
    obtain ⟨places', htakes, -⟩ := hends
    exact htakes.hasSpaces hsep hg
  | error e m' =>
    rw [hx] at hends
    obtain ⟨places', htakes⟩ := hends
    exact htakes.hasSpaces hsep hg

theorem HasSpaces.releaseKernelStack (h : HasSpaces g live m)
    (hslot : StackInWindow slot) : HasSpaces g live (m.releaseKernelStack slot) := by
  obtain ⟨places, s, hsep, hg, rfl, rfl⟩ := h
  obtain ⟨places', hmoves⟩ : ∃ places', Moves g.boot False places s places' _ :=
    Moves.releaseKernelStack hsep hslot
  exact (hsep.moves hmoves).hasSpaces (hg.moves hmoves)

/-- The page tables are sound, and one of the live spaces is active. -/
structure InSpace (g : Ground) (live : List Nat) (m : Memory) : Prop where
  spaces : HasSpaces g live m
  active : m.activeAddressSpace ∈ live

theorem InSpace.of_cr3 (h : InSpace g live m) (hspaces : HasSpaces g live m')
    (hcr3 : m'.cr3 = m.cr3) : InSpace g live m' := by
  refine ⟨hspaces, ?_⟩
  rw [show m'.activeAddressSpace = m.activeAddressSpace from congrArg target hcr3]
  exact h.active

theorem HasSpaces.enter (h : HasSpaces g live m) (hr : r ∈ live) :
    InSpace g live (m.switchAddressSpace r) := by
  refine ⟨h.switch hr, ?_⟩
  show target r ∈ live
  rw [h.target_eq hr]
  exact hr

/-- A call that leaves CR3 alone stays in the active space. -/
theorem inSpace_of_keeps {ε α : Type} {x : EStateM ε Memory α}
    (h : Keeps (HasSpaces g live) x) (hcr3 : KeepsTable x) :
    Keeps (InSpace g live) x := by
  intro m hm
  have hspaces := h m hm.spaces
  have hsame := hcr3 m.cr3 m rfl
  cases hx : x m with
  | ok a m' =>
    rw [hx] at hspaces hsame
    exact hm.of_cr3 hspaces hsame
  | error e m' =>
    rw [hx] at hspaces hsame
    exact hm.of_cr3 hspaces hsame

theorem InSpace.allocateKernelStack (hslot : StackInWindow slot) :
    Keeps (InSpace g live) (OpenKernel.allocateKernelStack slot) :=
  inSpace_of_keeps (HasSpaces.allocateKernelStack hslot) (.allocateKernelStack slot)

theorem InSpace.allocateUserStack (hslot : slot < maxThreads) :
    Keeps (InSpace g live) (OpenKernel.allocateUserStack slot) := by
  intro m h
  have hcr3 := KeepsTable.allocateUserStack slot m.cr3 m rfl
  obtain ⟨⟨places, s, hsep, hg, rfl, rfl⟩, hactive⟩ := h
  have hends := hsep.allocateUserStack hactive hslot
  cases hx : OpenKernel.allocateUserStack slot s.memory with
  | ok top m' =>
    rw [hx] at hends hcr3
    obtain ⟨places', htakes⟩ := hends
    exact InSpace.of_cr3 ⟨hsep.hasSpaces hg, hactive⟩ (htakes.hasSpaces hsep hg) hcr3
  | error e m' =>
    rw [hx] at hends hcr3
    obtain ⟨places', htakes⟩ := hends
    exact InSpace.of_cr3 ⟨hsep.hasSpaces hg, hactive⟩ (htakes.hasSpaces hsep hg) hcr3

theorem InSpace.releaseKernelStack (h : InSpace g live m) (hslot : StackInWindow slot) :
    InSpace g live (m.releaseKernelStack slot) :=
  h.of_cr3 (h.spaces.releaseKernelStack hslot) (m.cr3_releasePages _)

theorem InSpace.releaseUserStack (h : InSpace g live m) (slot : Nat) :
    InSpace g live (m.releaseUserStack slot) := by
  refine h.of_cr3 ?_ (m.cr3_releasePages _)
  obtain ⟨⟨places, s, hsep, hg, rfl, rfl⟩, hactive⟩ := h
  obtain ⟨places', hmoves⟩ : ∃ places', Moves g.boot False places s places' _ :=
    Moves.releaseUserStack slot hsep hactive
  exact (hsep.moves hmoves).hasSpaces (hg.moves hmoves)

/-! ## The heap and the loader -/

theorem InSpace.extendHeap (count page : Nat) :
    Keeps (InSpace g live) (Kernel.extendHeap count page) := by
  intro m h
  have hcr3 := Kernel.keepsTable_extendHeap count page m.cr3 m rfl
  obtain ⟨⟨places, s, hsep, hg, rfl, rfl⟩, hactive⟩ := h
  have hends := hsep.owned.newUserPages (hsep.place hactive)
    (show PageFlags.userReadWrite.bits &&& userBit ≠ 0 by decide) (distinct_pagesFrom page count)
  rw [extendHeap_eq] at hcr3 ⊢
  cases hx : newUserPages (target s.memory.cr3) .userReadWrite (pagesFrom page count)
      s.memory with
  | ok u m' =>
    rw [show s.memory.activeAddressSpace = target s.memory.cr3 from rfl, hx] at hends
    rw [hx] at hcr3
    obtain ⟨places', hfilled, -⟩ := hends
    exact InSpace.of_cr3 ⟨hsep.hasSpaces hg, hactive⟩ (hfilled.takes.hasSpaces hsep hg) hcr3
  | error e m' =>
    rw [show s.memory.activeAddressSpace = target s.memory.cr3 from rfl, hx] at hends
    rw [hx] at hcr3
    obtain ⟨-, places', lost, hfilled⟩ := hends
    exact InSpace.of_cr3 ⟨hsep.hasSpaces hg, hactive⟩ (hfilled.takes.hasSpaces hsep hg) hcr3

/-- Loading an image into an empty space. -/
theorem HasSpaces.loadUserElfInto (image : List UInt8) (slot : Nat) (h : HasSpaces g live m)
    (hr : r ∈ live) (hempty : EmptySpace m r) :
    match OpenKernel.loadUserElfInto image r slot m with
    | .ok _ m' | .error _ m' => HasSpaces g live m' := by
  obtain ⟨places, s, hsep, hg, rfl, rfl⟩ := h
  obtain ⟨available, havailable⟩ := hsep.owned.exists_available r
  have hends := (loadUserElfInto_follows havailable image slot []).2 _ _
    (Loaded.start image hsep.owned (hsep.place hr) hempty) (neverLoses_nil _)
  cases hx : OpenKernel.loadUserElfInto image r slot s.memory with
  | ok loaded m' =>
    rw [hx] at hends
    obtain ⟨rs, places', -, hloaded, -⟩ := hends
    exact hloaded.filled.takes.hasSpaces hsep hg
  | error e m' =>
    rw [hx] at hends
    rcases hends with ⟨rs, places', -, hloaded, -⟩ | ⟨rs, places', hloaded, -⟩ |
      ⟨⟨mapped, frame, places', hfilled⟩, -⟩
    · exact hloaded.filled.takes.hasSpaces hsep hg
    · exact hloaded.filled.takes.hasSpaces hsep hg
    · exact hfilled.takes.hasSpaces hsep hg

/-- The stack pointer of a loaded program, and its thread pointer if it has no
block of its own. -/
theorem loadUserElfInto_pointers (image : List UInt8) (space slot : Nat) :
    Spec (fun _ => True) (OpenKernel.loadUserElfInto image space slot)
      (fun loaded _ => loaded.stackPointer = userStackTop slot - 8 ∧
        (loaded.tls = none → loaded.fsBase = 0)) (fun _ _ => True) := by
  have hany : ∀ {α : Type} (x : Loader α),
      Spec (fun _ => True) x (fun _ _ => True) fun _ _ => True := by
    intro α x m _
    cases x m <;> trivial
  rw [loadUserElfInto_eq]
  refine Spec.bind (hany _) fun header => ?_
  refine Spec.bind (hany _) fun state => ?_
  refine Spec.ite (fun _ => Spec.throw fun _ _ => trivial) fun _ => ?_
  rw [allocateUserStackIn_eq image, bind_assoc]
  refine Spec.bind (hany _) fun _ => ?_
  cases htls : state.tls with
  | none => exact fun m _ => ⟨rfl, fun _ => rfl⟩
  | some tls =>
    refine Spec.bind (Spec.pure fun _ _ => rfl : Spec _ _ (fun top _ => top = userStackTop slot) _)
      fun top => ?_
    refine Spec.bind (?_ : Spec _ (loadInitialTls image space slot tls)
      (fun _ _ => top = userStackTop slot) _) fun fsBase => ?_
    · intro m htop
      cases loadInitialTls image space slot tls m with
      | ok fsBase m' => exact htop
      | error e m' => trivial
    · exact Spec.pure fun _ htop => ⟨by rw [htop], fun hnone => nomatch hnone⟩

/-- The thread pointer of a loaded program is a user address. -/
theorem loadUserElfInto_fsBase {image : List UInt8} {loaded : LoadedImage}
    (hspace : HasSpace r m) (hempty : EmptySpace m r)
    (hload : OpenKernel.loadUserElfInto image r slot m = .ok loaded m') :
    loaded.fsBase < userSpaceEnd := by
  obtain ⟨places, places', rs, programHeaderOffset, count, segments, tlsPages, hloaded, -,
    hplan⟩ := loadUserElfInto_ok hspace hempty hload
  rcases hplan.tls with ⟨hnone, -⟩ | ⟨tls, stop, htls, hbounds, hpages⟩
  · rw [((loadUserElfInto_pointers image r slot).ok trivial hload).2 hnone]
    decide
  · obtain ⟨hpointer, hstop, hlt⟩ := tlsBounds_ok (hplan.tls_accepted htls) hbounds
    have hbase : tlsBase slot ≤ loaded.fsBase := by omega
    have hnext : loaded.fsBase < stop := by
      rw [hstop]
      exact Nat.lt_add_of_pos_right (by decide)
    have hpage : loaded.fsBase / pageSize * pageSize ∈
        pagesBetween (alignDown (tlsBase slot) pageSize) (alignDown (stop - 1) pageSize) := by
      rw [mem_pagesBetween (by omega) (by omega)]
      unfold pageSize
      omega
    have hr : (⟨loaded.fsBase / pageSize * pageSize, .userReadWrite, tlsBase slot,
        tls.fileOffset, tls.fileSize⟩ : PageRequest) ∈ rs := by
      rw [hplan.requests, hpages]
      exact List.mem_append_right _ (List.mem_map.mpr ⟨_, hpage, rfl⟩)
    have huser := (hloaded.pages _ hr).1.2
    have hend : userSpaceEnd = 2 ^ 47 := by decide
    unfold pageSize at huser
    dsimp only at huser
    omega

/-! ## Stores of a program's data -/

/-- A store to a user address goes to a page of the active space. -/
theorem InSpace.writeWord {a : Nat} (h : InSpace g live m) (hv : v < userSpaceEnd)
    (ha : m.translate v = some a) (index value : Nat) :
    InSpace g live (m.writeWord (a / pageSize * pageSize) index value) := by
  refine h.of_cr3 ?_ rfl
  obtain ⟨⟨places, s, hsep, hg, rfl, rfl⟩, hactive⟩ := h
  have hlookup : s.memory.translateIn s.memory.activeAddressSpace v = some a := by
    rw [← ha]
    unfold Memory.translate Memory.translateIn Memory.activeAddressSpace
    rw [target_target]
  rw [hsep.translateIn_user hactive hv] at hlookup
  obtain ⟨leaf, hleaf, rfl⟩ := Option.map_eq_some_iff.mp hlookup
  obtain ⟨path, hplace, hlen⟩ := hsep.leaf_place hactive hv hleaf
  have hframe : (target leaf + v % pageSize) / pageSize * pageSize = target leaf := by
    have haligned := target_mod leaf
    unfold pageSize at *
    omega
  rw [hframe]
  have hmoves : Moves g.boot False places s places
      { s with memory := s.memory.writeWord (target leaf) index value } := by
    refine .writePage hsep index value ?_ fun hnone => ?_
    · intro o path' hf
      rw [hplace] at hf
      obtain ⟨rfl, rfl⟩ := Prod.mk.inj (Option.some.inj hf)
      exact hlen
    · rw [hplace] at hnone
      cases hnone
  exact (hsep.moves hmoves).hasSpaces (hg.moves hmoves)

theorem InSpace.storeBytes {bytes : List UInt8} (h : InSpace g live m)
    (hv : v + bytes.length ≤ userSpaceEnd) (hstore : m.storeBytes v bytes = some m') :
    InSpace g live m' := by
  induction bytes generalizing m v with
  | nil =>
    obtain rfl := Option.some.inj hstore
    exact h
  | cons byte bytes ih =>
    rw [List.length_cons] at hv
    unfold Memory.storeBytes at hstore
    cases ha : m.translate v with
    | none =>
      rw [ha] at hstore
      cases hstore
    | some a =>
      rw [ha] at hstore
      exact ih (h.writeWord (by omega) ha _ _) (by omega) hstore

theorem InSpace.storeWord {value : Nat} (h : InSpace g live m) (hv : v < userSpaceEnd)
    (hstore : m.storeWord v value = some m') : InSpace g live m' := by
  obtain ⟨a, ha, rfl⟩ := Option.map_eq_some_iff.mp hstore
  exact h.writeWord hv ha _ _

end Calls

end OpenKernel
