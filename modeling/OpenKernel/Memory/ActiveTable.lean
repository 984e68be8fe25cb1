import OpenKernel.Lib.Effect
import OpenKernel.Memory.Elf
import OpenKernel.Memory.Mmu

/-!
# The active page table

No function of `paging.rs` but `switch_address_space` changes CR3, and the ELF
loader does not either, whatever address space it fills.
-/

namespace OpenKernel

open Lib

/-- The code leaves CR3 as it is, whether it returns or fails. -/
def KeepsTable {ε α : Type} (x : EStateM ε Memory α) : Prop :=
  ∀ cr3, Keeps (fun m : Memory => m.cr3 = cr3) x

namespace Memory

/-! ## Functions that cannot fail -/

theorem cr3_foldl {ι : Type} {f : Memory → ι → Memory}
    (h : ∀ m i, (f m i).cr3 = m.cr3) (items : List ι) (m : Memory) :
    (items.foldl f m).cr3 = m.cr3 := by
  induction items generalizing m with
  | nil => rfl
  | cons item items ih => exact (ih (f m item)).trans (h m item)

theorem cr3_unmapPage (m : Memory) (page : Nat) : (m.unmapPage page).2.cr3 = m.cr3 := by
  unfold unmapPage
  split
  · rfl
  · dsimp only
    split <;> rfl

theorem cr3_releasePages (m : Memory) (pages : List Nat) :
    (m.releasePages pages).cr3 = m.cr3 := by
  refine cr3_foldl (fun m page => ?_) pages m
  have hunmap := m.cr3_unmapPage page
  cases hx : m.unmapPage page with
  | mk frame m' =>
    rw [hx] at hunmap
    cases frame <;> exact hunmap

theorem cr3_storeByte (m : Memory) (address : Nat) (byte : UInt8) :
    (m.storeByte address byte).cr3 = m.cr3 := rfl

theorem cr3_writePhysicalFrame (m : Memory) (address : Nat) (source : List UInt8) :
    (m.writePhysicalFrame address source).cr3 = m.cr3 :=
  cr3_foldl (fun m _ => m.cr3_storeByte _ _) _ m

theorem cr3_storeBytes {m m' : Memory} {address : Nat} {bytes : List UInt8}
    (h : m.storeBytes address bytes = some m') : m'.cr3 = m.cr3 := by
  induction bytes generalizing m address with
  | nil =>
    obtain rfl := Option.some.inj h
    rfl
  | cons byte bytes ih =>
    unfold storeBytes at h
    split at h
    · cases h
    · have hrest := ih h
      exact hrest

theorem cr3_storeWord {m m' : Memory} {address value : Nat}
    (h : m.storeWord address value = some m') : m'.cr3 = m.cr3 := by
  obtain ⟨physical, -, rfl⟩ := Option.map_eq_some_iff.mp h
  rfl

theorem cr3_writeWord (m : Memory) (frame index value : Nat) :
    (m.writeWord frame index value).cr3 = m.cr3 := rfl

theorem cr3_freePhysicalFrame (m : Memory) (frame : Nat) :
    (m.freePhysicalFrame frame).cr3 = m.cr3 := rfl

theorem cr3_releaseUserTable (level frame : Nat) (m : Memory) :
    (releaseUserTable level frame m).cr3 = m.cr3 := by
  induction level generalizing frame m with
  | zero => rfl
  | succ level ih =>
    unfold releaseUserTable
    rw [cr3_freePhysicalFrame]
    apply cr3_foldl
    intro m index
    dsimp only
    split
    · rfl
    · split
      · rfl
      · exact ih _ m

theorem cr3_destroyUserAddressSpace (space : Nat) (m : Memory) :
    (destroyUserAddressSpace space m).cr3 = m.cr3 := by
  unfold destroyUserAddressSpace
  generalize List.range 256 = indices
  refine (cr3_freePhysicalFrame _ _).trans ?_
  apply cr3_foldl
  intro m index
  dsimp only
  split
  · rfl
  · exact (cr3_writeWord _ _ _ _).trans (cr3_releaseUserTable 3 _ m)

end Memory

/-! ## Functions that can fail -/

namespace KeepsTable

theorem modify {ε : Type} {f : Memory → Memory} (h : ∀ m, (f m).cr3 = m.cr3) :
    KeepsTable (modify f : EStateM ε Memory PUnit) :=
  fun _ => Spec.update fun m hm => (h m).trans hm

theorem bind {ε α β : Type} {x : EStateM ε Memory α} {f : α → EStateM ε Memory β}
    (hx : KeepsTable x) (hf : ∀ a, KeepsTable (f a)) : KeepsTable (x >>= f) :=
  fun cr3 => Spec.bind (hx cr3) fun a => hf a cr3

theorem pure {ε α : Type} (a : α) : KeepsTable (Pure.pure a : EStateM ε Memory α) :=
  fun _ => Spec.pure fun _ hm => hm

theorem throw {ε α : Type} (e : ε) :
    KeepsTable (MonadExcept.throw e : EStateM ε Memory α) :=
  fun _ => Spec.throw fun _ hm => hm

theorem bind_get {ε α : Type} {f : Memory → EStateM ε Memory α}
    (hf : ∀ m, KeepsTable (f m)) : KeepsTable (MonadState.get >>= f) :=
  fun cr3 => Spec.bind_read fun m _ => hf m cr3

theorem ite {ε α : Type} {c : Prop} [Decidable c] {x y : EStateM ε Memory α}
    (hx : c → KeepsTable x) (hy : ¬ c → KeepsTable y) : KeepsTable (if c then x else y) :=
  fun cr3 => Spec.ite (fun h => hx h cr3) fun h => hy h cr3

/-- An early return. -/
theorem guard {ε α : Type} {c : Prop} [Decidable c] {e : ε}
    {x : PUnit → EStateM ε Memory α} (hx : KeepsTable (x ⟨⟩)) :
    KeepsTable (if c then MonadExcept.throw e >>= x else x ⟨⟩) :=
  ite (fun _ _ => Spec.bind_throw fun _ hm => hm) fun _ => hx

theorem forM {ε ι : Type} {items : List ι} {f : ι → EStateM ε Memory PUnit}
    (h : ∀ item, KeepsTable (f item)) : KeepsTable (items.forM f) :=
  fun cr3 => Spec.forM fun item _ => h item cr3

theorem foldlM {ε ι α : Type} {items : List ι} {f : α → ι → EStateM ε Memory α}
    (h : ∀ a item, KeepsTable (f a item)) (a : α) : KeepsTable (items.foldlM f a) :=
  fun cr3 => Spec.foldlM (fun a item _ => h a item cr3) a

theorem allocatePhysicalFrame : KeepsTable allocatePhysicalFrame := by
  intro cr3 m hm
  unfold OpenKernel.allocatePhysicalFrame
  cases m.frames.allocate with
  | mk result frames => cases result <;> exact hm

theorem descend (flags : PageFlags) (table index : Nat) :
    KeepsTable (descend flags table index) := by
  refine bind_get fun m => ite (fun _ => ?_) fun _ => ite (fun _ => throw _) fun _ => pure _
  refine bind allocatePhysicalFrame fun frame => ?_
  refine bind (modify fun _ => rfl) fun _ => bind (modify fun _ => rfl) fun _ => ?_
  exact bind_get fun _ => pure _

theorem mapPageIn (space page frame : Nat) (flags : PageFlags) :
    KeepsTable (mapPageIn space page frame flags) := by
  refine bind (foldlM (descend flags) _) fun table => bind_get fun m => ?_
  exact ite (fun _ => throw _) fun _ => modify fun _ => rfl

theorem mapPage (page frame : Nat) (flags : PageFlags) :
    KeepsTable (mapPage page frame flags) :=
  bind_get fun _ => mapPageIn _ _ _ _

theorem mapUserPageIn (space page frame : Nat) (flags : PageFlags) :
    KeepsTable (mapUserPageIn space page frame flags) :=
  ite (fun _ => mapPageIn _ _ _ _) fun _ => throw _

theorem mapUserPageWithFlags (page frame : Nat) (flags : PageFlags) :
    KeepsTable (mapUserPageWithFlags page frame flags) :=
  ite (fun _ => mapPage _ _ _) fun _ => throw _

theorem createUserAddressSpace : KeepsTable createUserAddressSpace := by
  refine bind allocatePhysicalFrame fun frame => ?_
  exact bind (modify fun _ => rfl) fun _ => bind (modify fun _ => rfl) fun _ => pure _

theorem allocateKernelStack (slot : Nat) : KeepsTable (allocateKernelStack slot) := by
  refine bind (forM fun page => ?_) fun _ => pure _
  exact bind allocatePhysicalFrame fun frame => mapPage _ _ _

theorem allocateUserStackIn (space slot : Nat) :
    KeepsTable (allocateUserStackIn space slot) := by
  refine bind (forM fun page => ?_) fun _ => pure _
  refine bind allocatePhysicalFrame fun frame => ?_
  exact bind (modify fun _ => rfl) fun _ => mapUserPageIn _ _ _ _

theorem allocateUserStack (slot : Nat) : KeepsTable (allocateUserStack slot) :=
  bind_get fun _ => allocateUserStackIn _ _

/-! ## The loader -/

theorem ofPaging {α : Type} {x : Paging α} (h : KeepsTable x) :
    KeepsTable (Loader.ofPaging x) := by
  intro cr3 m hm
  have hx := h cr3 m hm
  unfold Loader.ofPaging
  cases hxm : x m with
  | ok a m' =>
    rw [hxm] at hx
    exact hx
  | error e m' =>
    rw [hxm] at hx
    exact hx

theorem orElse {α : Type} (x : Option α) (error : ElfError) :
    KeepsTable (Loader.orElse x error) := by
  cases x with
  | none => exact throw _
  | some a => exact pure a

theorem loadPage (image : List UInt8) (space base fileOffset fileSize : Nat)
    (flags : PageFlags) (page : Nat) :
    KeepsTable (loadPage image space base fileOffset fileSize flags page) := by
  refine bind (ofPaging allocatePhysicalFrame) fun frame => ?_
  refine bind (modify fun _ => rfl) fun _ => ?_
  refine bind (ofPaging (mapUserPageIn _ _ _ _)) fun _ => ite (fun _ => ?_) fun _ => pure _
  exact modify fun m => m.cr3_writePhysicalFrame _ _

theorem readTlsHeader (image : List UInt8) (headerOffset : Nat) (state : LoadState) :
    KeepsTable (readTlsHeader image headerOffset state) := by
  unfold OpenKernel.readTlsHeader
  apply guard
  refine bind (orElse _ _) fun fileOffset => bind (orElse _ _) fun fileSize => ?_
  refine bind (orElse _ _) fun memorySize => bind (orElse _ _) fun align => ?_
  exact guard (pure _)

theorem loadSegment (image : List UInt8) (space entry headerOffset : Nat)
    (state : LoadState) : KeepsTable (loadSegment image space entry headerOffset state) := by
  refine bind (orElse _ _) fun flags => bind (orElse _ _) fun fileOffset => ?_
  refine bind (orElse _ _) fun virtualAddress => bind (orElse _ _) fun fileSize => ?_
  refine bind (orElse _ _) fun memorySize => guard (bind (orElse _ _) fun fileEnd => ?_)
  refine bind (orElse _ _) fun memoryEnd => guard (bind (forM fun page => ?_) fun _ => pure _)
  exact loadPage image space virtualAddress fileOffset fileSize _ page

theorem loadProgramHeader (image : List UInt8) (space entry programHeaderOffset : Nat)
    (state : LoadState) (index : Nat) :
    KeepsTable (loadProgramHeader image space entry programHeaderOffset state index) := by
  refine bind (orElse _ _) fun headerType => ite (fun _ => readTlsHeader _ _ _) fun _ => ?_
  exact ite (fun _ => pure _) fun _ => loadSegment _ _ _ _ _

theorem loadInitialTls (image : List UInt8) (space slot : Nat) (tls : TlsImage) :
    KeepsTable (loadInitialTls image space slot tls) := by
  refine bind (orElse _ _) fun padded => bind (orElse _ _) fun fsBase => ?_
  refine bind (orElse _ _) fun stop => bind (forM fun page => ?_) fun _ => pure _
  exact loadPage image space _ tls.fileOffset tls.fileSize _ page

theorem loadUserElfInto (image : List UInt8) (space slot : Nat) :
    KeepsTable (loadUserElfInto image space slot) := by
  unfold OpenKernel.loadUserElfInto
  apply guard
  refine bind (orElse _ _) fun entry => bind (orElse _ _) fun offset => ?_
  refine bind (orElse _ _) fun count => bind (orElse _ _) fun tableSize => ?_
  refine bind (orElse _ _) fun tableEnd => guard (bind (foldlM (fun state index => ?_) _)
    fun state => guard ?_)
  · exact loadProgramHeader image space entry offset state index
  · refine bind (ofPaging (allocateUserStackIn _ _)) fun stackTop => ?_
    cases state.tls with
    | none => exact pure _
    | some tls => exact bind (loadInitialTls image space slot tls) fun _ => pure _

end KeepsTable

end OpenKernel
