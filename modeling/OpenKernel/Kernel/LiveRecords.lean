import OpenKernel.Kernel.LiveSpaces
import OpenKernel.Userland.StartupStack

/-!
# The address spaces of the processes

Every process record names a live address space that no other record names, and
one of the live spaces is active.  The calls that can fail keep this even when
they fail; apart from them a step leaves memory alone, enters the space of a
process, or destroys that of a process that it collects (`SpaceEffect`).
-/

namespace OpenKernel.Kernel

open Lib KernelCall

/-- The records in use name live address spaces, each its own. -/
structure NamesSpaces (live : List Nat) (records : Nat → Process) : Prop where
  live : ∀ slot < maxProcesses, (records slot).id ≠ noThread →
    (records slot).addressSpace ∈ live
  distinct : ∀ i < maxProcesses, ∀ j < maxProcesses, (records i).id ≠ noThread →
    (records j).id ≠ noThread → (records i).addressSpace = (records j).addressSpace → i = j

/-- One of the live spaces is active, and every process has one to itself. -/
def Inside (g : Ground) (live : List Nat) (k : Kernel) : Prop :=
  InSpace g live k.memory ∧ (g.named → NamesSpaces live k.processes)

def Housed (g : Ground) (k : Kernel) : Prop :=
  ∃ live, k.Inside g live

/-! ## Calls inside an address space -/

section Calls

variable {g : Ground} {live : List Nat} {k : Kernel} {slot : Nat}

theorem inside_ofMemory {ε α : Type} {x : EStateM ε Memory α}
    (h : Keeps (InSpace g live) x) :
    Keeps (Inside g live) (ofMemory x) := by
  rintro k ⟨hm, hp⟩
  have hx := h k.memory hm
  unfold ofMemory
  cases hxm : x k.memory with
  | ok a memory =>
    rw [hxm] at hx
    exact ⟨hx, hp⟩
  | error e memory =>
    rw [hxm] at hx
    exact ⟨hx, hp⟩

theorem inside_ofAccess {x : Memory → Option Memory}
    (h : ∀ m m', InSpace g live m → x m = some m' → InSpace g live m') :
    Spec (Inside g live) (ofAccess x)
      (fun _ => Inside g live) (fun e _ => e = .halted) := by
  rintro k ⟨hm, hp⟩
  unfold ofAccess
  cases hx : x k.memory with
  | none => rfl
  | some memory => exact ⟨h _ _ hm hx, hp⟩

/-- A change that memory and the records do not see. -/
theorem inside_modify {f : Kernel → Kernel} (hm : ∀ k, (f k).memory = k.memory)
    (hp : ∀ k, (f k).processes = k.processes) :
    Keeps (Inside g live) (modify f : KernelCall PUnit) := by
  refine Spec.update fun k hk => ?_
  unfold Inside
  rw [hm, hp]
  exact hk

theorem inside_switch {space : Nat} (hspace : space ∈ live) :
    Keeps (Inside g live) (switchAddressSpace space) :=
  Spec.update fun _ hk => ⟨hk.1.spaces.enter hspace, hk.2⟩

theorem inside_releaseResources (hslot : slot < maxThreads)
    (h : k.Inside g live) :
    (k.releaseResources slot).Inside g live := by
  obtain ⟨hfirst, hsecond⟩ := stacksInWindow hslot
  obtain ⟨hm, hp⟩ := h
  unfold releaseResources
  dsimp only
  split
  · exact ⟨hm, hp⟩
  · have hkernel := (hm.releaseKernelStack hfirst).releaseKernelStack hsecond
    refine ⟨?_, hp⟩
    show InSpace g live (if (k.threads slot).ownsUserStack then _ else _)
    split
    · exact hkernel.releaseUserStack slot
    · exact hkernel

theorem inside_prepareSlot (hslot : slot < maxThreads) :
    Keeps (Inside g live) (prepareSlot slot) := by
  obtain ⟨hfirst, hsecond⟩ := stacksInWindow hslot
  refine Spec.bind (Spec.update fun k hk => inside_releaseResources hslot hk :
    Spec _ _ (fun _ => Inside g live) _) fun _ => ?_
  refine Spec.bind_read fun _ _ => ?_
  refine Spec.ite (fun _ => ?_) fun _ => Spec.pure fun _ hk => hk
  refine Spec.bind (inside_ofMemory (InSpace.allocateKernelStack hfirst)) fun stackTop => ?_
  refine Spec.bind (inside_modify (fun _ => rfl) fun _ => rfl) fun _ => ?_
  refine Spec.bind (inside_ofMemory (InSpace.allocateKernelStack hsecond)) fun syscallStackTop => ?_
  exact inside_modify (fun _ => rfl) fun _ => rfl

theorem inside_chooseUserStack (hslot : slot < maxThreads) (stack : Option Nat) :
    Keeps (Inside g live) (chooseUserStack slot stack) := by
  cases stack with
  | some stack => exact Spec.pure fun _ hk => hk
  | none =>
    refine Spec.bind_read fun _ _ => ?_
    refine Spec.bind (inside_ofMemory (InSpace.allocateUserStack hslot)) fun stackTop => ?_
    refine Spec.bind (inside_modify (fun _ => rfl) fun _ => rfl) fun _ => ?_
    refine Spec.ite (fun _ => ?_) fun _ => Spec.pure fun _ hk => hk
    exact Spec.bind (Spec.throw fun _ hk => hk) fun _ => Spec.pure fun _ hk => hk

theorem processes_install (k : Kernel) (slot : ThreadId) (thread : Thread) :
    (k.install slot thread).processes = k.processes := by
  unfold install enqueue
  split <;> rfl

theorem inside_spawn (entry : Nat) : Keeps (Inside g live) (spawn entry) := by
  refine Spec.bind_read fun k _ => ?_
  refine Spec.bind (spec_ofOption _) fun slot => Spec.and_pre fun hslot => ?_
  have hlt := (reusableSlot_some hslot).2.1
  refine Spec.bind (inside_prepareSlot hlt) fun _ => ?_
  refine Spec.bind (inside_modify (fun k => ?_) fun k => ?_) fun _ => Spec.pure fun _ hk => hk
  · rw [cr3_install]
  · rw [processes_install]

theorem inside_spawnUserForProcess (process : ProcessId) (entry argument tlsBase : Nat)
    (stack : Option Nat) : Keeps (Inside g live)
      (spawnUserForProcess process entry argument tlsBase stack) := by
  refine Spec.bind_read fun k _ => ?_
  refine Spec.ite (fun _ => Spec.bind_throw fun _ hk => hk) fun _ => ?_
  refine Spec.bind_read fun k _ => ?_
  refine Spec.bind (spec_ofOption _) fun slot => Spec.and_pre fun hslot => ?_
  have hlt := (reusableSlot_some hslot).2.1
  refine Spec.bind (inside_prepareSlot hlt) fun _ => ?_
  refine Spec.bind (inside_chooseUserStack hlt stack) fun chosen => ?_
  refine Spec.bind (inside_modify (fun k => ?_) fun k => ?_) fun _ => Spec.pure fun _ hk => hk
  · rw [cr3_install]
  · rw [processes_install]

theorem inside_spawnUser (entry argument tlsBase : Nat) (stack : Option Nat) :
    Keeps (Inside g live) (spawnUser entry argument tlsBase stack) := by
  refine Spec.bind_read fun k _ => ?_
  refine Spec.ite (fun _ => Spec.bind_throw fun _ hk => hk) fun _ => ?_
  exact inside_spawnUserForProcess _ _ _ _ _

theorem inside_brk (requestedBreak : Nat) :
    Keeps (Inside g live) (brk requestedBreak) := by
  refine Spec.bind_get fun k hk => ?_
  have hstart : ∀ s, s = k → s.Inside g live := by
    intro s hs
    rw [hs]
    exact hk
  refine Spec.ite (fun _ => Spec.pure hstart) fun _ => ?_
  refine Spec.ite (fun _ => Spec.bind_throw hstart) fun _ => ?_
  refine Spec.ite (fun _ => fun s _ => hk) fun _ => ?_
  refine Spec.conseq ?_ hstart (fun _ _ h => h) (fun _ _ h => h)
  refine Spec.bind (inside_ofMemory (InSpace.extendHeap _ _)) fun _ => ?_
  exact Spec.bind (inside_modify (fun _ => rfl) fun _ => rfl) fun _ => Spec.pure fun _ hk => hk

/-! ## The startup block -/

/-- What `syscall_process_spawn` and `resolve_path` let through. -/
def ShortTexts (path : List UInt8) (argv : List (List UInt8)) : Prop :=
  path.length < 64 ∧ ∀ argument ∈ argv, argument.length < 64

instance (path : List UInt8) (argv : List (List UInt8)) : Decidable (ShortTexts path argv) :=
  inferInstanceAs (Decidable (_ ∧ _))

theorem total_le_of_short {texts : List (List UInt8)} (h : ∀ text ∈ texts, text.length < 64) :
    Block.total texts ≤ 64 * texts.length := by
  induction texts with
  | nil => exact Nat.le_refl _
  | cons text rest ih =>
    have hfirst := h text List.mem_cons_self
    have hrest := ih fun text ht => h text (List.mem_cons_of_mem _ ht)
    rw [Block.total_cons, List.length_cons]
    omega

theorem ShortTexts.fits {path : List UInt8} {argv : List (List UInt8)}
    (h : ShortTexts path argv) {stackPointer : Nat} (hstack : 2 ^ 20 ≤ stackPointer) :
    StartupFits 0 stackPointer path argv := by
  have hlen : (path :: argv.take 4).length ≤ 5 := by
    rw [List.length_cons, List.length_take]
    omega
  have htotal : Block.total (path :: argv.take 4) ≤ 64 * (path :: argv.take 4).length := by
    refine total_le_of_short fun text ht => ?_
    rcases List.mem_cons.mp ht with rfl | ht
    · exact h.1
    · exact h.2 text (List.mem_of_mem_take ht)
  unfold StartupFits vectorEnd
  rw [total_startupTexts]
  omega

/-- Where the startup block of a program is written. -/
theorem ShortTexts.below {path : List UInt8} {argv : List (List UInt8)}
    (h : ShortTexts path argv) {stackPointer : Nat} (hstack : 2 ^ 20 ≤ stackPointer)
    (htop : stackPointer + 8 ≤ userSpaceEnd) :
    (∀ b ∈ (startupBlock stackPointer path argv).strings, b.1 + b.2.length ≤ userSpaceEnd) ∧
      ∀ word ∈ (startupBlock stackPointer path argv).words.zipIdx,
        wrappingSub (startupBlock stackPointer path argv).cursor (8 * word.2) < userSpaceEnd := by
  have hend : userSpaceEnd = 2 ^ 47 := by decide
  obtain ⟨-, hbelow⟩ := (h.fits hstack).blocks_apart (by omega)
  refine ⟨fun b hb => ?_, fun word hword => ?_⟩
  · have hblock := (hbelow b (List.mem_append_left _ hb)).2
    omega
  · have hblock := (hbelow _ (List.mem_append_right _ (List.mem_map.mpr ⟨word, hword, rfl⟩))).2
    rw [length_littleEndianBytes] at hblock
    dsimp only at hblock
    omega

theorem inside_initializeProgram {loaded : LoadedImage} {path : List UInt8}
    {argv : List (List UInt8)} (hshort : ShortTexts path argv)
    (hstack : 2 ^ 20 ≤ loaded.stackPointer) (htop : loaded.stackPointer + 8 ≤ userSpaceEnd)
    (hfsBase : loaded.fsBase < userSpaceEnd) :
    Spec (Inside g live) (initializeProgram loaded path argv)
      (fun _ => Inside g live) (fun e _ => e = .halted) := by
  obtain ⟨hstrings, hwords⟩ := hshort.below hstack htop
  refine Spec.bind (?_ : Spec _ (initializeProcessStack loaded.stackPointer path argv)
    (fun _ => Inside g live) _) fun stackPointer => ?_
  · refine Spec.bind (Spec.forM fun b hb => inside_ofAccess fun m m' hm hstore => ?_)
      fun _ => ?_
    · exact hm.storeBytes (hstrings b hb) hstore
    refine Spec.bind (Spec.forM fun word hword => inside_ofAccess fun m m' hm hstore => ?_)
      fun _ => Spec.pure fun _ hk => hk
    exact hm.storeWord (hwords word hword) hstore
  · refine Spec.ite (fun _ => ?_) fun _ => Spec.pure fun _ hk => hk
    refine Spec.bind (inside_ofAccess fun m m' hm hstore => ?_) fun _ => Spec.pure fun _ hk => hk
    exact hm.storeWord hfsBase hstore

/-! ## New processes -/

/-- No record names the space. -/
def Unnamed (space : Nat) (records : Nat → Process) : Prop :=
  ∀ slot < maxProcesses, (records slot).id ≠ noThread → (records slot).addressSpace ≠ space

theorem NamesSpaces.cons {records : Nat → Process} (h : NamesSpaces live records) (space : Nat) :
    NamesSpaces (space :: live) records where
  live slot hslot hused := List.mem_cons_of_mem space (h.live slot hslot hused)
  distinct := h.distinct

theorem NamesSpaces.put {records : Nat → Process} {record : Process}
    (h : NamesSpaces live records) (hlive : record.addressSpace ∈ live)
    (hunnamed : Unnamed record.addressSpace records) :
    NamesSpaces live (put records slot record) where
  live i hi hused := by
    rw [put_apply] at hused ⊢
    by_cases hislot : i = slot
    · rw [if_pos hislot]
      exact hlive
    · rw [if_neg hislot] at hused ⊢
      exact h.live i hi hused
  distinct i hi j hj hused hused' hsame := by
    rw [put_apply] at hused hsame
    rw [put_apply] at hused' hsame
    by_cases hislot : i = slot
    · by_cases hjslot : j = slot
      · rw [hislot, hjslot]
      · rw [if_pos hislot, if_neg hjslot] at hsame
        rw [if_neg hjslot] at hused'
        exact absurd hsame.symm (hunnamed j hj hused')
    · rw [if_neg hislot] at hused hsame
      by_cases hjslot : j = slot
      · rw [if_pos hjslot] at hsame
        exact absurd hsame (hunnamed i hi hused)
      · rw [if_neg hjslot] at hused' hsame
        exact h.distinct i hi j hj hused hused' hsame

theorem inside_create : Spec (Inside g live) (ofMemory createUserAddressSpace)
    (fun space k => (Inside g (space :: live) k ∧ EmptySpace k.memory space) ∧
      (g.named → Unnamed space k.processes)) (fun _ => Inside g live) := by
  rintro k ⟨hm, hnames⟩
  have hcreate := hm.spaces.create
  have hcr3 := KeepsTable.createUserAddressSpace k.memory.cr3 k.memory rfl
  unfold ofMemory
  cases hx : createUserAddressSpace k.memory with
  | ok space memory =>
    rw [hx] at hcreate hcr3
    obtain ⟨hspaces, hfresh, hempty⟩ := hcreate
    have hactive : memory.activeAddressSpace ∈ space :: live := by
      rw [show memory.activeAddressSpace = k.memory.activeAddressSpace from congrArg target hcr3]
      exact List.mem_cons_of_mem space hm.active
    refine ⟨⟨⟨⟨hspaces, hactive⟩, fun hn => (hnames hn).cons space⟩, hempty⟩, ?_⟩
    intro hn slot hslot hused heq
    exact hfresh (heq ▸ (hnames hn).live slot hslot hused)
  | error e memory =>
    rw [hx] at hcreate
    dsimp only at hcreate ⊢
    rw [hcreate]
    exact ⟨hm, hnames⟩

theorem inside_createProcess {space : Nat} (hspace : space ∈ live) :
    Spec (fun k => (Inside g live k ∧ EmptySpace k.memory space) ∧
        (g.named → Unnamed space k.processes)) (ofResult (·.createProcess space))
      (fun p k => p ≤ maxProcesses ∧ Inside g live k ∧ EmptySpace k.memory space)
      (fun _ => Inside g live) := by
  rintro k ⟨⟨hk, hempty⟩, hunnamed⟩
  unfold ofResult
  dsimp only
  cases hx : k.createProcess space with
  | mk process k' =>
    cases process with
    | some p =>
      obtain ⟨slot, -, hslot, rfl, -, rfl⟩ := createProcess_some hx
      exact ⟨hslot, ⟨hk.1, fun hn => (hk.2 hn).put hspace (hunnamed hn)⟩, hempty⟩
    | none =>
      unfold createProcess at hx
      split at hx
      · obtain ⟨-, rfl⟩ := Prod.mk.inj hx
        exact hk
      · cases (Prod.mk.inj hx).1

theorem inside_load {space : Nat} (hspace : space ∈ live) (image : List UInt8) (slot : Nat) :
    Spec (fun k => Inside g live k ∧ EmptySpace k.memory space)
      (ofMemory (loadUserElfInto image space slot))
      (fun loaded k => (loaded.stackPointer = userStackTop slot - 8 ∧
        loaded.fsBase < userSpaceEnd) ∧ Inside g live k)
      (fun _ => Inside g live) := by
  rintro k ⟨⟨hm, hnames⟩, hempty⟩
  have hload := hm.spaces.loadUserElfInto image slot hspace hempty
  have hcr3 := KeepsTable.loadUserElfInto image space slot k.memory.cr3 k.memory rfl
  unfold ofMemory
  cases hx : loadUserElfInto image space slot k.memory with
  | ok loaded memory =>
    rw [hx] at hload hcr3
    have hpointers := (loadUserElfInto_pointers image space slot).ok trivial hx
    have hfsBase := loadUserElfInto_fsBase (hm.spaces.hasSpace hspace) hempty hx
    exact ⟨⟨hpointers.1, hfsBase⟩, hm.of_cr3 hload hcr3, hnames⟩
  | error e memory =>
    rw [hx] at hload hcr3
    exact ⟨hm.of_cr3 hload hcr3, hnames⟩

/-- The records change, but not which spaces they name. -/
theorem Inside.sameHomes {k' : Kernel} (h : k.Inside g live)
    (hm : k'.memory = k.memory) (hs : SameHomes k k') : k'.Inside g live := by
  refine ⟨by rw [hm]; exact h.1, fun hn => ⟨fun slot hslot hused => ?_,
    fun i hi j hj hused hused' hsame => ?_⟩⟩
  · rw [hs.id] at hused
    rw [hs.space]
    exact (h.2 hn).live slot hslot hused
  · rw [hs.id] at hused hused'
    rw [hs.space, hs.space] at hsame
    exact (h.2 hn).distinct i hi j hj hused hused' hsame

theorem userStackTop_bounds {slot : Nat} (hslot : slot ≤ maxProcesses) :
    2 ^ 20 ≤ userStackTop slot - 8 ∧ userStackTop slot - 8 + 8 ≤ userSpaceEnd := by
  have hend : userSpaceEnd = 2 ^ 47 := by decide
  have hmax : maxProcesses = 8 := rfl
  unfold userStackTop
  simp only [userStackPages, pageSize]
  omega

/-- `user::spawn` keeps the address spaces apart, whether it succeeds or fails. -/
theorem housed_spawnProgram {path : List UInt8} {argv : List (List UInt8)}
    (hshort : ShortTexts path argv) (image : Option (List UInt8)) :
    Spec (Housed g) (spawnProgram path image argv) (fun _ => Housed g)
      (fun e k => e = .failed → k.Housed g) := by
  rintro k ⟨live, hk⟩
  revert hk
  have hhoused : ∀ {live : List Nat} (e : Stop) (k : Kernel), Inside g live k →
      e = .failed → k.Housed g := fun _ _ hk _ => ⟨_, hk⟩
  have hkeep : ∀ {live : List Nat} {β : Type} {x : KernelCall β}, Keeps (Inside g live) x →
      Spec (Inside g live) x (fun _ => Inside g live)
        (fun e k => e = .failed → k.Housed g) := fun h => h.mono_fail hhoused
  refine (?_ : Spec (Inside g live) (spawnProgram path image argv)
    (fun _ => Housed g) fun e k => e = .failed → k.Housed g) k
  refine Spec.bind ((spec_ofOption image).mono_fail hhoused) fun image => Spec.and_pre fun _ => ?_
  refine Spec.bind (inside_create.mono_fail hhoused) fun space => ?_
  have hspace : space ∈ space :: live := List.mem_cons_self
  refine Spec.bind ((inside_createProcess hspace).mono_fail hhoused)
    fun process => Spec.and_pre fun hprocess => ?_
  refine Spec.bind (?_ : Spec _ (modify (·.resetUserState process)) (fun _ k =>
    Inside g (space :: live) k ∧ EmptySpace k.memory space) _) fun _ => ?_
  · exact Spec.update fun k hk => hk
  refine Spec.bind ((inside_load hspace image process).mono_fail hhoused)
    fun loaded => Spec.and_pre fun hloaded => ?_
  obtain ⟨hstack, htop⟩ := userStackTop_bounds hprocess
  rw [← hloaded.1] at hstack htop
  refine Spec.bind (hkeep (inside_modify (fun _ => rfl) fun _ => rfl)) fun _ => ?_
  refine Spec.bind_read fun k hk => ?_
  refine Spec.bind (hkeep (inside_switch hspace)) fun _ => ?_
  refine Spec.bind ((inside_initializeProgram hshort hstack htop hloaded.2).mono_fail
    fun e k he hfailed => ?_) fun stackPointer => ?_
  · rw [he] at hfailed
    cases hfailed
  refine Spec.bind (hkeep (inside_switch hk.1.active)) fun _ => ?_
  refine Spec.bind (hkeep (inside_spawnUserForProcess _ _ _ _ _)) fun thread => ?_
  refine Spec.bind (Spec.update fun k hk => ?_ : Spec _ _ (fun _ => Housed g) _)
    fun _ => Spec.pure fun _ hk => hk
  refine ⟨_, hk.sameHomes ?_ (k.sameHomes_setMain process thread)⟩
  unfold setProcessMainThread
  split <;> rfl

/-! ## Boot -/

/-- What `ensure_idle` and the first switch keep. -/
theorem inside_ensureIdle : Keeps (Inside g live) ensureIdle := by
  obtain ⟨hfirst, hsecond⟩ := stacksInWindow (show idleThread < maxThreads by decide)
  refine Spec.bind_read fun k _ => ?_
  refine Spec.ite (fun _ => Spec.pure fun _ hk => hk) fun _ => ?_
  refine Spec.bind (inside_ofMemory (InSpace.allocateKernelStack hfirst)) fun stackTop => ?_
  refine Spec.bind (inside_ofMemory (InSpace.allocateKernelStack hsecond))
    fun syscallStackTop => ?_
  refine inside_modify (fun k => ?_) fun k => ?_
  · exact (enqueue_fields _ idleThread).2.2.2.2.1
  · exact (enqueue_fields _ idleThread).2.2.1

theorem scheduleFromScheduler_fields (k : Kernel) :
    k.scheduleFromScheduler.memory = k.memory ∧
      k.scheduleFromScheduler.processes = k.processes := by
  obtain ⟨passed, q, -, hcases⟩ := nextReadyLoop_spec k.runQueue.count k (Nat.le_refl _)
  unfold scheduleFromScheduler nextReady
  rcases hcases with ⟨-, -, heq⟩ | ⟨next, -, -, heq⟩
  · rw [heq]
    exact ⟨rfl, rfl⟩
  · rw [heq]
    exact ⟨rfl, rfl⟩

/-- The address spaces exist, and there is no process yet. -/
def Unpeopled (g : Ground) (live : List Nat) (k : Kernel) : Prop :=
  HasSpaces g live k.memory ∧ k.processes = fun _ => .empty

theorem Unpeopled.names (h : k.Unpeopled g live) : NamesSpaces live k.processes := by
  rw [h.2]
  constructor
  · intro slot _ hused
    exact absurd rfl hused
  · intro i _ j _ hused
    exact absurd rfl hused

theorem unpeopled_keeps_memory {ε α : Type} {x : EStateM ε Memory α}
    (h : Keeps (HasSpaces g live) x) : Keeps (Unpeopled g live) (ofMemory x) := by
  rintro k ⟨hm, hp⟩
  have hx := h k.memory hm
  unfold ofMemory
  cases hxm : x k.memory with
  | ok a memory =>
    rw [hxm] at hx
    exact ⟨hx, hp⟩
  | error e memory =>
    rw [hxm] at hx
    exact ⟨hx, hp⟩

/-- `run_demo` gets to its first switch with PID 1 in a space of its own. -/
theorem runDemo_housed (image : List UInt8) :
    Spec (Unpeopled g []) (runDemo image) (fun _ => Housed g) fun _ _ => True := by
  have hany : ∀ (p : Stop → Kernel → Prop) e k, p e k → True := fun _ _ _ _ => trivial
  refine Spec.bind (?_ : Spec _ (ofMemory createUserAddressSpace)
    (fun space k => Unpeopled g [space] k ∧ EmptySpace k.memory space) _)
    fun space => ?_
  · rintro k ⟨hm, hp⟩
    have hcreate := hm.create
    unfold ofMemory
    cases hx : createUserAddressSpace k.memory with
    | error e memory => trivial
    | ok space memory =>
      rw [hx] at hcreate
      exact ⟨⟨hcreate.1, hp⟩, hcreate.2.2⟩
  have hspace : space ∈ [space] := List.mem_cons_self
  refine Spec.bind (?_ : Spec _ (ofMemory (loadUserElfInto image space 0))
    (fun loaded k => (loaded.stackPointer = userStackTop 0 - 8 ∧ loaded.fsBase < userSpaceEnd) ∧
      Unpeopled g [space] k) _) fun loaded => Spec.and_pre fun hloaded => ?_
  · rintro k ⟨⟨hm, hp⟩, hempty⟩
    have hload := hm.loadUserElfInto image 0 hspace hempty
    unfold ofMemory
    cases hx : loadUserElfInto image space 0 k.memory with
    | error e memory => trivial
    | ok loaded memory =>
      rw [hx] at hload
      have hpointers := (loadUserElfInto_pointers image space 0).ok trivial hx
      have hfsBase := loadUserElfInto_fsBase (hm.hasSpace hspace) hempty hx
      exact ⟨⟨hpointers.1, hfsBase⟩, hload, hp⟩
  obtain ⟨hstack, htop⟩ := userStackTop_bounds (Nat.zero_le maxProcesses)
  rw [← hloaded.1] at hstack htop
  refine Spec.bind (?_ : Spec _ (modify _) (fun _ => Unpeopled g [space]) _) fun _ => ?_
  · exact Spec.update fun k hk => hk
  have hbootStack : StackInWindow bootStackSlot := by decide
  refine Spec.bind ((unpeopled_keeps_memory
    (HasSpaces.allocateKernelStack hbootStack)).mono_fail (hany _)) fun _ => ?_
  refine Spec.bind (Spec.update fun k hk => ?_ : Spec _ _ (fun _ k =>
    Inside g [space] k ∧ k.processes = fun _ => .empty) _) fun _ => ?_
  · exact ⟨⟨hk.1.enter hspace, fun _ => hk.names⟩, hk.2⟩
  have hshort : ShortTexts "init".toUTF8.toList [] := by decide +kernel
  have hprogram : Spec (Inside g [space])
      (initializeProgram loaded "init".toUTF8.toList []) (fun _ => Inside g [space])
      fun e _ => e = .halted := inside_initializeProgram hshort hstack htop hloaded.2
  have hrecords : Keeps (fun k : Kernel => k.processes = fun _ => .empty)
      (initializeProgram loaded "init".toUTF8.toList []) :=
    keeps_of_quiet (fun _ => quiet_initializeProgram _ _ _)
      fun _ _ hk hq => hq.processes.trans hk
  refine Spec.bind ((hprogram.and hrecords).mono_fail (hany _)) fun stackPointer => ?_
  refine Spec.bind (Spec.update fun k hk => ?_ :
    Spec _ _ (fun _ => Inside g [space]) _) fun _ => ?_
  · refine ⟨hk.1.1, fun hn => (hk.1.2 hn).put hspace fun slot _ hused => ?_⟩
    rw [hk.2] at hused
    exact absurd rfl hused
  refine Spec.bind ((inside_spawnUser _ _ _ _).mono_fail (hany _)) fun _ => ?_
  refine Spec.bind (inside_ensureIdle.mono_fail (hany _)) fun _ => ?_
  refine Spec.update fun k hk => ⟨[space], ?_⟩
  obtain ⟨hmemory, hprocesses⟩ := k.scheduleFromScheduler_fields
  unfold Inside
  rw [hmemory, hprocesses]
  exact hk

/-- The kernel starts with PID 1 in a space of its own. -/
theorem boot_housed {places : Places} {m base : Memory} {config : PagingConfig}
    {image : List UInt8} (hboot : BootTables places m)
    (hinit : initializeVirtualMemory config m = .ok () base) (h : Kernel.boot base image = some k) :
    k.Housed (.plain (target m.cr3) base) := by
  obtain ⟨⟨places', hinitialized⟩, -⟩ := hboot.initialize hinit
  have hnone : (Ground.plain (target m.cr3) base).Spares places' (.start base) :=
    fun _ hf => hf.elim
  have hstart : Unpeopled (.plain (target m.cr3) base) [] (initial base) :=
    ⟨Separate.hasSpaces hinitialized.separate hnone, rfl⟩
  have hspec := runDemo_housed image (initial base) hstart
  unfold Kernel.boot at h
  split at h
  · rename_i heq
    rw [heq] at hspec
    obtain rfl := Option.some.inj h
    exact hspec
  · cases h

end Calls

end OpenKernel.Kernel
