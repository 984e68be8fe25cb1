import OpenKernel.Kernel.Instances
import OpenKernel.Kernel.LiveRecords

/-!
# What a step does to the address spaces

Apart from the calls that map memory a step leaves memory alone, enters the
space of a user thread's process, or destroys the space of a process that it
collects.  So the processes keep address spaces of their own as long as no
step collects the process that it runs in (`Housed.step`).
-/

namespace OpenKernel.Kernel

open Lib KernelCall

/-- Memory, the owners of the threads and the spaces of the records are the same. -/
structure SameSpaces (k k' : Kernel) : Prop extends SameHomes k k' where
  memory : k'.memory = k.memory

/-- The changes of memory outside the calls that map pages. -/
inductive SpaceEffect (k k' : Kernel) : Prop
  | kept (hs : SameSpaces k k')
  /-- a switch to the thread has loaded the space of its process -/
  | entered (t : ThreadId) (space : Nat) (huser : (k'.threads t).isUser = true)
      (hspace : (k'.threads t).process.bind k'.processAddressSpace = some space)
      (hs : SameHomes k k') (hm : k'.memory = k.memory.switchAddressSpace space)
  /-- the process in the slot has been collected -/
  | destroyed (slot : Nat) (hslot : slot < maxProcesses)
      (hused : (k.processes slot).id ≠ noThread) (hempty : k'.processes slot = .empty)
      (hothers : ∀ i, i ≠ slot → (k'.processes i).id = (k.processes i).id ∧
        (k'.processes i).addressSpace = (k.processes i).addressSpace)
      (hm : k'.memory = destroyUserAddressSpace (k.processes slot).addressSpace k.memory)

section Same

variable {k k' k'' : Kernel}

theorem SameSpaces.refl (k : Kernel) : SameSpaces k k := ⟨.refl k, rfl⟩

theorem SameSpaces.trans (h : SameSpaces k k') (h' : SameSpaces k' k'') : SameSpaces k k'' :=
  ⟨h.toSameHomes.trans h'.toSameHomes, h'.memory.trans h.memory⟩

theorem SameHomes.processAddressSpace (h : SameHomes k k') (p : ProcessId) :
    k'.processAddressSpace p = k.processAddressSpace p := by
  unfold Kernel.processAddressSpace findRecord
  simp only [h.id, h.space]

theorem sameSpaces_update (k : Kernel) (t : ThreadId) {f : Thread → Thread}
    (hprocess : ∀ thread, (f thread).process = thread.process)
    (huser : ∀ thread, (f thread).isUser = thread.isUser) : SameSpaces k (k.updateThread t f) :=
  ⟨k.sameHomes_update t hprocess huser, rfl⟩

theorem sameSpaces_record (k : Kernel) (e : Event) : SameSpaces k (k.record e) :=
  ⟨k.sameHomes_record e, rfl⟩

theorem sameSpaces_returnValue (k : Kernel) (value : Nat) : SameSpaces k (k.returnValue value) :=
  k.sameSpaces_record _

theorem sameSpaces_clear (k : Kernel) (c : Option Context) :
    SameSpaces k { k with resuming := c } :=
  ⟨k.sameHomes_clear c, rfl⟩

theorem sameSpaces_woken (h : Woken k k') : SameSpaces k k' :=
  ⟨sameHomes_woken h, h.memory⟩

theorem sameSpaces_enqueue (k : Kernel) (t : ThreadId) : SameSpaces k (k.enqueue t) :=
  ⟨k.sameHomes_enqueue t, (k.enqueue_fields t).2.2.2.2.1⟩

theorem sameSpaces_markReapable (k : Kernel) (t : ThreadId) : SameSpaces k (k.markReapable t) := by
  refine ⟨k.sameHomes_markReapable t, ?_⟩
  unfold markReapable
  split <;> rfl

theorem sameSpaces_dropJoinWaiter (k : Kernel) (t : ThreadId) :
    SameSpaces k (k.dropJoinWaiter t) := by
  unfold dropJoinWaiter
  split
  · exact k.sameSpaces_update t (fun _ => rfl) fun _ => rfl
  · exact .refl k

theorem sameSpaces_tryJoin (k : Kernel) (t : ThreadId) : SameSpaces k (k.tryJoin t).2 := by
  unfold tryJoin
  dsimp only
  split
  · exact .refl k
  · exact k.sameSpaces_markReapable t

theorem sameSpaces_reparent (k : Kernel) (t : ThreadId) :
    SameSpaces k (k.reparentChildrenOfExitedProcess t) := by
  refine ⟨k.sameHomes_reparent t, ?_⟩
  unfold reparentChildrenOfExitedProcess
  split
  · rfl
  · rename_i slot _
    obtain ⟨log, heq, -⟩ := k.reparentChildren_spec (k.processes slot).id t
    rw [heq]

theorem SpaceEffect.after (h' : SpaceEffect k' k'') (h : SameSpaces k k') :
    SpaceEffect k k'' := by
  cases h' with
  | kept hs => exact .kept (h.trans hs)
  | entered t space huser hspace hs hm =>
    exact .entered t space huser hspace (h.toSameHomes.trans hs) (by rw [hm, h.memory])
  | destroyed slot hslot hused hempty hothers hm =>
    refine .destroyed slot hslot (by rwa [← h.id]) hempty (fun i hi => ?_) ?_
    · rw [← h.id, ← h.space]
      exact hothers i hi
    · rw [hm, h.memory, h.space]

theorem SpaceEffect.record (h : SpaceEffect k k') (e : Event) :
    SpaceEffect k (k'.record e) := by
  cases h with
  | kept hs => exact .kept (hs.trans (k'.sameSpaces_record e))
  | entered t space huser hspace hs hm =>
    exact .entered t space huser hspace (hs.trans (k'.sameHomes_record e)) hm
  | destroyed slot hslot hused hempty hothers hm =>
    exact .destroyed slot hslot hused hempty hothers hm

end Same

/-! ## One function after the other -/

section Functions

variable {k k' : Kernel} {p : ProcessId}

theorem spaceEffect_schedule (k : Kernel) (saved : Context) :
    SpaceEffect k (k.scheduleFromCurrent saved) := by
  obtain ⟨hd, -⟩ := k.schedule_spec saved
  have hs := k.sameHomes_schedule saved
  generalize k.scheduleFromCurrent saved = k' at hd hs ⊢
  have hm := hd.memory
  cases hspace : k.spaceToEnter k'.currentThread with
  | none =>
    rw [hspace] at hm
    exact .kept ⟨hs, hm⟩
  | some space =>
    rw [hspace] at hm
    unfold spaceToEnter at hspace
    split at hspace
    · rename_i hnext
      refine .entered k'.currentThread space ?_ ?_ hs hm
      · rw [hs.isUser]
        exact hnext.2
      · rw [hs.process, ← hspace]
        exact congrArg _ (funext hs.processAddressSpace)
    · cases hspace

theorem spaceEffect_enterAddressSpace (huser : (k.threads k.currentThread).isUser = true) :
    SpaceEffect k (k.enterAddressSpace k.currentThread) := by
  unfold enterAddressSpace
  split
  · rename_i space hspace
    exact .entered k.currentThread space huser hspace
      ⟨fun _ => rfl, fun _ => rfl, fun _ => rfl, fun _ => rfl⟩ rfl
  · exact .kept (.refl k)

theorem spaceEffect_collect (k : Kernel) (hp : p ≠ noThread) (t : ThreadId) (status : Nat) :
    SpaceEffect k (k.collect p t status) := by
  unfold collect
  dsimp only
  split
  · exact .kept (k.sameSpaces_record _)
  · rename_i slot hfind
    obtain ⟨hslot, hid⟩ := findRecord_some hfind
    have hid' : (k.processes slot).id = p := beq_iff_eq.mp hid
    refine .destroyed slot hslot (by rw [hid']; exact hp) (put_same _ _ _) (fun i hi => ?_) rfl
    have hsame : put k.processes slot .empty i = k.processes i := put_other hi
    exact ⟨congrArg Process.id hsame, congrArg Process.addressSpace hsame⟩

theorem spaceEffect_finishWait (hp : p ≠ noThread) (t : ThreadId) (status : Option Nat)
    (k : Kernel) : SpaceEffect k (finishWait p t status k) := by
  cases status with
  | none => exact .kept (k.sameSpaces_returnValue _)
  | some status => exact (k.spaceEffect_collect hp t status).record _

theorem spaceEffect_finishJoinCall (status : Option Nat) (k : Kernel) :
    SpaceEffect k (finishJoinCall status k) :=
  .kept (k.sameSpaces_returnValue _)

theorem spaceEffect_yieldNow (k : Kernel) : SpaceEffect k k.yieldNow := by
  unfold yieldNow
  dsimp only
  split
  · exact .kept (.refl k)
  · split
    · exact k.spaceEffect_schedule _
    · have hready : SameSpaces k (k.setState k.currentThread .ready) :=
        k.sameSpaces_update _ (fun _ => rfl) fun _ => rfl
      exact (spaceEffect_schedule _ _).after (hready.trans (sameSpaces_enqueue _ _))

theorem spaceEffect_blockCurrent (k : Kernel) (saved : Context) :
    SpaceEffect k (k.blockCurrent saved) := by
  unfold blockCurrent
  dsimp only
  split
  · exact .kept (k.sameSpaces_clear _)
  · have hblocked : SameSpaces k (k.setState k.currentThread .blocked) :=
      k.sameSpaces_update _ (fun _ => rfl) fun _ => rfl
    exact (spaceEffect_schedule _ _).after (hblocked.trans (sameSpaces_record _ _))

theorem spaceEffect_exitCurrent (k : Kernel) (status : Nat) :
    SpaceEffect k (k.exitCurrent status) := by
  unfold exitCurrent
  dsimp only
  split
  · exact .kept (.refl k)
  · have hended : SameSpaces k (k.updateThread k.currentThread fun t =>
        { t with
          state := .exited
          entry := none
          exitStatus := status
          reapable := !t.isUser }) := k.sameSpaces_update _ (fun _ => rfl) fun _ => rfl
    have hexited := hended.trans (sameSpaces_record _ (.exited k.currentThread status))
    have hwoken := hexited.trans (sameSpaces_woken (woken_wakeJoinWaiters _ k.currentThread))
    exact (spaceEffect_schedule _ _).after (hwoken.trans (sameSpaces_reparent _ _))

theorem spaceEffect_join (k : Kernel) (t : ThreadId) (saved : Context)
    {goOn : Option Nat → Kernel → Kernel} (hgo : ∀ status k, SpaceEffect k (goOn status k)) :
    SpaceEffect k (k.join t saved goOn) := by
  unfold join
  dsimp only
  split
  · exact hgo _ _
  · split
    · exact (hgo _ _).after (k.sameSpaces_markReapable t)
    · split
      · exact hgo _ _
      · refine (spaceEffect_blockCurrent _ _).after ?_
        exact k.sameSpaces_update t (fun _ => rfl) fun _ => rfl

theorem spaceEffect_finishJoin (k : Kernel) (t : ThreadId)
    {goOn : Option Nat → Kernel → Kernel} (hgo : ∀ status k, SpaceEffect k (goOn status k)) :
    SpaceEffect k (k.finishJoin t goOn) := by
  unfold finishJoin
  dsimp only
  split
  · exact hgo _ _
  · exact (hgo _ _).after ((k.sameSpaces_dropJoinWaiter t).trans (sameSpaces_markReapable _ t))

theorem spaceEffect_goOn (hw : k.WellFormed) {c : Context} (hc : k.resuming = some c)
    (h : { k with resuming := none }.goOn c = some k') : SpaceEffect k k' := by
  refine SpaceEffect.after ?_ (k.sameSpaces_clear none)
  cases c with
  | trampoline =>
    unfold goOn startThread at h
    dsimp only at h
    split at h
    · rename_i huser
      obtain rfl := Option.some.inj h
      exact spaceEffect_enterAddressSpace huser
    · split at h
      · obtain rfl := Option.some.inj h
        exact .kept (.refl _)
      · obtain ⟨-, -, rfl⟩ := Option.map_eq_some_iff.mp h
        exact .kept (.refl _)
  | yielded | blocked =>
    obtain rfl := Option.some.inj h
    exact .kept (.refl _)
  | sleeping _ | futexWaiting _ _ =>
    obtain rfl := Option.some.inj h
    exact .kept (sameSpaces_returnValue _ _)
  | joining t =>
    obtain rfl := Option.some.inj h
    exact spaceEffect_finishJoin _ t spaceEffect_finishJoinCall
  | waiting p t =>
    obtain rfl := Option.some.inj h
    have hcontext : k.contextOf k.currentThread = some (.waiting p t) := by
      unfold contextOf
      rw [if_pos rfl, hc]
    obtain ⟨slot, -, hslot, rfl⟩ := hw.waits _ _ _ hcontext
    exact spaceEffect_finishJoin _ t (spaceEffect_finishWait (pid_ne_noThread hslot) t)
  | finished => cases h

theorem Child.ne_noThread {t : ThreadId} {slot : Nat} (h : k.Child p t slot) (hr : k.Records) :
    p ≠ noThread := by
  rcases hr.shape slot h.slot_lt with hempty | hid
  · have hmain := h.main_eq
    rw [hempty] at hmain
    cases hmain
  · rw [← h.id_eq, hid]
    exact pid_ne_noThread h.slot_lt

theorem spaceEffect_waitProcess (hr : k.Records) (p : ProcessId) :
    SpaceEffect k (k.waitProcess p) := by
  unfold waitProcess
  split
  · exact .kept (k.sameSpaces_returnValue _)
  · rename_i t hlookup
    obtain ⟨slot, hchild⟩ := child_of_lookup hlookup
    exact k.spaceEffect_join t _ (spaceEffect_finishWait (hchild.ne_noThread hr) t)

theorem spaceEffect_tryWaitProcess (hr : k.Records) (p : ProcessId) :
    SpaceEffect k (k.tryWaitProcess p) := by
  unfold tryWaitProcess
  split
  · exact .kept (k.sameSpaces_returnValue _)
  · rename_i t hlookup
    obtain ⟨slot, hchild⟩ := child_of_lookup hlookup
    exact (spaceEffect_finishWait (hchild.ne_noThread hr) t _ _).after (k.sameSpaces_tryJoin t)

theorem spaceEffect_reapAnyChild (hr : k.Records) : SpaceEffect k k.reapAnyChild.2 := by
  unfold reapAnyChild
  split
  · exact .kept (.refl k)
  · rename_i p t hlookup
    obtain ⟨⟨slot, hchild⟩, -⟩ := child_of_exitedChild hlookup
    have hjoin := k.sameSpaces_tryJoin t
    cases hx : k.tryJoin t with
    | mk status k₁ =>
      rw [hx] at hjoin
      cases status with
      | none => exact .kept hjoin
      | some status =>
        exact (spaceEffect_collect _ (hchild.ne_noThread hr) t status).after hjoin

theorem spaceEffect_terminateProcess (k : Kernel) (p : ProcessId) :
    SpaceEffect k (k.terminateProcess p).2 := by
  unfold terminateProcess
  split
  · exact .kept (.refl k)
  · rename_i t _
    split
    · exact .kept (.refl k)
    · have hended : SameSpaces k (k.updateThread t fun t =>
          { t with
            state := .exited
            entry := none
            exitStatus := terminatedStatus }) := k.sameSpaces_update t (fun _ => rfl) fun _ => rfl
      have hrecorded := hended.trans (sameSpaces_record _ (.terminated p t))
      exact .kept (hrecorded.trans (sameSpaces_woken (woken_wakeJoinWaiters _ t)))

theorem spaceEffect_sleep (k : Kernel) (milliseconds : Nat) :
    SpaceEffect k (k.sleep milliseconds) := by
  unfold sleep
  split
  · exact .kept (k.sameSpaces_returnValue _)
  · split
    · exact .kept (k.sameSpaces_returnValue _)
    · dsimp only
      split
      · refine (spaceEffect_blockCurrent _ _).after ⟨?_, rfl⟩
        exact ⟨fun _ => rfl, fun _ => rfl, fun _ => rfl, fun _ => rfl⟩
      · exact .kept (sameSpaces_returnValue _ _)

theorem spaceEffect_futexWait (k : Kernel) (address actual expected timeout : Nat) :
    SpaceEffect k (k.futexWait address actual expected timeout) := by
  unfold futexWait
  split
  · exact .kept (k.sameSpaces_returnValue _)
  · split
    · exact .kept (k.sameSpaces_returnValue _)
    · split
      · exact .kept (k.sameSpaces_returnValue _)
      · dsimp only
        split
        · refine (spaceEffect_blockCurrent _ _).after ⟨?_, rfl⟩
          exact ⟨fun _ => rfl, fun _ => rfl, fun _ => rfl, fun _ => rfl⟩
        · exact .kept (sameSpaces_returnValue _ _)

theorem spaceEffect_futexWake (k : Kernel) (address count : Nat) :
    SpaceEffect k (k.futexWake address count) := by
  unfold futexWake
  split
  · exact .kept (k.sameSpaces_returnValue _)
  · exact .kept ((sameSpaces_woken (Wakes.futex address count).woken).trans
      (sameSpaces_returnValue _ _))

end Functions

/-! ## Steps -/

section Steps

variable {g : Ground} {k k' : Kernel}

/-- The space that a switch loads is that of a process. -/
theorem SameHomes.entered (hs : SameHomes k k') (hr : k'.Records) {t : ThreadId} {space : Nat}
    (huser : (k'.threads t).isUser = true)
    (hspace : (k'.threads t).process.bind k'.processAddressSpace = some space) :
    ∃ i < maxProcesses, (k.processes i).id ≠ noThread ∧ (k.processes i).addressSpace = space := by
  obtain ⟨slot, hslot, hprocess⟩ := hr.userProcess t huser
  rw [hprocess] at hspace
  obtain ⟨i, hfind, rfl⟩ := Option.map_eq_some_iff.mp hspace
  obtain ⟨hi, hid⟩ := findRecord_some hfind
  have hid' : (k'.processes i).id = slot + 1 := beq_iff_eq.mp hid
  refine ⟨i, hi, ?_, (hs.space i).symm⟩
  rw [← hs.id, hid']
  exact pid_ne_noThread hslot

/-- A space that is destroyed must not be the active one. -/
theorem Housed.effect (hnamed : g.named) (h : k.Housed g) (he : SpaceEffect k k') (hr : k'.Records)
    (hspare : ∀ slot < maxProcesses, (k.processes slot).id ≠ noThread →
      (k'.processes slot).id = noThread →
        (k.processes slot).addressSpace ≠ k.memory.activeAddressSpace) : k'.Housed g := by
  obtain ⟨live, hk⟩ := h
  have hnames := hk.2 hnamed
  cases he with
  | kept hs => exact ⟨live, hk.sameHomes hs.memory hs.toSameHomes⟩
  | entered t space huser hspace hs hm =>
    obtain ⟨i, hi, hused, rfl⟩ := hs.entered hr huser hspace
    have hlive := hnames.live i hi hused
    have hentered : Inside g live { k with memory := k'.memory } := by
      rw [hm]
      exact ⟨hk.1.spaces.enter hlive, hk.2⟩
    exact ⟨live, hentered.sameHomes rfl ⟨hs.process, hs.isUser, hs.id, hs.space⟩⟩
  | destroyed slot hslot hused hempty hothers hm =>
    have hne := hspare slot hslot hused (by rw [hempty]; rfl)
    have hlive := hnames.live slot hslot hused
    have hkept : ∀ i, (k'.processes i).id ≠ noThread → i ≠ slot := by
      rintro i hi rfl
      rw [hempty] at hi
      exact hi rfl
    refine ⟨live.filter (· ≠ (k.processes slot).addressSpace), ⟨?_, ?_⟩, fun _ => ⟨?_, ?_⟩⟩
    · rw [hm]
      exact hk.1.spaces.destroy hlive hne
    · have hcr3 := Memory.cr3_destroyUserAddressSpace (k.processes slot).addressSpace k.memory
      rw [hm, show (destroyUserAddressSpace (k.processes slot).addressSpace
        k.memory).activeAddressSpace = k.memory.activeAddressSpace from congrArg target hcr3]
      exact List.mem_filter.mpr ⟨hk.1.active, decide_eq_true (Ne.symm hne)⟩
    · intro i hi hiused
      have hislot := hkept i hiused
      rw [(hothers i hislot).1] at hiused
      rw [(hothers i hislot).2]
      refine List.mem_filter.mpr ⟨hnames.live i hi hiused, decide_eq_true fun heq => hislot ?_⟩
      exact hnames.distinct i hi slot hslot hiused hused heq
    · intro i hi j hj hiused hjused hsame
      have hislot := hkept i hiused
      have hjslot := hkept j hjused
      rw [(hothers i hislot).1] at hiused
      rw [(hothers j hjslot).1] at hjused
      rw [(hothers i hislot).2, (hothers j hjslot).2] at hsame
      exact hnames.distinct i hi j hj hiused hjused hsame

theorem housed_of_inside {α : Type} {x : KernelCall α}
    (h : ∀ live, Keeps (Inside g live) x) :
    Spec (Housed g) x (fun _ => Housed g)
      (fun e k => e = .failed → k.Housed g) := by
  rintro k ⟨live, hk⟩
  have hx := h live k hk
  cases hxk : x k with
  | ok a k' =>
    rw [hxk] at hx
    exact ⟨live, hx⟩
  | error e k' =>
    rw [hxk] at hx
    exact fun _ => ⟨live, hx⟩

theorem Housed.call {x : KernelCall Nat} (h : k.Housed g)
    (hx : Spec (Housed g) x (fun _ => Housed g)
      (fun e k => e = .failed → k.Housed g)) (hcall : k.call x = some k') :
    k'.Housed g := by
  have hspec := hx k h
  unfold Kernel.call at hcall
  cases hxk : x k with
  | ok value k₁ =>
    rw [hxk] at hcall hspec
    obtain rfl := Option.some.inj hcall
    exact hspec
  | error e k₁ =>
    rw [hxk] at hcall hspec
    cases e with
    | failed =>
      obtain rfl := Option.some.inj hcall
      exact hspec rfl
    | halted => cases hcall

end Steps

end OpenKernel.Kernel

namespace OpenKernel

/-- The texts of a call of `spawn` are as short as its callers make them. -/
def Action.ShortTexts : Action → Prop
  | processSpawn path _ argv => Kernel.ShortTexts path argv
  | _ => True

instance (a : Action) : Decidable a.ShortTexts := by
  cases a <;> unfold Action.ShortTexts <;> infer_instance

namespace Kernel

/-- How a step changes the address spaces. -/
inductive MemoryStep (a : Action) (k k' : Kernel) : Prop
  | effect (he : SpaceEffect k k')
  /-- a call in the active space, which may also create a space -/
  | call (hcaller : a.isInternal = false → (k.threads k.currentThread).isUser = true)
      (hkeeps : ∀ g, k.Housed g → k'.Housed g)
  /-- an effect, after which the result is stored in the active space -/
  | store (k₁ : Kernel) (hcaller : (k.threads k.currentThread).isUser = true)
      (he : SpaceEffect k k₁) (hactive : k₁.activeSpace = k.activeSpace)
      (hrecords : k'.Records → k₁.Records) (hp : k₁.processes = k'.processes)
      (hkeeps : ∀ g live, InSpace g live k₁.memory → InSpace g live k'.memory)

section Steps

variable {g : Ground} {k k' : Kernel} {a : Action}

theorem memoryStep_reapAnyChild {pointer : Nat} (hr : k.Records)
    (huser : (k.threads k.currentThread).isUser = true)
    (hcall : k.syscallReapAnyChild pointer = some k') : MemoryStep a k k' := by
  have heffect := spaceEffect_reapAnyChild hr
  have hstays := stays_syscallReapAnyChild hcall
  unfold Kernel.syscallReapAnyChild at hcall
  cases hx : k.reapAnyChild with
  | mk result k₁ =>
    rw [hx] at hcall heffect
    cases result with
    | none =>
      obtain rfl := Option.some.inj hcall
      exact .effect (heffect.record _)
    | some found =>
      dsimp only at hcall
      split at hcall
      · rename_i hpointer
        obtain ⟨memory, hstore, rfl⟩ := Option.map_eq_some_iff.mp hcall
        refine .store k₁ huser heffect ?_ (fun hr => ?_) rfl fun g live hm => hm.storeBytes ?_ hstore
        · exact (congrArg target (Memory.cr3_storeBytes hstore)).symm.trans hstays.space
        · exact hr.congr rfl (fun _ => rfl) (fun _ => rfl) fun _ => rfl
        · have huser := hpointer.2
          unfold userBytes at huser
          simp only [Bool.and_eq_true, decide_eq_true_eq] at huser
          rw [length_littleEndianBytes]
          exact huser.1.2
      · obtain rfl := Option.some.inj hcall
        exact .effect (heffect.record _)

theorem memoryStep (hw : k.WellFormed) (hshort : a.ShortTexts) (hstep : k.step a = some k') :
    MemoryStep a k k' := by
  unfold Kernel.step at hstep
  split at hstep
  · rename_i henabled
    cases a with
    | resume =>
      obtain ⟨c, hc, hgo⟩ := Option.bind_eq_some_iff.mp hstep
      exact .effect (spaceEffect_goOn hw hc hgo)
    | tick =>
      obtain rfl := Option.some.inj hstep
      exact .effect (.kept (sameSpaces_woken k.woken_tick))
    | yieldNow =>
      obtain rfl := Option.some.inj hstep
      exact .effect k.spaceEffect_yieldNow
    | exit status =>
      obtain rfl := Option.some.inj hstep
      exact .effect (k.spaceEffect_exitCurrent status)
    | join t =>
      obtain rfl := Option.some.inj hstep
      exact .effect (k.spaceEffect_join t _ spaceEffect_finishJoinCall)
    | sleep milliseconds =>
      obtain rfl := Option.some.inj hstep
      exact .effect (k.spaceEffect_sleep milliseconds)
    | threadCreate entry argument tlsBase =>
      refine .call (fun _ => (Bool.and_eq_true_iff.mp henabled).2) fun g h => ?_
      exact h.call (housed_of_inside fun _ => inside_spawnUser _ _ _ _) hstep
    | brk requestedBreak =>
      refine .call (fun _ => (Bool.and_eq_true_iff.mp henabled).2) fun g h => ?_
      exact h.call (housed_of_inside fun _ => inside_brk _) hstep
    | futexWait address actual expected timeout =>
      obtain rfl := Option.some.inj hstep
      exact .effect (k.spaceEffect_futexWait _ _ _ _)
    | futexWake address count =>
      obtain rfl := Option.some.inj hstep
      exact .effect (k.spaceEffect_futexWake _ _)
    | processSpawn path image argv =>
      refine .call (fun _ => (Bool.and_eq_true_iff.mp henabled).2) fun g h => ?_
      exact h.call (housed_spawnProgram hshort image) hstep
    | waitProcess p =>
      obtain rfl := Option.some.inj hstep
      exact .effect (spaceEffect_waitProcess hw.toRecords p)
    | tryWaitProcess p =>
      obtain rfl := Option.some.inj hstep
      exact .effect (spaceEffect_tryWaitProcess hw.toRecords p)
    | reapAnyChild pointer =>
      exact memoryStep_reapAnyChild hw.toRecords ((Bool.and_eq_true_iff.mp henabled).2) hstep
    | terminateProcess p =>
      obtain rfl := Option.some.inj hstep
      exact .effect ((k.spaceEffect_terminateProcess p).record _)
    | spawn entry =>
      refine .call (fun hinternal => nomatch hinternal) fun g h => ?_
      exact h.call (housed_of_inside fun _ => inside_spawn _) hstep
    | blockCurrent =>
      obtain rfl := Option.some.inj hstep
      exact .effect (k.spaceEffect_blockCurrent _)
    | wake t =>
      obtain rfl := Option.some.inj hstep
      exact .effect (.kept (sameSpaces_woken (k.woken_wake t)))
  · cases hstep

/-- No step makes two processes share an address space, unless it collects the
process that it runs in. -/
theorem Housed.step (hnamed : g.named) (h : k.Housed g) (hw : k.WellFormed)
    (hshort : a.ShortTexts)
    (hspare : ∀ slot < maxProcesses, k.Clears a slot →
      (k.processes slot).addressSpace ≠ k.memory.activeAddressSpace)
    (hstep : k.step a = some k') : k'.Housed g := by
  have hr := (hw.step hstep).toRecords
  have hspare' : ∀ slot < maxProcesses, (k.processes slot).id ≠ noThread →
      (k'.processes slot).id = noThread →
        (k.processes slot).addressSpace ≠ k.memory.activeAddressSpace :=
    fun slot hslot hused hfree => hspare slot hslot ⟨hused, k', hstep, hfree⟩
  cases memoryStep hw hshort hstep with
  | effect he => exact h.effect hnamed he hr hspare'
  | call _ hkeeps => exact hkeeps g h
  | store k₁ _ he _ hrecords hp hkeeps =>
    rw [← hp] at hspare'
    obtain ⟨live, hm, hnames⟩ := h.effect hnamed he (hrecords hr) hspare'
    exact ⟨live, hkeeps g live hm, hp ▸ hnames⟩

end Steps

end Kernel

end OpenKernel
