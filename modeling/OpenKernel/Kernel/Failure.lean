import OpenKernel.Kernel.Boot
import OpenKernel.Memory.SpaceRuns

/-!
# What a failed spawn leaves behind

`user::spawn` gives nothing back when it fails half way.  The only failures
that leave no trace are the ones before the first frame is taken.
-/

namespace OpenKernel

open Lib

namespace Kernel

open KernelCall

/-- The process table, the thread table, the free frames and the active
address space of `k'` are those of `k`. -/
structure LeavesNoTrace (k k' : Kernel) : Prop where
  processes : k'.processes = k.processes
  threads : k'.threads = k.threads
  freeSet : k'.memory.frames.freeSet = k.memory.frames.freeSet
  cr3 : k'.memory.cr3 = k.memory.cr3

theorem LeavesNoTrace.refl (k : Kernel) : LeavesNoTrace k k :=
  ⟨rfl, rfl, rfl, rfl⟩

variable {k k' : Kernel}

/-- A new record stays in the table. -/
theorem not_leavesNoTrace_of_recorded {p : ProcessId}
    (h : k.Recorded p k') : ¬ LeavesNoTrace k k' := by
  obtain ⟨slot, -, hlt, rfl, hid, space, hprocesses⟩ := h.slot
  intro htrace
  have heq := congrFun htrace.processes slot
  rw [hprocesses, put_same] at heq
  have hid' : slot + 1 = noThread := by
    rw [← hid, ← heq]
  unfold noThread at hid'
  unfold maxProcesses maxThreads at hlt
  omega

/-- `create_user_address_space` fails exactly when no frame is free, and then
it changes nothing; otherwise it takes a frame. -/
theorem createUserAddressSpace_cases (m : Memory) :
    (m.frames.freeSet = ∅ ∧ createUserAddressSpace m =
        .error .frameAllocationFailed m) ∨
      ∃ frame m', createUserAddressSpace m = .ok frame m' ∧
        frame ∈ m.frames.freeSet ∧ frame ∉ m'.frames.freeSet := by
  cases hx : m.frames.allocate with
  | mk result frames =>
    cases result with
    | none =>
      have hsame := FrameAllocator.allocate_none hx
      refine .inl ⟨FrameAllocator.freeSet_of_allocate_none hx, ?_⟩
      have hcall : allocatePhysicalFrame m =
          .error .frameAllocationFailed m := by
        unfold allocatePhysicalFrame
        rw [hx, hsame]
      unfold createUserAddressSpace
      show EStateM.bind allocatePhysicalFrame _ m = _
      unfold EStateM.bind
      rw [hcall]
    | some frame =>
      obtain ⟨hfree, -, hnot, -⟩ := FrameAllocator.allocate_some hx
      have hcall : allocatePhysicalFrame m =
          .ok frame { m with frames } := by
        unfold allocatePhysicalFrame
        rw [hx]
      refine .inr ⟨frame, (({ m with frames } : Memory).zeroPhysicalFrame
        frame).copyKernelHalf (target m.cr3) frame, ?_, ?_, ?_⟩
      · unfold createUserAddressSpace
        show EStateM.bind allocatePhysicalFrame _ m = _
        unfold EStateM.bind
        rw [hcall]
        rfl
      · exact (FrameAllocator.mem_freeSet _ _).mpr hfree
      · exact fun hmem => hnot ((FrameAllocator.mem_freeSet _ _).mp hmem)

/-- With a file and a free frame, every failure leaves a trace. -/
private theorem spawnProgram_trace (path image : List UInt8)
    (argv : List (List UInt8)) (hfree : k.memory.frames.freeSet ≠ ∅) :
    Spec (· = k) (spawnProgram path (some image) argv) (fun _ _ => True)
      (fun _ k' => ¬ LeavesNoTrace k k') := by
  rcases createUserAddressSpace_cases k.memory with
    ⟨hempty, -⟩ | ⟨frame, m', hcall, hin, hout⟩
  · exact absurd hempty hfree
  · have hcreate : Spec (· = k)
        (ofMemory createUserAddressSpace : KernelCall Nat)
        (fun space k₁ => space = frame ∧ k₁ = { k with memory := m' })
        (fun _ k' => ¬ LeavesNoTrace k k') := by
      rintro s rfl
      unfold ofMemory
      rw [hcall]
      exact ⟨rfl, rfl⟩
    refine Spec.bind (Spec.pure fun _ h => h : Spec _ _ (fun _ => (· = k)) _)
      fun image => ?_
    refine Spec.bind hcreate fun space => Spec.and_pre fun _ => ?_
    refine Spec.bind (?_ : Spec _ _ (fun process k₁ => Recorded k process k₁) _)
      fun process => ?_
    · rintro k₁ rfl
      unfold ofResult
      dsimp only
      have hq : Quiet k { k with memory := m' } := k.quiet_memory m'
      rcases hc : createProcess { k with memory := m' } space with
        ⟨_ | process, k₂⟩
      · rw [createProcess_none hc]
        -- The root of the new address space is lost.
        intro htrace
        rw [htrace.freeSet] at hout
        exact hout hin
      · exact ⟨_, k₂, space, hq, hc, .refl k₂⟩
    · exact (startProgram_spec process space path image argv).conseq
        (fun _ h => h) (fun _ _ _ => trivial)
        fun _ _ h => not_leavesNoTrace_of_recorded h

/-- Without a free frame the call ends where it needs the first one. -/
theorem spawnProgram_of_full (path : List UInt8) (image : List UInt8)
    (argv : List (List UInt8)) (hfree : k.memory.frames.freeSet = ∅) :
    spawnProgram path (some image) argv k = .error .failed k := by
  rcases createUserAddressSpace_cases k.memory with ⟨-, hcall⟩ | ⟨frame, m', -, hin, -⟩
  · show EStateM.bind (ofMemory createUserAddressSpace) _ k = _
    unfold EStateM.bind ofMemory
    rw [hcall]
  · rw [hfree] at hin
    exact absurd hin (Finset.notMem_empty _)

/-- A failed `user::spawn` leaves no trace exactly when the path names no
file or no frame was free. -/
theorem spawn_failed_no_trace (path : List UInt8) (image : Option (List UInt8))
    (argv : List (List UInt8))
    (h : spawnProgram path image argv k = .error .failed k') :
    LeavesNoTrace k k' ↔ image = none ∨ k.memory.frames.freeSet = ∅ := by
  cases image with
  | none =>
    have hk' : k' = k := by
      have hrun : spawnProgram path none argv k = .error .failed k := rfl
      rw [hrun] at h
      cases h
      rfl
    rw [hk']
    exact ⟨fun _ => .inl rfl, fun _ => .refl k⟩
  | some image =>
    by_cases hfree : k.memory.frames.freeSet = ∅
    · rw [spawnProgram_of_full path image argv hfree] at h
      cases h
      exact ⟨fun _ => .inr hfree, fun _ => .refl k⟩
    · have htrace := (spawnProgram_trace path image argv hfree).error rfl h
      constructor
      · exact fun h => absurd h htrace
      · rintro (h | h)
        · cases h
        · exact absurd h hfree

/-- A machine whose last frame goes to PID 1. -/
def scarceMachine : Memory :=
  match initializeVirtualMemory upperHalfConfig (scarceMemory (List.range' 256 37)) with
  | .ok _ memory => memory
  | .error _ memory => memory

set_option maxRecDepth 100000 in
/-- PID 1 spawns the small executable when no frame is left. -/
theorem spawn_failed_no_trace_full : ∃ k, ReachedFrom scarceMachine Always k ∧
    spawnProgram "/bin/small".toUTF8.toList (some smallImage) [] k = .error .failed k ∧
      LeavesNoTrace k k := by
  have hrun : ((boot scarceMachine smallImage).bind (exec step Always [.resume])).any fun k =>
      decide (k.memory.frames.frameBitmap.bytes = 2 ^ maxPhysicalFrames - 1) := by
    decide +kernel
  obtain ⟨k, hk, hfull⟩ := ReachedFrom.of_exec hrun
  have hfree : k.memory.frames.freeSet = ∅ := by
    apply Finset.eq_empty_of_forall_notMem
    intro frame hframe
    exact FrameAllocator.not_isFree_of_full (of_decide_eq_true hfull) frame
      ((FrameAllocator.mem_freeSet _ frame).mp hframe)
  have hfailed := spawnProgram_of_full "/bin/small".toUTF8.toList smallImage [] hfree
  exact ⟨k, hk, hfailed, (spawn_failed_no_trace _ _ _ hfailed).mpr (.inr hfree)⟩

set_option maxRecDepth 100000 in
/-- A file that is not an executable: the record of the new process stays. -/
theorem spawn_failed_trace : ∃ k k', ReachedFrom plainMemory Always k ∧
    spawnProgram "/tmp/empty".toUTF8.toList (some []) [] k =
      .error .failed k' ∧ ¬ LeavesNoTrace k k' := by
  have hrun : ((boot plainMemory smallImage).bind (exec step Always
      [.resume])).any fun k =>
        match spawnProgram "/tmp/empty".toUTF8.toList (some []) [] k with
        | .error .failed k' =>
          (k.processes 1).id == noThread && (k'.processes 1).id == 2
        | _ => false := by
    decide +kernel
  obtain ⟨k, hk, hend⟩ := ReachedFrom.of_exec hrun
  split at hend
  · rename_i k' heq
    obtain ⟨hid, hid'⟩ := Bool.and_eq_true_iff.mp hend
    refine ⟨k, k', hk, heq, fun htrace => ?_⟩
    have h2 : (k'.processes 1).id = 2 := beq_iff_eq.mp hid'
    rw [htrace.processes, beq_iff_eq.mp hid] at h2
    cases h2
  · cases hend

end Kernel

end OpenKernel
