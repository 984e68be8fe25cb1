import OpenKernel.Kernel.Boot

/-!
# What the log records of a step

The events that each kernel function can add to the ghost log.  The events
of the run queue, of memory and of blocking calls are minor: no statement
about the lifetime of threads and processes depends on them.
-/

namespace OpenKernel

open Lib

namespace Event

/-- Events that are not about the lifetime of a thread or a process. -/
def IsMinor : Event → Prop
  | handed _ | created _ _ | mainThreadSet _ _ | destroyed _ _ _ _ | exited _ _
  | terminated _ _ | reparented _ _ _ | collected _ _ _ _ => False
  | _ => True

theorem isMinor_of_quiet (e : Event) (h : e.IsQuiet) : e.IsMinor := by
  cases e <;> first | exact h.elim | trivial

theorem isMinor_of_queue (e : Event) (h : e.IsQueue) : e.IsMinor := by
  cases e <;> first | exact h.elim | trivial

end Event

open Event

theorem Quiet.minor {k k' : Kernel} (h : Quiet k k') :
    Extends IsMinor k.log k'.log :=
  h.log.mono isMinor_of_quiet

theorem Woken.minor {k k' : Kernel} (h : Woken k k') :
    Extends IsMinor k.log k'.log :=
  h.log.mono isMinor_of_queue

namespace Kernel

variable {k k' : Kernel}

theorem Registers.log_eq {a : Action} {c : Context} (h : k.Registers a c k') :
    k'.log = k.log := by
  cases h <;> rfl

theorem minor_install (k : Kernel) (slot : ThreadId) (thread : Thread) :
    Extends IsMinor (.handed slot :: k.log) (k.install slot thread).log :=
  (enqueue_fields _ slot).2.2.2.2.2.mono isMinor_of_queue

theorem minor_reparent (k : Kernel) (t : ThreadId) :
    Extends (fun e => ∃ slot child, k.findRecord (·.mainThread == some t) =
        some slot ∧ e = .reparented child (k.processes slot).id t)
      k.log (k.reparentChildrenOfExitedProcess t).log := by
  unfold reparentChildrenOfExitedProcess
  split
  · exact .refl
  · rename_i slot hfind
    obtain ⟨log, heq, hlog⟩ := k.reparentChildren_spec (k.processes slot).id t
    rw [heq]
    refine hlog.mono ?_
    rintro e ⟨child, rfl⟩
    exact ⟨slot, child, hfind, rfl⟩

theorem log_markReapable (k : Kernel) (t : ThreadId) :
    (k.markReapable t).log = k.log := by
  unfold markReapable
  split <;> rfl

theorem log_leaveJoin (k : Kernel) (t : ThreadId) :
    (k.leaveJoin t).log = k.log := by
  unfold leaveJoin
  rw [log_markReapable]
  unfold dropJoinWaiter
  split <;> rfl

/-- The log of a collection: the record may be gone already. -/
theorem log_collect (k : Kernel) (p : ProcessId) (t : ThreadId) (status : Nat) :
    (k.collect p t status).log =
        .collected k.currentThread p t status :: k.log ∨
      ∃ slot, k.findRecord (·.id == p) = some slot ∧
        (k.collect p t status).log =
          .destroyed k.currentThread p t (k.processes slot).addressSpace ::
            .collected k.currentThread p t status :: k.log := by
  unfold collect
  dsimp only
  split
  · exact .inl rfl
  · rename_i slot hfind
    exact .inr ⟨slot, hfind, rfl⟩

/-- The log at boot: PID 1 has its record, and slot 1 is handed out. -/
theorem Booted.log (h : k.Booted) : ∃ space, ∀ e ∈ k.log,
    e.IsMinor ∨ e = .handed 1 ∨ e = .created userProcessId space := by
  obtain ⟨space, before, between, -, ⟨es, rfl, hes⟩, ⟨es', rfl, hes'⟩, hlog⟩ :=
    h.records
  refine ⟨space, fun e he => ?_⟩
  rw [hlog] at he
  simp only [List.append_nil, List.mem_append, List.mem_cons, List.not_mem_nil,
    or_false] at he
  rcases he with (rfl | rfl | rfl | rfl) | he | rfl | he
  · exact .inl trivial
  · exact .inl trivial
  · exact .inl trivial
  · exact .inr (.inl rfl)
  · exact .inl (isMinor_of_quiet e (hes' e he))
  · exact .inr (.inr rfl)
  · exact .inl (isMinor_of_quiet e (hes e he))

end Kernel

end OpenKernel
