import OpenKernel.Kernel.KernelStacks
import OpenKernel.Kernel.Turns
import OpenKernel.Kernel.UserMode

/-!
# Returns to user mode

What a thread in the kernel is to go on with is spread over its `Thread`, the
processor and the place where the kernel has left it.  `Bound t p` says that
together they are `p`.  No step of another thread changes this, whichever
registers, statics and stacks it uses, and a thread that is switched to goes
on with just that.
-/

namespace OpenKernel

open Lib

/-! ## What a thread goes on with -/

/-- The registers that a thread in the kernel is to go on with. -/
inductive Resumption
  /-- a new thread -/
  | start (registers : UserRegisters)
  /-- a thread inside a syscall -/
  | goesOn (state : SyscallState) (callee : CalleeSaved) (fsBase : Nat)

/-- A thread that goes on as it is to has these registers. -/
def Resumption.Gives : Resumption → UserRegisters → Prop
  | start r, r' => r' = r
  | goesOn state callee fsBase, r' =>
    r'.rip = state.instructionPointer ∧ r'.rsp = state.stackPointer ∧
      r'.rflags = returnFlags state.flags ∧ r'.calleeSaved = callee ∧ r'.fsBase = fsBase

namespace Machine

section Resumptions

variable {m m' : Machine} {a : Action} {t : ThreadId} {scratch : Scratch}

/-- The callee-saved registers of the current thread are still in the
processor. -/
def calleeSavedOf (m : Machine) (t : ThreadId) : CalleeSaved :=
  if t = m.kernel.currentThread then m.registers.calleeSaved else (m.saved t).context

def resumptionOf (m : Machine) (t : ThreadId) : Resumption :=
  if m.kernel.contextOf t = some .trampoline then .start (m.saved t).userContext
  else .goesOn (m.saved t).syscallState (m.calleeSavedOf t) (m.saved t).userContext.fsBase

/-- The thread is the one in user mode. -/
def Runs (m : Machine) (t : ThreadId) : Prop :=
  m.inUserMode = true ∧ m.kernel.currentThread = t

instance (m : Machine) (t : ThreadId) : Decidable (m.Runs t) :=
  inferInstanceAs (Decidable (_ ∧ _))

theorem inUserMode_iff : m.inUserMode = true ↔
    m.kernel.resuming = none ∧ (m.kernel.threads m.kernel.currentThread).isUser = true := by
  unfold inUserMode
  rw [Bool.and_eq_true, Option.isNone_iff_eq_none]

theorem canEnter_iff : m.canEnter = true ↔
    m.inUserMode = true ∧ m.stackInUserSpace = true := by
  unfold canEnter
  rw [Bool.and_eq_true]

/-! ## One function after the other -/

/-- A syscall saves the registers of its caller. -/
theorem enterSyscall_spec (hw : m.kernel.WellFormed) (huser : m.inUserMode = true) :
    m.enterSyscall.kernel = m.kernel ∧ m.enterSyscall.registers = m.registers ∧
      m.enterSyscall.saved = put m.saved m.kernel.currentThread
        { context := (m.saved m.kernel.currentThread).context
          userContext :=
            { m.registers with rcx := m.registers.rip, r11 := m.registers.rflags }
          syscallState :=
            { stackPointer := m.registers.rsp
              instructionPointer := m.registers.rip
              flags := m.registers.rflags } } := by
  have hcur : m.kernel.currentThread ≠ noThread := hw.ne_noThread
  have hkind := (inUserMode_iff.mp huser).2
  unfold enterSyscall schedulerSaveSyscallState saveSyscallState saveUserContext
  dsimp only
  rw [if_neg hcur]
  rw [if_pos ⟨hcur, hkind⟩]
  refine ⟨rfl, rfl, ?_⟩
  funext t
  by_cases ht : t = m.kernel.currentThread
  · rw [ht]
    simp [updateSaved]
  · simp [updateSaved, put_other, ht]

/-- What a thread goes on with, as the machine holds it: a switch moves the
callee-saved registers between the processor and the thread. -/
structure SameSaved (m m' : Machine) (t : ThreadId) : Prop where
  userContext : (m'.saved t).userContext = (m.saved t).userContext
  syscallState : (m'.saved t).syscallState = (m.saved t).syscallState
  callee : m'.calleeSavedOf t = m.calleeSavedOf t

theorem SameSaved.resumptionOf (h : SameSaved m m' t)
    (hcontext : m'.kernel.contextOf t = m.kernel.contextOf t) :
    m'.resumptionOf t = m.resumptionOf t := by
  unfold Machine.resumptionOf
  rw [hcontext, h.userContext, h.syscallState, h.callee]

theorem saved_fillSlot {given : Option ThreadId} (hgiven : given ≠ some t) (k : Kernel) :
    (m.fillSlot given k).saved t = m.saved t := by
  unfold fillSlot
  split
  · rfl
  · rename_i slot
    split
    · rfl
    · exact put_other fun heq => hgiven (congrArg some heq).symm

theorem fillSlot_fields (m : Machine) (given : Option ThreadId) (k : Kernel) :
    (m.fillSlot given k).kernel = m.kernel ∧
      (m.fillSlot given k).registers = m.registers ∧ (m.fillSlot given k).rsp0 = m.rsp0 := by
  unfold fillSlot
  split
  · exact ⟨rfl, rfl, rfl⟩
  · split <;> exact ⟨rfl, rfl, rfl⟩

theorem step_of_advance (h : m.advance a = some m') : m.kernel.step a = some m'.kernel := by
  obtain ⟨k, hk, rfl⟩ := Option.map_eq_some_iff.mp h
  exact hk

/-- A step of the kernel keeps what each thread goes on with, but for the slot
that it gives away. -/
theorem sameSaved_advance (h : m.advance a = some m')
    (hgiven : m.kernel.slotToGive a ≠ some t) : SameSaved m m' t ∧ m'.rsp0 = m.rsp0 := by
  obtain ⟨k, -, rfl⟩ := Option.map_eq_some_iff.mp h
  obtain ⟨hkernel, hregisters, hrsp0⟩ := m.fillSlot_fields (m.kernel.slotToGive a) k
  have hsaved := saved_fillSlot hgiven (m := m) k
  generalize m.fillSlot (m.kernel.slotToGive a) k = filled at *
  dsimp only
  by_cases hcur : k.currentThread = m.kernel.currentThread
  · rw [if_pos hcur]
    refine ⟨⟨congrArg _ hsaved, congrArg _ hsaved, ?_⟩, hrsp0⟩
    show (if t = k.currentThread then filled.registers.calleeSaved
      else (filled.saved t).context) = _
    rw [hcur, hregisters, hsaved]
    rfl
  · rw [if_neg hcur]
    have hput : (filled.contextSwitch k.currentThread).saved t =
        if t = m.kernel.currentThread then
          { m.saved t with context := m.registers.calleeSaved }
        else m.saved t := by
      unfold contextSwitch updateSaved
      dsimp only
      rw [put_apply, hkernel, hregisters]
      by_cases ht : t = m.kernel.currentThread
      · rw [if_pos ht, if_pos ht, ← ht, hsaved]
      · rw [if_neg ht, if_neg ht, hsaved]
    refine ⟨⟨?_, ?_, ?_⟩, hrsp0⟩
    · show ((filled.contextSwitch k.currentThread).saved t).userContext = _
      rw [hput]
      split <;> rfl
    · show ((filled.contextSwitch k.currentThread).saved t).syscallState = _
      rw [hput]
      split <;> rfl
    · show (if t = k.currentThread then (filled.saved k.currentThread).context
        else ((filled.contextSwitch k.currentThread).saved t).context) = _
      unfold calleeSavedOf
      by_cases hnext : t = k.currentThread
      · rw [if_pos hnext, ← hnext, hsaved, if_neg (hnext ▸ hcur)]
      · rw [if_neg hnext, hput]
        split <;> rfl

theorem SameSaved.trans {m'' : Machine} (h : SameSaved m m' t) (h' : SameSaved m' m'' t) :
    SameSaved m m'' t where
  userContext := h'.userContext.trans h.userContext
  syscallState := h'.syscallState.trans h.syscallState
  callee := h'.callee.trans h.callee

/-- The processor's registers belong to the current thread. -/
theorem sameSaved_of_saved (hsaved : m'.saved t = m.saved t)
    (hcur : m'.kernel.currentThread = m.kernel.currentThread)
    (hne : t ≠ m.kernel.currentThread) : SameSaved m m' t := by
  refine ⟨congrArg _ hsaved, congrArg _ hsaved, ?_⟩
  unfold calleeSavedOf
  rw [hcur, if_neg hne, if_neg hne, hsaved]

theorem sameSaved_leaveSyscall (m : Machine) (value : Nat) (scratch : Scratch) (t : ThreadId) :
    SameSaved m (m.leaveSyscall value scratch) t :=
  ⟨rfl, rfl, rfl⟩

theorem finishCall_spec (m : Machine) (scratch : Scratch) (t : ThreadId) :
    (m.finishCall scratch).kernel = m.kernel ∧ SameSaved m (m.finishCall scratch) t := by
  unfold finishCall
  split
  · exact ⟨rfl, rfl, rfl, rfl⟩
  · exact ⟨rfl, m.sameSaved_leaveSyscall _ scratch t⟩

theorem goOn_fields (m : Machine) (c : Context) (scratch : Scratch) :
    (m.goOn c scratch).kernel = m.kernel ∧ (m.goOn c scratch).saved = m.saved := by
  have hfinish : (m.finishCall scratch).kernel = m.kernel ∧
      (m.finishCall scratch).saved = m.saved := by
    unfold finishCall
    split <;> exact ⟨rfl, rfl⟩
  unfold goOn
  split
  · split
    · exact ⟨rfl, rfl⟩
    · exact ⟨rfl, rfl⟩
    · exact hfinish
  · exact ⟨rfl, rfl⟩

theorem sameSaved_enterSyscall (hw : m.kernel.WellFormed) (huser : m.inUserMode = true)
    (hne : t ≠ m.kernel.currentThread) :
    m.enterSyscall.kernel = m.kernel ∧ SameSaved m m.enterSyscall t := by
  obtain ⟨hkernel, -, hsaved⟩ := enterSyscall_spec hw huser
  refine ⟨hkernel, sameSaved_of_saved ?_ (congrArg _ hkernel) hne⟩
  rw [hsaved, put_other hne]

theorem setCurrentUserFsBase_fields (m : Machine) (base : Nat) :
    (m.setCurrentUserFsBase base).2.kernel = m.kernel ∧
      (m.setCurrentUserFsBase base).2.registers = m.registers ∧
      ∀ t, t ≠ m.kernel.currentThread →
        (m.setCurrentUserFsBase base).2.saved t = m.saved t := by
  unfold setCurrentUserFsBase
  split
  · exact ⟨rfl, rfl, fun _ _ => rfl⟩
  · split
    · exact ⟨rfl, rfl, fun _ _ => rfl⟩
    · exact ⟨rfl, rfl, fun t ht => put_other ht⟩

/-! ## Steps of the other threads -/

/-- A step of the kernel leaves alone what another thread goes on with, and does
not bring it to user mode. -/
theorem advance_other (hw : m.kernel.WellFormed) (h : m.advance a = some m')
    (hgiven : m.kernel.slotToGive a ≠ some t) (hne : t ≠ m.kernel.currentThread) :
    m'.resumptionOf t = m.resumptionOf t ∧ ¬ m'.Runs t := by
  have hsame := (sameSaved_advance h hgiven).1
  cases Kernel.step_handover hw (step_of_advance h) with
  | stays hcur hr hcontext =>
    refine ⟨hsame.resumptionOf (hcontext t hne hgiven), ?_⟩
    rintro ⟨-, hruns⟩
    exact hne (hruns.symm.trans hcur)
  | switches saved hsaved hr hcontext =>
    refine ⟨hsame.resumptionOf ?_, ?_⟩
    · rw [hcontext, if_neg hne]
    · rintro ⟨huser, -⟩
      rw [(inUserMode_iff.mp huser).1] at hr
      cases hr

/-- The thread is not in user mode, its slot is not given away, and the others
make their syscalls on stacks in user space. -/
def Away (t : ThreadId) (m : Machine) (move : Move) : Prop :=
  ¬ m.Runs t ∧ (∀ a ∈ move.action, m.kernel.slotToGive a ≠ some t) ∧ OnUserStack m move

instance (t : ThreadId) (m : Machine) (move : Move) : Decidable (Away t m move) :=
  inferInstanceAs (Decidable (_ ∧ _))

/-- A user thread that is to go on with `p`, or has just done so. -/
structure Bound (t : ThreadId) (p : Resumption) (m : Machine) : Prop where
  wellFormed : m.kernel.WellFormed
  isUser : (m.kernel.threads t).isUser = true
  saved : ¬ m.Runs t → m.resumptionOf t = p
  running : m.Runs t → p.Gives m.registers ∧ m.rsp0 = (m.kernel.threads t).stackTop

section Steps

variable {p : Resumption}

theorem runs_congr (hkernel : m'.kernel = m.kernel) : m'.Runs t ↔ m.Runs t := by
  unfold Runs inUserMode
  rw [hkernel]

theorem Bound.same (h : Bound t p m) (haway : ¬ m.Runs t) (hkernel : m'.kernel = m.kernel)
    (hsame : SameSaved m m' t) : Bound t p m' := by
  refine ⟨by rw [hkernel]; exact h.wellFormed, by rw [hkernel]; exact h.isUser, fun _ => ?_,
    fun hruns => absurd ((runs_congr hkernel).mp hruns) haway⟩
  rw [hsame.resumptionOf (by rw [hkernel])]
  exact h.saved haway

theorem Bound.kernel (h : Bound t p m) (hgiven : m.kernel.slotToGive a ≠ some t)
    (hadvance : m.advance a = some m') :
    m'.kernel.WellFormed ∧ (m'.kernel.threads t).isUser = true := by
  have hstep := step_of_advance hadvance
  have hkind := ((Kernel.step_keepsHomes h.wellFormed hstep).owner t hgiven).2
  exact ⟨h.wellFormed.step hstep, hkind.trans h.isUser⟩

theorem Bound.advance (h : Bound t p m) (haway : ¬ m.Runs t)
    (hgiven : m.kernel.slotToGive a ≠ some t) (hne : t ≠ m.kernel.currentThread)
    (hadvance : m.advance a = some m') : Bound t p m' ∧ ¬ m'.Runs t := by
  obtain ⟨hw, huser⟩ := h.kernel hgiven hadvance
  obtain ⟨hsame, hnot⟩ := advance_other h.wellFormed hadvance hgiven hne
  exact ⟨⟨hw, huser, fun _ => hsame.trans (h.saved haway), fun h' => absurd h' hnot⟩, hnot⟩

theorem currentKernelStackTop_eq (hw : m.kernel.WellFormed) :
    m.currentKernelStackTop = (m.kernel.threads m.kernel.currentThread).stackTop := by
  unfold currentKernelStackTop
  rw [if_neg hw.ne_noThread]

/-- The stub returns with what the entry has saved. -/
theorem leaveSyscall_gives (hw : m.kernel.WellFormed)
    (hkind : (m.kernel.threads m.kernel.currentThread).isUser = true)
    (hcur : m.kernel.currentThread = t) (value : Nat) (scratch : Scratch) :
    (Resumption.goesOn (m.saved t).syscallState (m.calleeSavedOf t)
        (m.saved t).userContext.fsBase).Gives (m.leaveSyscall value scratch).registers ∧
      (m.leaveSyscall value scratch).rsp0 = (m.kernel.threads t).stackTop := by
  subst hcur
  refine ⟨⟨rfl, rfl, rfl, ?_, ?_⟩, currentKernelStackTop_eq hw⟩
  · unfold calleeSavedOf
    rw [if_pos rfl]
    rfl
  · show m.currentUserFsBase = _
    unfold currentUserFsBase
    rw [if_pos ⟨hw.ne_noThread, hkind⟩]

/-- A thread that is switched to goes on with what was saved. -/
theorem Bound.proceed (h : Bound t p m) (haway : ¬ m.Runs t)
    (hcur : m.kernel.currentThread = t) {c : Context} (hr : m.kernel.resuming = some c)
    (hadvance : m.advance .resume = some m') (scratch : Scratch) :
    Bound t p (m'.goOn c scratch) := by
  have hgiven : m.kernel.slotToGive .resume ≠ some t := fun heq => nomatch heq
  obtain ⟨hw, huser⟩ := h.kernel hgiven hadvance
  have hsame := (sameSaved_advance hadvance hgiven).1
  have hcontext : m.kernel.contextOf t = some c := by
    unfold Kernel.contextOf
    rw [if_pos hcur.symm, hr]
  have hp := h.saved haway
  unfold Machine.resumptionOf at hp
  rw [hcontext] at hp
  obtain ⟨hr', hcur'⟩ := Kernel.step_resume_stays h.wellFormed (step_of_advance hadvance)
  rw [hcur] at hcur'
  have hmode : m'.inUserMode = true := by
    rw [inUserMode_iff, hcur']
    exact ⟨hr', huser⟩
  have hstack := currentKernelStackTop_eq hw
  rw [hcur'] at hstack
  obtain ⟨hkernel, -⟩ := m'.goOn_fields c scratch
  have hruns : (m'.goOn c scratch).Runs t := by
    rw [runs_congr hkernel]
    exact ⟨hmode, hcur'⟩
  refine ⟨by rw [hkernel]; exact hw, by rw [hkernel]; exact huser,
    fun hnot => absurd hruns hnot, fun _ => ?_⟩
  rw [hkernel]
  have hleave : ∀ value, c ≠ .trampoline →
      p.Gives (m'.leaveSyscall value scratch).registers ∧
        (m'.leaveSyscall value scratch).rsp0 = (m'.kernel.threads t).stackTop := by
    intro value hc
    rw [if_neg fun heq => hc (Option.some.inj heq)] at hp
    rw [← hp, ← hsame.userContext, ← hsame.syscallState, ← hsame.callee]
    exact leaveSyscall_gives hw (inUserMode_iff.mp hmode).2 hcur' value scratch
  unfold goOn
  rw [if_pos hmode]
  split
  · rw [if_pos rfl] at hp
    rw [← hp, ← hsame.userContext, ← hcur']
    exact ⟨rfl, currentKernelStackTop_eq hw⟩
  · exact hleave 0 (fun heq => nomatch heq)
  · rename_i hnot _
    unfold finishCall
    rw [hr']
    exact hleave _ hnot

theorem Bound.step {move : Move} (h : Bound t p m) (haway : Away t m move)
    (hstep : m.step move = some m') : Bound t p m' := by
  obtain ⟨hruns, hgiven, hstack⟩ := haway
  have hw := h.wellFormed
  have hother : m.inUserMode = true → t ≠ m.kernel.currentThread :=
    fun huser heq => hruns ⟨huser, heq.symm⟩
  have hidle : m.kernel.resuming = none → t ≠ m.kernel.currentThread := by
    intro hr heq
    refine hother ?_ heq
    rw [inUserMode_iff, ← heq]
    exact ⟨hr, h.isUser⟩
  -- A syscall of another thread saves the registers of its caller.
  have henter : m.inUserMode = true → m.enterSyscall.kernel = m.kernel ∧
      Bound t p m.enterSyscall ∧ ¬ m.enterSyscall.Runs t := by
    intro huser
    obtain ⟨hkernel, hsame⟩ := sameSaved_enterSyscall hw huser (hother huser)
    exact ⟨hkernel, h.same hruns hkernel hsame, fun h' => hruns ((runs_congr hkernel).mp h')⟩
  cases move with
  | run left =>
    unfold Machine.step at hstep
    dsimp only at hstep
    split at hstep
    · rename_i huser
      obtain rfl := Option.some.inj hstep
      exact h.same hruns rfl (sameSaved_of_saved rfl rfl (hother huser))
    · cases hstep
  | call a scratch =>
    unfold Machine.step at hstep
    dsimp only at hstep
    split at hstep
    · rename_i hcall
      have huser := (canEnter_iff.mp hcall.1).1
      obtain ⟨hkernel, hbound, hnot⟩ := henter huser
      obtain ⟨m₁, hadvance, rfl⟩ := Option.map_eq_some_iff.mp hstep
      have hslot := hgiven a rfl
      rw [← hkernel] at hslot
      obtain ⟨hbound', hnot'⟩ := hbound.advance hnot hslot
        (by rw [hkernel]; exact hother huser) hadvance
      obtain ⟨hfinish, hsame⟩ := m₁.finishCall_spec scratch t
      exact hbound'.same hnot' hfinish hsame
    · cases hstep
  | setTlsBase base scratch =>
    unfold Machine.step at hstep
    dsimp only at hstep
    split at hstep
    · rename_i hcall
      have huser := (canEnter_iff.mp hcall).1
      obtain ⟨hkernel, hbound, hnot⟩ := henter huser
      obtain rfl := Option.some.inj hstep
      obtain ⟨hset, -, hsaved⟩ := m.enterSyscall.setCurrentUserFsBase_fields base
      have hne : t ≠ m.enterSyscall.kernel.currentThread := by
        rw [hkernel]
        exact hother huser
      refine hbound.same hnot hset (SameSaved.trans ?_ (sameSaved_leaveSyscall _ _ _ t))
      exact sameSaved_of_saved (hsaved t hne) (congrArg _ hset) hne
    · cases hstep
  | answer value scratch =>
    unfold Machine.step at hstep
    dsimp only at hstep
    split at hstep
    · rename_i hcall
      obtain ⟨-, hbound, hnot⟩ := henter (canEnter_iff.mp hcall).1
      obtain rfl := Option.some.inj hstep
      exact hbound.same hnot rfl (sameSaved_leaveSyscall _ _ _ t)
    · cases hstep
  | overwrite left =>
    unfold Machine.step at hstep
    dsimp only at hstep
    split at hstep
    · rename_i houtside
      exact absurd (hstack rfl) houtside.2
    · cases hstep
  | proceed scratch =>
    obtain ⟨c, hr, hstep⟩ := Option.bind_eq_some_iff.mp hstep
    obtain ⟨m₁, hadvance, rfl⟩ := Option.map_eq_some_iff.mp hstep
    by_cases hcur : m.kernel.currentThread = t
    · exact h.proceed hruns hcur hr hadvance scratch
    · obtain ⟨hbound, hnot⟩ := h.advance hruns (hgiven .resume rfl) (Ne.symm hcur) hadvance
      obtain ⟨hkernel, hsaved⟩ := m₁.goOn_fields c scratch
      refine hbound.same hnot hkernel (sameSaved_of_saved (congrFun hsaved t)
        (congrArg _ hkernel) fun heq => hcur ?_)
      rw [heq]
      exact (Kernel.step_resume_stays hw (step_of_advance hadvance)).2.symm
  | tick =>
    have hr := Kernel.resuming_of_step (step_of_advance hstep) (fun heq => nomatch heq)
    exact (h.advance hruns (hgiven .tick rfl) (hidle hr) hstep).1
  | idle =>
    unfold Machine.step at hstep
    dsimp only at hstep
    split at hstep
    · cases hstep
    · have hr := Kernel.resuming_of_step (step_of_advance hstep) (fun heq => nomatch heq)
      exact (h.advance hruns (hgiven .yieldNow rfl) (hidle hr) hstep).1

end Steps

/-! ## Runs -/

/-- A step of the machine is a step of the kernel or leaves it alone. -/
theorem step_kernel {move : Move} (hw : m.kernel.WellFormed) (hstack : OnUserStack m move)
    (hstep : m.step move = some m') :
    m'.kernel = m.kernel ∨
      ∃ a ∈ move.action, m.kernel.Syscalls a ∧ m.kernel.step a = some m'.kernel := by
  cases move with
  | run left =>
    unfold Machine.step at hstep
    dsimp only at hstep
    split at hstep
    · obtain rfl := Option.some.inj hstep
      exact .inl rfl
    · cases hstep
  | call a scratch =>
    unfold Machine.step at hstep
    dsimp only at hstep
    split at hstep
    · rename_i hcall
      obtain ⟨m₁, hadvance, rfl⟩ := Option.map_eq_some_iff.mp hstep
      have hk := step_of_advance hadvance
      rw [(enterSyscall_spec hw (canEnter_iff.mp hcall.1).1).1] at hk
      refine .inr ⟨a, rfl, ?_, ?_⟩
      · show a.isInternal = false
        cases a <;> first | rfl | exact absurd hcall.2 Bool.false_ne_true
      · rw [(m₁.finishCall_spec scratch 0).1]
        exact hk
    · cases hstep
  | setTlsBase base scratch =>
    unfold Machine.step at hstep
    dsimp only at hstep
    split at hstep
    · rename_i hcall
      have huser := (canEnter_iff.mp hcall).1
      obtain rfl := Option.some.inj hstep
      refine .inl ?_
      show (m.enterSyscall.setCurrentUserFsBase base).2.kernel = _
      rw [(m.enterSyscall.setCurrentUserFsBase_fields base).1, (enterSyscall_spec hw huser).1]
    · cases hstep
  | answer value scratch =>
    unfold Machine.step at hstep
    dsimp only at hstep
    split at hstep
    · rename_i hcall
      obtain rfl := Option.some.inj hstep
      exact .inl (enterSyscall_spec hw (canEnter_iff.mp hcall).1).1
    · cases hstep
  | overwrite left =>
    unfold Machine.step at hstep
    dsimp only at hstep
    split at hstep
    · rename_i houtside
      exact absurd (hstack rfl) houtside.2
    · cases hstep
  | proceed scratch =>
    obtain ⟨c, hr, hstep⟩ := Option.bind_eq_some_iff.mp hstep
    obtain ⟨m₁, hadvance, rfl⟩ := Option.map_eq_some_iff.mp hstep
    refine .inr ⟨.resume, rfl, rfl, ?_⟩
    rw [(m₁.goOn_fields c scratch).1]
    exact step_of_advance hadvance
  | tick => exact .inr ⟨.tick, rfl, rfl, step_of_advance hstep⟩
  | idle =>
    unfold Machine.step at hstep
    dsimp only at hstep
    split at hstep
    · cases hstep
    · exact .inr ⟨.yieldNow, rfl, rfl, step_of_advance hstep⟩

/-- The kernel of a machine that is reached is reached by syscalls and
interrupts. -/
theorem Reached.kernel {memory : Memory} (h : Reached memory m) :
    Kernel.ReachedFrom memory Kernel.Syscalls m.kernel := by
  obtain ⟨image, k, registers, rsp0, hboot, hrun⟩ := h
  refine hrun.invariant (fun m => Kernel.ReachedFrom memory Kernel.Syscalls m.kernel)
    (fun m move m' hk hstack hstep => ?_) ⟨image, k, hboot, .refl⟩
  rcases step_kernel hk.wellFormed hstack hstep with hsame | ⟨a, -, hguard, hk'⟩
  · rw [hsame]
    exact hk
  · obtain ⟨image, k₀, hk₀, hrun⟩ := hk
    exact ⟨image, k₀, hk₀, hrun.step a hguard hk'⟩

theorem Bound.run {p : Resumption} (h : Bound t p m) (hrun : Run Machine.step (Away t) m m') :
    Bound t p m' :=
  hrun.invariant (Bound t p) (fun _ _ _ hb haway hstep => hb.step haway hstep) h

/-! ## Syscalls -/

/-- The base of the thread-local storage after a syscall. -/
def tlsBaseAfter (m : Machine) : Move → Nat
  | .setTlsBase base _ =>
    if base = 0 ∨ m.kernel.memory.isUserMapped base then base else m.registers.fsBase
  | _ => m.registers.fsBase

/-- What the caller of a syscall is to go on with. -/
def caller (m : Machine) (move : Move) : Resumption :=
  .goesOn
    { stackPointer := m.registers.rsp
      instructionPointer := m.registers.rip
      flags := m.registers.rflags }
    m.registers.calleeSaved (m.tlsBaseAfter move)

/-- The slot of the current thread is not given away. -/
theorem slotToGive_ne_current (hw : m.kernel.WellFormed) (a : Action) :
    m.kernel.slotToGive a ≠ some m.kernel.currentThread := by
  unfold Kernel.slotToGive
  split
  · intro hslot
    obtain ⟨hpos, -, -, hreapable⟩ := Kernel.reusableSlot_some hslot
    rw [hw.current_kept (Nat.one_le_iff_ne_zero.mp hpos)] at hreapable
    cases hreapable
  · exact fun heq => nomatch heq

/-- A syscall that is done has put its caller where it is to go on. -/
theorem bound_leaveSyscall {p : Resumption} (hw : m.kernel.WellFormed)
    (huser : m.inUserMode = true) (hcur : m.kernel.currentThread = t)
    (hp : Resumption.goesOn (m.saved t).syscallState (m.calleeSavedOf t)
      (m.saved t).userContext.fsBase = p) (value : Nat) (scratch : Scratch) :
    Bound t p (m.leaveSyscall value scratch) := by
  have hkind := (inUserMode_iff.mp huser).2
  have hruns : (m.leaveSyscall value scratch).Runs t := ⟨huser, hcur⟩
  refine ⟨hw, ?_, fun hnot => absurd hruns hnot, fun _ => ?_⟩
  · rw [← hcur]
    exact hkind
  · rw [← hp]
    exact leaveSyscall_gives hw hkind hcur value scratch

theorem setCurrentUserFsBase_own (hw : m.kernel.WellFormed)
    (hkind : (m.kernel.threads m.kernel.currentThread).isUser = true) (base : Nat) :
    (m.setCurrentUserFsBase base).2.saved m.kernel.currentThread =
      { m.saved m.kernel.currentThread with
        userContext := { (m.saved m.kernel.currentThread).userContext with
          fsBase := if base = 0 ∨ m.kernel.memory.isUserMapped base then base
            else (m.saved m.kernel.currentThread).userContext.fsBase } } := by
  have hallowed : ¬ (m.kernel.currentThread = noThread ∨
      (m.kernel.threads m.kernel.currentThread).isUser = false) := by
    rw [hkind]
    exact not_or.mpr ⟨hw.ne_noThread, fun heq => nomatch heq⟩
  unfold setCurrentUserFsBase
  rw [if_neg hallowed]
  by_cases hbase : base = 0 ∨ m.kernel.memory.isUserMapped base = true
  · rw [if_neg fun h => hbase.elim h.1 h.2, if_pos hbase]
    exact put_same _ _ _
  · rw [if_pos (not_or.mp hbase), if_neg hbase]

theorem bound_syscall {move : Move} (hw : m.kernel.WellFormed) (huser : m.inUserMode = true)
    (hstack : m.stackInUserSpace = true) (hmove : move.isSyscall = true)
    (hstep : m.step move = some m') : Bound m.kernel.currentThread (m.caller move) m' := by
  have hcall : m.canEnter = true := canEnter_iff.mpr ⟨huser, hstack⟩
  obtain ⟨hkernel, hregisters, hsaved⟩ := enterSyscall_spec hw huser
  have hw₁ : m.enterSyscall.kernel.WellFormed := hkernel ▸ hw
  have hcur₁ : m.enterSyscall.kernel.currentThread = m.kernel.currentThread :=
    congrArg _ hkernel
  have huser₁ : m.enterSyscall.inUserMode = true := by
    unfold inUserMode
    rw [hkernel]
    exact huser
  have hown : m.enterSyscall.saved m.kernel.currentThread =
      { context := (m.saved m.kernel.currentThread).context
        userContext :=
          { m.registers with rcx := m.registers.rip, r11 := m.registers.rflags }
        syscallState :=
          { stackPointer := m.registers.rsp
            instructionPointer := m.registers.rip
            flags := m.registers.rflags } } := by
    rw [hsaved, put_same]
  have hcallee : m.enterSyscall.calleeSavedOf m.kernel.currentThread =
      m.registers.calleeSaved := by
    unfold calleeSavedOf
    rw [if_pos hcur₁.symm, hregisters]
  cases move with
  | call a scratch =>
    unfold Machine.step at hstep
    dsimp only at hstep
    split at hstep
    · obtain ⟨m₁, hadvance, rfl⟩ := Option.map_eq_some_iff.mp hstep
      have hgiven : m.enterSyscall.kernel.slotToGive a ≠ some m.kernel.currentThread := by
        rw [hkernel]
        exact slotToGive_ne_current hw a
      have hk := step_of_advance hadvance
      have hsame := (sameSaved_advance hadvance hgiven).1
      have hkind : (m₁.kernel.threads m.kernel.currentThread).isUser = true := by
        rw [((Kernel.step_keepsHomes hw₁ hk).owner _ hgiven).2, hkernel]
        exact (inUserMode_iff.mp huser).2
      have hp : Resumption.goesOn (m₁.saved m.kernel.currentThread).syscallState
          (m₁.calleeSavedOf m.kernel.currentThread)
          (m₁.saved m.kernel.currentThread).userContext.fsBase = m.caller (.call a scratch) := by
        rw [hsame.syscallState, hsame.callee, hsame.userContext, hown, hcallee]
        rfl
      cases Kernel.step_handover hw₁ hk with
      | stays hcur hr =>
        have hcur' := hcur.trans hcur₁
        have huser' : m₁.inUserMode = true := by
          rw [inUserMode_iff, hcur']
          exact ⟨hr, hkind⟩
        unfold finishCall
        rw [hr]
        exact bound_leaveSyscall (hw₁.step hk) huser' hcur' hp _ scratch
      | switches context hcontext hr hall =>
        unfold finishCall
        rw [if_pos hr]
        refine ⟨hw₁.step hk, hkind, fun _ => ?_, fun hruns => ?_⟩
        · unfold resumptionOf
          rw [hall, hcur₁, if_pos rfl, if_neg fun heq => hcontext (Option.some.inj heq), hp]
        · rw [(inUserMode_iff.mp hruns.1).1] at hr
          cases hr
    · cases hstep
  | setTlsBase base scratch =>
    unfold Machine.step at hstep
    dsimp only at hstep
    rw [if_pos hcall] at hstep
    obtain rfl := Option.some.inj hstep
    obtain ⟨hset, hregisters', -⟩ := m.enterSyscall.setCurrentUserFsBase_fields base
    have hkind := (inUserMode_iff.mp huser₁).2
    have hfs := setCurrentUserFsBase_own hw₁ hkind base
    rw [hcur₁, hown, hkernel] at hfs
    generalize (m.enterSyscall.setCurrentUserFsBase base).1 = success
    generalize (m.enterSyscall.setCurrentUserFsBase base).2 = m₁ at *
    refine bound_leaveSyscall (hset ▸ hw₁) ?_ ((congrArg _ hset).trans hcur₁) ?_ _ scratch
    · unfold inUserMode
      rw [hset]
      exact huser₁
    · have hcallee' : m₁.calleeSavedOf m.kernel.currentThread = m.registers.calleeSaved := by
        unfold calleeSavedOf
        rw [hset, if_pos hcur₁.symm, hregisters', hregisters]
      rw [hcallee', hfs]
      rfl
  | answer value scratch =>
    unfold Machine.step at hstep
    dsimp only at hstep
    rw [if_pos hcall] at hstep
    obtain rfl := Option.some.inj hstep
    refine bound_leaveSyscall hw₁ huser₁ hcur₁ ?_ value scratch
    rw [hown, hcallee]
    rfl
  | overwrite left =>
    unfold Machine.step at hstep
    dsimp only at hstep
    rw [if_neg fun houtside => houtside.2 hstack] at hstep
    cases hstep
  | _ => cases hmove

end Resumptions

/-- A machine that is reached goes on to machines that are reached. -/
theorem Reached.run {memory : Memory} {m m' : Machine} {guard : Machine → Move → Prop}
    (h : Reached memory m) (hguard : ∀ m move, guard m move → OnUserStack m move)
    (hrun : Run Machine.step guard m m') : Reached memory m' := by
  obtain ⟨image, k, registers, rsp0, hboot, hbefore⟩ := h
  exact ⟨image, k, registers, rsp0, hboot, hbefore.trans (hrun.mono hguard)⟩

theorem Away.onUserStack {t : ThreadId} (m : Machine) (move : Move) (h : Away t m move) :
    OnUserStack m move := h.2.2

/-- Interrupts in user mode are taken on the stack of the thread that is
interrupted. -/
theorem Bound.rsp0 {memory : Memory} {m : Machine} {t : ThreadId} {p : Resumption}
    (h : Bound t p m) (hreached : Reached memory m) (hruns : m.Runs t) :
    m.rsp0 = kernelStackTop t := by
  have hw := h.wellFormed
  have hidle : t ≠ idleThread := by
    intro heq
    have hkind := h.isUser
    rw [heq, hw.idle.1] at hkind
    cases hkind
  have hreapable : (m.kernel.threads t).reapable = false := by
    rw [← hruns.2] at hidle ⊢
    exact hw.current_kept hidle
  have hstacked := hreached.kernel.stacked
  rw [(h.running hruns).2]
  exact (hstacked.tops t (hstacked.kept t (.inl hreapable))).1

/-- A syscall comes back to its caller as it was called, whatever other threads
have done since, as long as every syscall is made on a stack in user space: to
the instruction behind it, with the stack pointer, the flags that the stub lets
through, the callee-saved registers and the thread-local storage of the caller,
and with the stack of the caller for interrupts. -/
theorem syscallReturns {memory : Memory} {m m₁ m₂ : Machine} {move : Move}
    (h : Reached memory m) (huser : m.inUserMode = true) (hstack : m.stackInUserSpace = true)
    (hmove : move.isSyscall = true) (hstep : m.step move = some m₁)
    (hrun : Run Machine.step (Away m.kernel.currentThread) m₁ m₂)
    (hback : m₂.Runs m.kernel.currentThread) :
    m₂.registers.rip = m.registers.rip ∧ m₂.registers.rsp = m.registers.rsp ∧
      m₂.registers.rflags = returnFlags m.registers.rflags ∧
      m₂.registers.calleeSaved = m.registers.calleeSaved ∧
      m₂.registers.fsBase = m.tlsBaseAfter move ∧
      m₂.rsp0 = kernelStackTop m.kernel.currentThread := by
  have hbound := (bound_syscall h.kernel.wellFormed huser hstack hmove hstep).run hrun
  have hcalled : Run Machine.step OnUserStack m m₁ := .step move .refl (fun _ => hstack) hstep
  have hreached : Reached memory m₂ :=
    (h.run (fun _ _ hm => hm) hcalled).run Away.onUserStack hrun
  obtain ⟨hrip, hrsp, hflags, hcallee, hfs⟩ := (hbound.running hback).1
  exact ⟨hrip, hrsp, hflags, hcallee, hfs, hbound.rsp0 hreached hback⟩

/-- Moves that can be made after the boot reach a machine. -/
theorem Reached.of_exec {memory : Memory} {image : List UInt8} {registers : UserRegisters}
    {rsp0 : Nat} {moves : List Move} {found : Machine → Bool}
    (h : ((Kernel.boot memory image).bind fun k =>
      exec Machine.step OnUserStack moves (booted k registers rsp0)).any found = true) :
    ∃ m, Reached memory m ∧ found m = true := by
  obtain ⟨m, hm, hfound⟩ := (Option.any_eq_true _ _).mp h
  obtain ⟨k, hboot, hexec⟩ := Option.bind_eq_some_iff.mp hm
  exact ⟨m, ⟨image, k, registers, rsp0, hboot, run_of_exec hexec⟩, hfound⟩

/-- Registers of user code, and what kernel code leaves behind. -/
def someRegisters : UserRegisters :=
  { rip := 0x40_0000_0010, rsp := 0x7FFF_0000_0000, rflags := 0x3246, rax := 2, rbx := 3
    rcx := 4, rdx := 5, rsi := 6, rdi := 7, rbp := 8, r8 := 9, r9 := 10, r10 := 11, r11 := 12
    r12 := 13, r13 := 14, r14 := 15, r15 := 16, fsBase := 17 }

def someScratch : Scratch :=
  { rcx := 1, rdx := 1, rsi := 1, rdi := 1, r8 := 1, r9 := 1, r10 := 1 }

set_option maxRecDepth 100000 in
/-- PID 1 yields.  The idle thread and a second thread run, and the second one
leaves other values in all registers before it yields in turn. -/
theorem syscallReturns_yield : ∃ m m₂ : Machine, m.registers.rbx = 3 ∧
    m.kernel.currentThread = 1 ∧
    m₂.registers.rip = m.registers.rip ∧ m₂.registers.rsp = m.registers.rsp ∧
      m₂.registers.rflags = returnFlags m.registers.rflags ∧
      m₂.registers.calleeSaved = m.registers.calleeSaved ∧
      m₂.registers.fsBase = m.tlsBaseAfter (.call .yieldNow someScratch) ∧
      m₂.rsp0 = kernelStackTop m.kernel.currentThread := by
  have hrun : ((Kernel.boot Kernel.plainMemory Kernel.smallImage).bind fun k =>
      exec Machine.step OnUserStack
        [.proceed someScratch,
          .call (.threadCreate futureUserSpaceBase 0 0) someScratch, .run someRegisters]
        (booted k .empty 0)).any fun m =>
      m.registers.rbx == 3 && m.kernel.currentThread == 1 && m.canEnter &&
        (m.step (.call .yieldNow someScratch)).any fun m₁ =>
          (exec Machine.step (Away 1)
            [.proceed someScratch, .idle, .proceed someScratch,
              .run { UserRegisters.empty with rbx := 0xBAD, rsp := 0x7FFE_0000_0000 },
              .call .yieldNow someScratch, .proceed someScratch] m₁).any fun m₂ =>
            decide (m₂.Runs 1) := by
    decide +kernel
  obtain ⟨m, hm, hfound⟩ := Reached.of_exec hrun
  rw [Bool.and_eq_true, Bool.and_eq_true, Bool.and_eq_true, beq_iff_eq, beq_iff_eq] at hfound
  obtain ⟨⟨⟨hrbx, hcur⟩, henter⟩, hrest⟩ := hfound
  obtain ⟨huser, hstack⟩ := canEnter_iff.mp henter
  obtain ⟨m₁, hstep, hrest⟩ := (Option.any_eq_true _ _).mp hrest
  obtain ⟨m₂, hexec, hback⟩ := (Option.any_eq_true _ _).mp hrest
  rw [decide_eq_true_iff, ← hcur] at hback
  rw [← hcur] at hexec
  exact ⟨m, m₂, hrbx, hcur,
    syscallReturns hm huser hstack rfl hstep (run_of_exec hexec) hback⟩

end Machine

end OpenKernel
