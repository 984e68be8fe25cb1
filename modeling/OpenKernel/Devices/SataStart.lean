import OpenKernel.Devices.SataCommands

/-!
# The start of a port

What `initialize_controller` does, whatever the registers answer.  A port is
programmed after it was seen at rest, with four zeroed frames of its own; a
failure leaves no port started.

The rules of `Lib.Spec` follow the text of the functions.  `Setup.after` keeps
the accesses in order, so a postcondition can say what came before what.
-/

namespace OpenKernel

open Lib

namespace Sata

variable {s₀ : Setup} {fail : SataError → Setup → Prop}

@[simp] theorem Setup.after_nil (s : Setup) : s.after [] = s := by
  unfold after
  rw [List.append_nil]

@[simp] theorem Setup.after_after (s : Setup) (accesses more : List Access) :
    (s.after accesses).after more = s.after (accesses ++ more) := by
  unfold after
  rw [List.append_assoc]

/-! ## Registers -/

theorem spec_readRegister (s : Setup) (offset : Nat) :
    Spec (· = s) (readRegister offset) (fun value t => t = s.after [.read offset value]) fail := by
  intro _ hs
  rw [hs]
  rfl

theorem spec_writeRegister (s : Setup) (offset : Nat) (value : UInt32) :
    Spec (· = s) (writeRegister offset value) (fun _ t => t = s.after [.write offset value])
      fail := by
  intro _ hs
  rw [hs]
  rfl

/-- Polling a register reads it again and again; the last answer is the one
that was waited for. -/
theorem spec_waitFor (offset : Nat) (test : UInt32 → Prop) [DecidablePred test] (attempts : Nat)
    (s : Setup) :
    Spec (· = s) (waitFor (do return decide (test (← readRegister offset))) attempts)
      (fun found t => ∃ values : List UInt32, t = s.after (values.map (.read offset)) ∧
        (found = true → ∃ before value, values = before ++ [value] ∧ test value)) fail := by
  induction attempts generalizing s with
  | zero =>
    apply Spec.pure
    intro t ht
    exact ⟨[], by rw [ht, List.map_nil, Setup.after_nil], fun h => nomatch h⟩
  | succ attempts ih =>
    have hready : Spec (· = s) (do return decide (test (← readRegister offset)))
        (fun found t => ∃ value, t = s.after [.read offset value] ∧ found = decide (test value))
        fail := by
      apply Spec.bind (spec_readRegister s offset)
      intro value
      apply Spec.pure
      intro t ht
      exact ⟨value, ht, rfl⟩
    apply Spec.bind hready
    intro found t ht
    obtain ⟨value, ht, hfound⟩ := ht
    by_cases htest : test value
    · rw [hfound, if_pos (decide_eq_true htest)]
      exact ⟨[value], ht, fun _ => ⟨[], value, rfl, htest⟩⟩
    · rw [hfound, if_neg (by simpa using htest)]
      apply Spec.conseq (ih t) (fun _ h => h) _ (fun _ _ h => h) t rfl
      · intro found u hu
        obtain ⟨values, hu, hlast⟩ := hu
        refine ⟨value :: values, ?_, fun h => ?_⟩
        · rw [hu, ht, Setup.after_after]
          rfl
        · obtain ⟨before, last, heq, hlast⟩ := hlast h
          exact ⟨value :: before, last, by rw [heq]; rfl, hlast⟩

/-! ## Frames -/

/-- The allocator after it has handed out some frames. -/
structure Taken (a : FrameAllocator) (frames : List Nat) (a' : FrameAllocator) : Prop where
  nodup : frames.Nodup
  taken : ∀ frame ∈ frames, a.IsFree frame ∧ a'.IsAllocated frame ∧ ¬ a'.IsFree frame
  others : ∀ frame ∉ frames,
    (a'.IsFree frame ↔ a.IsFree frame) ∧ (a'.IsAllocated frame ↔ a.IsAllocated frame)

theorem Taken.refl (a : FrameAllocator) : Taken a [] a :=
  ⟨List.nodup_nil, fun _ hmem => absurd hmem List.not_mem_nil, fun _ _ => ⟨Iff.rfl, Iff.rfl⟩⟩

theorem Taken.snoc {a a₁ a₂ : FrameAllocator} {frames : List Nat} {frame : Nat}
    (h : Taken a frames a₁) (halloc : a₁.allocate = (some frame, a₂)) :
    Taken a (frames ++ [frame]) a₂ := by
  obtain ⟨hfree, hallocated, hnot, hothers⟩ := FrameAllocator.allocate_some halloc
  have hnew : frame ∉ frames := fun hmem => (h.taken frame hmem).2.2 hfree
  refine ⟨?_, ?_, ?_⟩
  · apply List.nodup_append.mpr
    refine ⟨h.nodup, List.pairwise_singleton _ frame, ?_⟩
    intro old hold new hnewMem heq
    rw [List.mem_singleton.mp hnewMem] at heq
    exact hnew (heq ▸ hold)
  · intro other hmem
    apply (List.mem_append.mp hmem).elim
    · intro hold
      obtain ⟨hfree', hallocated', hnot'⟩ := h.taken other hold
      have hne : other ≠ frame := fun heq => hnew (heq ▸ hold)
      obtain ⟨hfreeIff, hallocatedIff⟩ := hothers other hne
      exact ⟨hfree', hallocatedIff.mpr hallocated', fun hfree => hnot' (hfreeIff.mp hfree)⟩
    · intro hlast
      rw [List.mem_singleton.mp hlast]
      exact ⟨(h.others frame hnew).1.mp hfree, hallocated, hnot⟩
  · intro other hmem
    simp only [List.mem_append, List.mem_singleton, not_or] at hmem
    obtain ⟨hfreeIff, hallocatedIff⟩ := hothers other hmem.2
    obtain ⟨hfreeIff', hallocatedIff'⟩ := h.others other hmem.1
    exact ⟨hfreeIff.trans hfreeIff', hallocatedIff.trans hallocatedIff'⟩

/-- The state `s` with other frames handed out. -/
def Setup.withFrames (s : Setup) (frames : FrameAllocator) : Setup :=
  { s with memory := { s.memory with frames } }

theorem spec_allocateFrame (frames : List Nat) :
    Spec (fun s => ∃ a, Taken s₀.memory.frames frames a ∧ s = s₀.withFrames a) allocateFrame
      (fun frame t => ∃ a, Taken s₀.memory.frames (frames ++ [frame]) a ∧ t = s₀.withFrames a)
      (fun error t => error = .allocationFailed ∧ t.hba = s₀.hba) := by
  intro s hs
  obtain ⟨a, htaken, hs⟩ := hs
  unfold allocateFrame
  rw [hs]
  dsimp only [Setup.withFrames]
  cases halloc : a.allocate with
  | mk result a' =>
    cases result with
    | some frame => exact ⟨a', htaken.snoc halloc, rfl⟩
    | none => exact ⟨rfl, rfl⟩

theorem spec_zeroFrame (s : Setup) (frame : Nat) :
    Spec (· = s) (zeroFrame frame)
      (fun _ t => t = { s with memory := s.memory.zeroPhysicalFrame frame }) fail := by
  intro _ hs
  rw [hs]
  rfl

/-! ## The port -/

/-- The accesses that program a port, from the one on that has seen it at rest. -/
def programs (c : SataController) (status command : UInt32) : List Access :=
  let base := portBase c.port
  [.read (base + portCmd) status,
    .write (base + portClb) (UInt32.ofNat c.commandList),
    .write (base + portClb + 4) (UInt32.ofNat (c.commandList >>> 32)),
    .write (base + portFb) (UInt32.ofNat c.receivedFis),
    .write (base + portFb + 4) (UInt32.ofNat (c.receivedFis >>> 32)),
    .write (base + portIs) 0xFFFF_FFFF,
    .read (base + portCmd) command,
    .write (base + portCmd) (command ||| portCmdFre ||| portCmdSt)]

/-- A write that starts no port. -/
def Harmless : Access → Prop
  | .read _ _ => True
  | .write offset value =>
    offset = hbaGhc ∨
      ∃ port < 32, offset = portBase port + portCmd ∧ value &&& (portCmdSt ||| portCmdFre) = 0

/-- The accesses since `s₀` have started no port. -/
def Unstarted (s₀ t : Setup) : Prop :=
  ∃ accesses, t.hba.log = s₀.hba.log ++ accesses ∧ ∀ access ∈ accesses, Harmless access

/-- The port is started, and the frames of its controller are new and zero. -/
structure Started (s₀ : Setup) (c : SataController) (t : Setup) : Prop where
  frames : Taken s₀.memory.frames [c.commandList, c.receivedFis, c.commandTable, c.dataBuffer]
    t.memory.frames
  memory : ∃ words, t.memory = { s₀.memory with frames := t.memory.frames, words }
  words : ∀ f, t.memory.words f =
    if f ∈ [c.commandList, c.receivedFis, c.commandTable, c.dataBuffer] then fun _ => 0
    else s₀.memory.words f
  log : ∃ accesses status command, t.hba.log = s₀.hba.log ++ accesses ++ programs c status command ∧
    (∀ access ∈ accesses, Harmless access) ∧ status &&& (portCmdCr ||| portCmdFr) = 0

theorem and_complement (value : UInt32) :
    value &&& ~~~(portCmdSt ||| portCmdFre) &&& (portCmdSt ||| portCmdFre) = 0 := by
  rw [UInt32.and_assoc, UInt32.and_comm (~~~(portCmdSt ||| portCmdFre))]
  rw [show (portCmdSt ||| portCmdFre) &&& ~~~(portCmdSt ||| portCmdFre) = 0 by decide]
  exact UInt32.and_zero

/-- Stopping a port ends with an answer that says it rests. -/
theorem spec_stopPort {port : Nat} (hport : port < 32) (s : Setup) :
    Spec (· = s) (stopPort (portBase port))
      (fun _ t => ∃ accesses status,
        t = s.after (accesses ++ [.read (portBase port + portCmd) status]) ∧
          (∀ access ∈ accesses, Harmless access) ∧ status &&& (portCmdCr ||| portCmdFr) = 0)
      (fun error t => error = .timeout ∧ ∃ accesses, t = s.after accesses ∧
        ∀ access ∈ accesses, Harmless access) := by
  unfold stopPort
  apply Spec.bind (spec_readRegister s _)
  intro command
  apply Spec.bind (spec_writeRegister _ _ _)
  intro _
  rw [Setup.after_after]
  have hfirst : ∀ access ∈ [Access.read (portBase port + portCmd) command,
      .write (portBase port + portCmd) (command &&& ~~~(portCmdSt ||| portCmdFre))],
      Harmless access := by
    intro access hmem
    simp only [List.mem_cons, List.not_mem_nil, or_false] at hmem
    apply hmem.elim
    · intro heq
      rw [heq]
      trivial
    · intro heq
      rw [heq]
      exact .inr ⟨port, hport, rfl, and_complement command⟩
  have hpolls : ∀ values : List UInt32,
      ∀ access ∈ values.map (Access.read (portBase port + portCmd)), Harmless access := by
    intro values access hmem
    obtain ⟨value, -, heq⟩ := List.mem_map.mp hmem
    rw [← heq]
    trivial
  apply Spec.bind (spec_waitFor (portBase port + portCmd)
    (fun status => status &&& (portCmdCr ||| portCmdFr) = 0) waitAttempts _)
  intro stopped t ht
  obtain ⟨values, ht, hlast⟩ := ht
  rw [Setup.after_after] at ht
  cases stopped with
  | false =>
    refine ⟨rfl, _, ht, ?_⟩
    intro access hmem
    apply (List.mem_append.mp hmem).elim
    · exact hfirst access
    · exact hpolls values access
  | true =>
    obtain ⟨before, status, heq, hstatus⟩ := hlast rfl
    rw [heq, List.map_append, ← List.append_assoc] at ht
    refine ⟨_, status, ht, ?_, hstatus⟩
    intro access hmem
    apply (List.mem_append.mp hmem).elim
    · exact hfirst access
    · exact hpolls before access

theorem spec_startPort {port : Nat} (hport : port < 32) (s : Setup) :
    Spec (· = s) (startPort port) (fun c t => c.port = port ∧ Started s c t)
      (fun error t => (error = .allocationFailed ∨ error = .timeout) ∧ Unstarted s t) := by
  unfold startPort
  have hallocate : ∀ frames,
      Spec (fun t => ∃ a, Taken s.memory.frames frames a ∧ t = s.withFrames a)
      allocateFrame
      (fun frame t => ∃ a, Taken s.memory.frames (frames ++ [frame]) a ∧ t = s.withFrames a)
      (fun error t => (error = .allocationFailed ∨ error = .timeout) ∧ Unstarted s t) := by
    intro frames
    apply (spec_allocateFrame frames).mono_fail
    intro error t ⟨herror, ht⟩
    refine ⟨.inl herror, [], ?_, fun access hmem => absurd hmem List.not_mem_nil⟩
    rw [ht, List.append_nil]
  apply Spec.bind ((hallocate []).conseq (fun t ht => ⟨_, Taken.refl _, ht⟩)
    (fun _ _ h => h) (fun _ _ h => h))
  intro commandList
  apply Spec.bind (hallocate [commandList])
  intro receivedFis
  apply Spec.bind (hallocate [commandList, receivedFis])
  intro commandTable
  apply Spec.bind (hallocate [commandList, receivedFis, commandTable])
  intro dataBuffer
  refine Spec.each fun t ⟨a, htaken, ht⟩ => ?_
  apply Spec.bind (spec_zeroFrame t commandList)
  intro _
  apply Spec.bind (spec_zeroFrame _ receivedFis)
  intro _
  apply Spec.bind (spec_zeroFrame _ commandTable)
  intro _
  apply Spec.bind (spec_zeroFrame _ dataBuffer)
  intro _
  refine Spec.bind ((spec_stopPort hport _).mono_fail ?_) ?_
  · intro error u ⟨herror, accesses, hu, hharmless⟩
    refine ⟨.inr herror, accesses, ?_, hharmless⟩
    rw [hu, ht]
    rfl
  intro _
  refine Spec.each fun u ⟨accesses, status, hu, hharmless, hstatus⟩ => ?_
  unfold writeU64
  apply Spec.bind (Spec.bind (spec_writeRegister u _ _) fun _ => spec_writeRegister _ _ _)
  intro _
  apply Spec.bind (Spec.bind (spec_writeRegister _ _ _) fun _ => spec_writeRegister _ _ _)
  intro _
  apply Spec.bind (spec_writeRegister _ _ _)
  intro _
  apply Spec.bind (spec_readRegister _ _)
  intro command
  apply Spec.bind (spec_writeRegister _ _ _)
  intro _
  apply Spec.pure
  intro v hv
  simp only [Setup.after_after, List.cons_append, List.nil_append] at hv
  have hmemory : v.memory = u.memory := by
    rw [hv]
    rfl
  have hmemory' : u.memory = (({ s.memory with frames := a } : Memory).zeroPhysicalFrame commandList
      |>.zeroPhysicalFrame receivedFis |>.zeroPhysicalFrame commandTable
      |>.zeroPhysicalFrame dataBuffer) := by
    rw [hu, ht]
    rfl
  refine ⟨rfl, ?_, ?_, ?_, accesses, status, command, ?_, hharmless, hstatus⟩
  · rw [hmemory, hmemory']
    exact htaken
  · rw [hmemory, hmemory']
    exact ⟨_, rfl⟩
  · intro f
    rw [hmemory, hmemory']
    simp only [List.mem_cons, List.not_mem_nil, or_false]
    show put (put (put (put s.memory.words commandList _) receivedFis _) commandTable _)
      dataBuffer _ f = _
    simp only [put_apply]
    grind
  · rw [hv, hu, ht]
    simp [Setup.after, Setup.withFrames, programs]

/-! ## The search -/

/-- Nothing has happened since `s₀` but harmless accesses. -/
def Looked (s₀ s : Setup) : Prop :=
  ∃ accesses, s = s₀.after accesses ∧ ∀ access ∈ accesses, Harmless access

theorem Looked.refl (s : Setup) : Looked s s :=
  ⟨[], (Setup.after_nil s).symm, fun _ hmem => absurd hmem List.not_mem_nil⟩

theorem Looked.after {s : Setup} (h : Looked s₀ s) {accesses : List Access}
    (hharmless : ∀ access ∈ accesses, Harmless access) : Looked s₀ (s.after accesses) := by
  obtain ⟨before, hs, hbefore⟩ := h
  refine ⟨before ++ accesses, by rw [hs, Setup.after_after], ?_⟩
  intro access hmem
  exact (List.mem_append.mp hmem).elim (hbefore access) (hharmless access)

theorem Looked.reads {s : Setup} (h : Looked s₀ s) (offset : Nat) (values : List UInt32) :
    Looked s₀ (s.after (values.map (.read offset))) := by
  apply h.after
  intro access hmem
  obtain ⟨value, -, heq⟩ := List.mem_map.mp hmem
  rw [← heq]
  trivial

theorem Looked.unstarted {s t : Setup} (h : Looked s₀ s) (ht : Unstarted s t) :
    Unstarted s₀ t := by
  obtain ⟨before, hs, hbefore⟩ := h
  obtain ⟨accesses, hlog, hharmless⟩ := ht
  refine ⟨before ++ accesses, ?_, ?_⟩
  · rw [hlog, hs, ← List.append_assoc]
    rfl
  · intro access hmem
    exact (List.mem_append.mp hmem).elim (hbefore access) (hharmless access)

/-- A drive was found at the port of the controller, which was started then. -/
def Found (s₀ : Setup) (implemented : UInt32) (c : SataController) (t : Setup) : Prop :=
  c.port < 32 ∧ implemented &&& (1 : UInt32) <<< UInt32.ofNat c.port ≠ 0 ∧
    ∃ s status, Looked s₀ s ∧ Present status ∧
      Started (s.after [.read (portBase c.port + portSsts) status,
        .read (portBase c.port + portSig) sataSignature]) c t

/-- What a failed search leaves. -/
def NotFound (s₀ : Setup) (error : SataError) (t : Setup) : Prop :=
  Unstarted s₀ t ∧ (error = .noDevice → t.memory = s₀.memory)

theorem spec_searchPorts (implemented : UInt32) (ports : List Nat)
    (hports : ∀ port ∈ ports, port < 32) :
    Spec (Looked s₀) (searchPorts implemented ports) (Found s₀ implemented) (NotFound s₀) := by
  induction ports with
  | nil =>
    apply Spec.throw
    intro s ⟨accesses, hs, hharmless⟩
    refine ⟨⟨accesses, ?_, hharmless⟩, fun _ => ?_⟩
    · rw [hs]
      rfl
    · rw [hs]
      rfl
  | cons port ports ih =>
    have hport := hports port List.mem_cons_self
    have hnext := ih fun other hmem => hports other (List.mem_cons_of_mem port hmem)
    unfold searchPorts
    apply Spec.ite
    · intro _
      exact hnext
    · intro himplemented
      dsimp only
      refine Spec.each fun s hs => ?_
      apply Spec.bind (spec_waitFor _ Present waitAttempts s)
      intro there
      refine Spec.each fun t ⟨values, ht, _⟩ => ?_
      have hlooked : Looked s₀ t := by
        rw [ht]
        exact hs.reads _ values
      apply Spec.ite
      · intro _
        exact hnext.conseq (fun _ hu => hu ▸ hlooked) (fun _ _ h => h) (fun _ _ h => h)
      · intro _
        apply Spec.bind (spec_readRegister t _)
        intro status
        apply Spec.ite
        · intro _
          exact hnext.conseq (fun _ hu => hu ▸ hlooked.reads _ [status]) (fun _ _ h => h)
            (fun _ _ h => h)
        · intro hpresent
          apply Spec.bind (spec_readRegister _ _)
          intro signature
          rw [Setup.after_after]
          apply Spec.ite
          · intro _
            refine hnext.conseq (fun _ hu => ?_) (fun _ _ h => h) (fun _ _ h => h)
            rw [hu, ← Setup.after_after]
            exact (hlooked.reads _ [status]).reads _ [signature]
          · intro hsignature
            have hsignature' : signature = sataSignature := Decidable.not_not.mp hsignature
            have hpresent' : Present status := Decidable.not_not.mp hpresent
            rw [hsignature']
            apply (spec_startPort hport _).conseq (fun _ h => h)
            · intro c u ⟨hc, hstarted⟩
              subst hc
              exact ⟨hport, himplemented, t, status, hlooked, hpresent', hstarted⟩
            · intro error u ⟨herror, hunstarted⟩
              refine ⟨?_, ?_⟩
              · apply Looked.unstarted _ hunstarted
                rw [← List.singleton_append, ← Setup.after_after]
                exact (hlooked.reads _ [status]).reads _ [sataSignature]
              · intro hnone
                rw [hnone] at herror
                exact herror.elim (fun h => nomatch h) (fun h => nomatch h)

theorem harmless_enable (control implemented : UInt32) :
    ∀ access ∈ [Access.read hbaGhc control, .write hbaGhc (control ||| hbaGhcAe),
      .read hbaPi implemented], Harmless access := by
  intro access hmem
  simp only [List.mem_cons, List.not_mem_nil, or_false] at hmem
  rcases hmem with heq | heq | heq
  · rw [heq]
    trivial
  · rw [heq]
    exact .inl rfl
  · rw [heq]
    trivial

/-- Whatever the registers answer, `initialize_controller` programs one port, an
implemented one behind which a drive was seen, after it was seen at rest.  The
controller gets four zeroed frames that were free.  A failure starts no port,
and the failure to find a drive takes no frame. -/
theorem portStarted (s₀ : Setup) :
    Spec (· = s₀) initializeController
      (fun c t => ∃ control implemented, Found (s₀.after [.read hbaGhc control,
        .write hbaGhc (control ||| hbaGhcAe), .read hbaPi implemented]) implemented c t)
      (NotFound s₀) := by
  unfold initializeController
  apply Spec.bind (spec_readRegister s₀ _)
  intro control
  apply Spec.bind (spec_writeRegister _ _ _)
  intro _
  apply Spec.bind (spec_readRegister _ _)
  intro implemented
  rw [Setup.after_after, Setup.after_after]
  apply (spec_searchPorts implemented (List.range 32) fun _ hport => List.mem_range.mp hport).conseq
  · intro t ht
    rw [ht]
    exact Looked.refl _
  · intro c t hfound
    exact ⟨control, implemented, hfound⟩
  · intro error t ⟨hunstarted, hmemory⟩
    refine ⟨?_, hmemory⟩
    exact ((Looked.refl s₀).after (harmless_enable control implemented)).unstarted hunstarted

/-- The frames of a controller are those of the allocator. -/
theorem initialized_sound {s₀ t : Setup} {c : SataController}
    (hinit : initializeController s₀ = .ok c t) : c.Sound := by
  obtain ⟨_, _, _, _, _, _, _, _, hstarted⟩ := (portStarted s₀).ok rfl hinit
  refine ⟨?_, hstarted.frames.nodup⟩
  intro frame hmem
  obtain ⟨haligned, hlt, -⟩ := (hstarted.frames.taken frame hmem).1
  exact ⟨haligned, hlt⟩

end Sata

end OpenKernel
