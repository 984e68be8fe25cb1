import OpenKernel.Devices.SataStart

/-!
# What the AHCI driver returns

In every run a call that succeeds returns what is on the drive, and memory
outside the frames of the controller stays as it was.

The invariant `Progress` follows one command: it is in memory (`Written`),
the drive works on it (`Outstanding`), it is done (`Done`).  The driver has a
case of its own for each of its phases; the steps of the drive are the same
in all of them (`Progress.working`), and what the adapter writes on its own
disturbs none (`Progress.spares`).
-/

namespace OpenKernel

open Lib

namespace Sata

/-- The commands that the driver has reported as failed. -/
def reported (s : Sata) : Nat :=
  s.results.countP fun result =>
    match result.2 with
    | .error .deviceError => true
    | _ => false

/-- `IDENTIFY_MODEL` for a drive: the bytes of each word are swapped. -/
def Drive.model (drive : Drive) : List UInt8 :=
  (List.range 20).flatMap fun index =>
    [drive.identity (54 + index * 2 + 1), drive.identity (54 + index * 2)]

/-- `IDENTIFY_SECTOR_COUNT` for a drive. -/
def Drive.sectorCount (drive : Drive) : Nat :=
  numberOf ((List.range' 200 8).map drive.identity)

/-- What the driver has returned and left behind. -/
structure Faithful (c : SataController) (drive : Drive) (m : Memory) (s : Sata) : Prop where
  delivered : ∀ call bytes, (call, .ok bytes) ∈ s.results →
    bytes = call.offsets.map (drive.reply call)
  identified :
    s.identifyModel = List.replicate 40 0x20 ∧ s.identifySectorCount = 0 ∨
      s.identifyModel = drive.model ∧ s.identifySectorCount = drive.sectorCount
  reported : s.reported ≤ s.failures
  words : ∃ words, s.memory = { m with words }
  outside : ∀ f ∉ c.frames, s.memory.words f = m.words f

/-- When a call finds the drive ready, no command of an earlier call waits to
be fetched or to be cleared. -/
def Settled (s : Sata) : SataAction → Prop
  | .await => s.Busy ∨ s.issued = false ∨ s.device = .halted
  | _ => True

instance (s : Sata) : DecidablePred s.Settled
  | .await => inferInstanceAs (Decidable (_ ∨ _ ∨ _))
  | .call _ | .store | .issue | .poll | .check | .copy | .fetch | .transfer _ | .finish | .fail _
  | .clear | .receive _ _ | .count _ => inferInstanceAs (Decidable True)

/-! ## The invariant -/

/-- The first bytes of the buffer are those that the call is about. -/
def Holds (s : Sata) (call : Call) (count : Nat) : Prop :=
  ∀ i < count, s.memory.physicalByte (s.controller.dataBuffer + i) = s.drive.reply call i

/-- The command of the call is in memory. -/
def Written (s : Sata) (call : Call) : Prop := Announces s.memory s.controller call

/-- The status of the drive is that of the call. -/
def Ended (s : Sata) (call : Call) : Prop :=
  (s.error = false → s.Holds call 512) ∧ (s.error = true → s.reported < s.failures)

/-- How far the drive is with the command of the call. -/
def Serves (s : Sata) (call : Call) : DrivePhase → Prop
  | .idle => s.Written call
  | .executing command index =>
    command = some (commandOf s.controller call) ∧ index ≤ 512 ∧ s.Holds call index ∧
      s.error = false
  | .finishing => s.Ended call
  | .halted => True

/-- The drive has the command of the call. -/
def Outstanding (s : Sata) (call : Call) : Prop := s.issued = true ∧ s.Serves call s.device

/-- There is no command. -/
def Quiet (s : Sata) : Prop := s.issued = false ∧ s.device = .idle

/-- The command of the call is over. -/
def Done (s : Sata) (call : Call) : Prop := s.Quiet ∧ s.Ended call

/-- The drive waits, or is at a command of the driver. -/
def Engaged (s : Sata) : Prop := s.Quiet ∨ ∃ call, s.Outstanding call

/-- What holds at each place of the driver. -/
def Progress (s : Sata) : Prop :=
  match s.phase with
  | .idle => s.Engaged
  | .waiting _ _ => s.Engaged
  | .preparing call stores =>
    (s.Quiet ∨ s.issued = true ∧ s.device = .halted) ∧
      Announces (runStores stores s.memory) s.controller call ∧
      Safe stores ∧ ∀ store ∈ stores, store.target ∈ s.controller.frames
  | .polling call _ => s.Outstanding call ∨ s.Done call
  | .checking call => s.Done call
  | .copying call copied =>
    s.Quiet ∧ s.Holds call 512 ∧
      copied = (call.offsets.take copied.length).map (s.drive.reply call)

structure Inv (c : SataController) (drive : Drive) (m : Memory) (s : Sata) : Prop where
  faithful : Faithful c drive m s
  progress : s.Progress
  controller : s.controller = c
  drive : s.drive = drive

variable {c : SataController} {drive : Drive} {m : Memory} {s t : Sata} {call : Call}

theorem inv_initial (c : SataController) (drive : Drive) (m : Memory) :
    Inv c drive m (initial c drive m) := by
  refine ⟨⟨?_, .inl ⟨rfl, rfl⟩, Nat.le_refl 0, ⟨m.words, rfl⟩, fun _ _ => rfl⟩,
    .inl ⟨rfl, rfl⟩, rfl, rfl⟩
  intro call bytes hmem
  cases hmem

/-! ## Steps of the driver -/

theorem Faithful.of_same (h : Faithful c drive m s) (hresults : t.results = s.results)
    (hmodel : t.identifyModel = s.identifyModel)
    (hcount : t.identifySectorCount = s.identifySectorCount)
    (hfailures : s.failures ≤ t.failures) (hmemory : t.memory = s.memory) :
    Faithful c drive m t := by
  refine ⟨?_, ?_, ?_, ?_, ?_⟩
  · rw [hresults]
    exact h.delivered
  · rw [hmodel, hcount]
    exact h.identified
  · unfold Sata.reported
    rw [hresults]
    exact Nat.le_trans h.reported hfailures
  · rw [hmemory]
    exact h.words
  · rw [hmemory]
    exact h.outside

/-- A write into a frame of the controller. -/
theorem Faithful.stored (h : Faithful c drive m s) (store : Store)
    (hframe : store.target ∈ c.frames) (haligned : store.target % pageSize = 0)
    (hfits : store.Fits) : Faithful c drive m { s with memory := store.run s.memory } := by
  refine ⟨h.delivered, h.identified, h.reported, ?_, ?_⟩
  · obtain ⟨words, hwords⟩ := store.run_words s.memory
    obtain ⟨words', hwords'⟩ := h.words
    refine ⟨words, hwords.trans ?_⟩
    rw [hwords']
  · intro f hf
    have hne : f ≠ store.target := fun heq => hf (heq ▸ hframe)
    rw [← h.outside f hf]
    exact Store.words_run haligned hfits hne

/-- A call that fails adds no bytes to what was returned. -/
theorem Faithful.returned (h : Faithful c drive m s) {error : SataError}
    (hreported : (s.returned call (.error error)).reported ≤ s.failures) :
    Faithful c drive m (s.returned call (.error error)) := by
  refine ⟨?_, h.identified, hreported, h.words, h.outside⟩
  intro other bytes hmem
  apply (List.mem_append.mp hmem).elim
  · exact h.delivered other bytes
  · intro hlast
    cases List.mem_singleton.mp hlast

theorem reported_returned (s : Sata) (call : Call) (result : Except SataError (List UInt8)) :
    (s.returned call result).reported =
      s.reported + match result with
        | .error .deviceError => 1
        | _ => 0 := by
  unfold reported returned
  rw [List.countP_append]
  congr 1
  match result with
  | .ok _ => rfl
  | .error .notFound | .error .noDevice | .error .timeout | .error .deviceError
  | .error .allocationFailed => rfl

/-- A result other than a failure of the drive leaves the command as it is. -/
theorem Outstanding.returned (h : s.Outstanding call) {other : Call}
    {result : Except SataError (List UInt8)}
    (hsame : (s.returned other result).reported = s.reported) :
    (s.returned other result).Outstanding call := by
  obtain ⟨hissued, hdevice⟩ := h
  refine ⟨hissued, ?_⟩
  show (s.returned other result).Serves call s.device
  cases hphase : s.device with
  | idle =>
    rw [hphase] at hdevice
    exact hdevice
  | executing command index =>
    rw [hphase] at hdevice
    exact hdevice
  | finishing =>
    rw [hphase] at hdevice
    refine ⟨hdevice.1, fun herror => ?_⟩
    rw [hsame]
    exact hdevice.2 herror
  | halted => trivial

theorem Engaged.returned (h : s.Engaged) {other : Call} {result : Except SataError (List UInt8)}
    (hsame : (s.returned other result).reported = s.reported) :
    (s.returned other result).Engaged := by
  apply h.imp
  · intro hquiet
    exact hquiet
  · intro ⟨call, hout⟩
    exact ⟨call, hout.returned hsame⟩

/-- A turn of a polling loop without an answer changes nothing about the command. -/
theorem Inv.retry (h : Inv c drive m s) (hengaged : s.Engaged) {attempts : Nat}
    {again : Nat → SataPhase} (hagain : ∀ n, ({ s with phase := again n } : Sata).Progress) :
    Inv c drive m (s.retry call attempts again) := by
  unfold Sata.retry
  split
  · have hsame : (s.returned call (.error .timeout)).reported = s.reported :=
      reported_returned s call _
    refine ⟨h.faithful.returned ?_, hengaged.returned hsame, h.controller, h.drive⟩
    rw [hsame]
    exact h.faithful.reported
  · exact ⟨h.faithful.of_same rfl rfl rfl (Nat.le_refl _) rfl, hagain attempts, h.controller,
      h.drive⟩

theorem Inv.start (h : Inv c drive m s) (hstep : s.step (.call call) = some t) :
    Inv c drive m t := by
  simp only [step] at hstep
  split at hstep
  · rename_i hphase
    obtain rfl := Option.some.inj hstep
    have hprogress := h.progress
    simp only [Progress, hphase] at hprogress
    exact ⟨h.faithful.of_same rfl rfl rfl (Nat.le_refl _) rfl, hprogress, h.controller, h.drive⟩
  · cases hstep

theorem Inv.await (hc : c.Sound) (h : Inv c drive m s) (hguard : s.Settled .await)
    (hstep : s.step .await = some t) : Inv c drive m t := by
  simp only [step] at hstep
  split at hstep
  · rename_i call attempts hphase
    have hprogress := h.progress
    simp only [Progress, hphase] at hprogress
    split at hstep
    · obtain rfl := Option.some.inj hstep
      exact h.retry hprogress fun _ => hprogress
    · rename_i hready
      obtain rfl := Option.some.inj hstep
      have hsafe := safe_commandStores hc call.command call.lba
      have hfetch := announces_stores hc s.memory call
      refine ⟨h.faithful.of_same rfl rfl rfl (Nat.le_refl _) rfl, ?_, h.controller, h.drive⟩
      rw [← h.controller] at hsafe hfetch
      refine ⟨?_, hfetch, hsafe, ?_⟩
      · apply hprogress.imp id
        intro ⟨old, hissued, hdevice⟩
        refine ⟨hissued, (hguard.resolve_left hready).resolve_left ?_⟩
        rw [hissued]
        decide
      · unfold commandStores commandValues SataController.frames
        simp [Store.target]
  · cases hstep

theorem Inv.store (h : Inv c drive m s) (hstep : s.step .store = some t) :
    Inv c drive m t := by
  simp only [step] at hstep
  split at hstep
  · rename_i call store stores hphase
    obtain rfl := Option.some.inj hstep
    have hprogress := h.progress
    simp only [Progress, hphase] at hprogress
    obtain ⟨hdevice, hfetch, hsafe, htargets⟩ := hprogress
    obtain ⟨haligned, hfits⟩ := hsafe store List.mem_cons_self
    have htarget := htargets store List.mem_cons_self
    rw [h.controller] at htarget
    have hstored := h.faithful.stored store htarget haligned hfits
    exact ⟨hstored.of_same rfl rfl rfl (Nat.le_refl _) rfl,
      ⟨hdevice, hfetch, fun other hmem => hsafe other (List.mem_cons_of_mem _ hmem),
        fun other hmem => htargets other (List.mem_cons_of_mem _ hmem)⟩, h.controller, h.drive⟩
  · cases hstep

theorem Inv.issue (h : Inv c drive m s) (hstep : s.step .issue = some t) : Inv c drive m t := by
  simp only [step] at hstep
  split at hstep
  · rename_i call hphase
    obtain rfl := Option.some.inj hstep
    have hprogress := h.progress
    simp only [Progress, hphase] at hprogress
    obtain ⟨hdevice, hfetch, -⟩ := hprogress
    refine ⟨h.faithful.of_same rfl rfl rfl (Nat.le_refl _) rfl, .inl ⟨rfl, ?_⟩, h.controller,
      h.drive⟩
    show s.Serves call s.device
    apply hdevice.elim
    · intro hquiet
      rw [hquiet.2]
      exact hfetch
    · intro hhalted
      rw [hhalted.2]
      trivial
  · cases hstep

theorem Inv.poll (h : Inv c drive m s) (hstep : s.step .poll = some t) : Inv c drive m t := by
  simp only [step] at hstep
  split at hstep
  · rename_i call attempts hphase
    have hprogress := h.progress
    simp only [Progress, hphase] at hprogress
    split at hstep
    · rename_i hissued
      obtain rfl := Option.some.inj hstep
      have hout : s.Outstanding call := by
        apply hprogress.resolve_right
        intro hdone
        rw [hdone.1.1] at hissued
        cases hissued
      exact h.retry (.inr ⟨call, hout⟩) fun _ => hprogress
    · rename_i hcleared
      obtain rfl := Option.some.inj hstep
      have hdone : s.Done call := hprogress.resolve_left fun hout => hcleared hout.1
      exact ⟨h.faithful.of_same rfl rfl rfl (Nat.le_refl _) rfl, hdone, h.controller, h.drive⟩
  · cases hstep

theorem Inv.check (h : Inv c drive m s) (hstep : s.step .check = some t) : Inv c drive m t := by
  simp only [step] at hstep
  split at hstep
  · rename_i call hphase
    have hprogress := h.progress
    simp only [Progress, hphase] at hprogress
    obtain ⟨hquiet, hended⟩ := hprogress
    split at hstep
    · rename_i herror
      obtain rfl := Option.some.inj hstep
      refine ⟨h.faithful.returned ?_, .inl hquiet, h.controller, h.drive⟩
      rw [reported_returned]
      exact hended.2 herror
    · rename_i herror
      obtain rfl := Option.some.inj hstep
      have hholds : s.Holds call 512 := hended.1 (by simpa using herror)
      exact ⟨h.faithful.of_same rfl rfl rfl (Nat.le_refl _) rfl, ⟨hquiet, hholds, rfl⟩,
        h.controller, h.drive⟩
  · cases hstep

theorem offsets_lt (call : Call) {offset : Nat} (hoffset : offset ∈ call.offsets) :
    offset < 512 := by
  cases call with
  | identify =>
    have hall : ∀ offset ∈ Call.identify.offsets, offset < 512 := by decide
    exact hall offset hoffset
  | readFirstSector =>
    have := List.mem_range.mp hoffset
    omega
  | readSector lba => exact List.mem_range.mp hoffset

/-- The bytes that `identify` copies, split as it splits them. -/
theorem map_identify (drive : Drive) :
    Call.identify.offsets.map (drive.reply .identify) =
      drive.model ++ (List.range' 200 8).map drive.identity := by
  unfold Call.offsets Drive.model
  rw [List.map_append, List.map_flatMap]
  rfl

theorem length_model (drive : Drive) : drive.model.length = 40 := rfl

theorem Inv.copy (h : Inv c drive m s) (hstep : s.step .copy = some t) : Inv c drive m t := by
  simp only [step] at hstep
  split at hstep
  · rename_i call copied hphase
    have hprogress := h.progress
    simp only [Progress, hphase] at hprogress
    obtain ⟨hquiet, hholds, hcopied⟩ := hprogress
    obtain rfl := Option.some.inj hstep
    unfold Sata.copy
    split
    · rename_i offset hoffset
      have hbyte := hholds offset (offsets_lt call (List.mem_of_getElem? hoffset))
      refine ⟨h.faithful.of_same rfl rfl rfl (Nat.le_refl _) rfl, ⟨hquiet, hholds, ?_⟩,
        h.controller, h.drive⟩
      rw [List.length_append, List.length_singleton, List.take_add_one, hoffset, List.map_append,
        ← hcopied, hbyte]
      rfl
    · rename_i hend
      have hall : copied = call.offsets.map (drive.reply call) := by
        rw [hcopied, List.take_of_length_le (List.getElem?_eq_none_iff.mp hend), h.drive]
      have hdelivered : ∀ other bytes, (other, .ok bytes) ∈ s.results ++ [(call, .ok copied)] →
          bytes = other.offsets.map (drive.reply other) := by
        intro other bytes hmem
        apply (List.mem_append.mp hmem).elim
        · exact h.faithful.delivered other bytes
        · intro hlast
          obtain ⟨hcall, hbytes⟩ := Prod.mk.inj (List.mem_singleton.mp hlast)
          rw [hcall, Except.ok.inj hbytes]
          exact hall
      have hreported : (s.returned call (.ok copied)).reported ≤ s.failures := by
        rw [reported_returned]
        exact h.faithful.reported
      dsimp only
      split
      · rename_i hidentify
        rw [hidentify, map_identify] at hall
        refine ⟨⟨hdelivered, .inr ⟨?_, ?_⟩, hreported, h.faithful.words, h.faithful.outside⟩,
          .inl hquiet, h.controller, h.drive⟩
        · show copied.take 40 = _
          rw [hall, ← length_model drive, List.take_left]
        · show numberOf (copied.drop 40) = _
          rw [hall, ← length_model drive, List.drop_left]
          rfl
      · exact ⟨⟨hdelivered, h.faithful.identified, hreported, h.faithful.words,
          h.faithful.outside⟩, .inl hquiet, h.controller, h.drive⟩
  · cases hstep

/-! ## Steps of the drive -/

/-- The drive works on commands of the driver only, and the driver waits
meanwhile. -/
theorem Progress.working (h : s.Progress) (hquiet : ¬ s.Quiet) (hhalted : s.device ≠ .halted) :
    ∃ call, s.Outstanding call ∧
      ∀ t : Sata, t.phase = s.phase → t.Outstanding call ∨ t.Done call → t.Progress := by
  have hengaged : ∀ call, s.Outstanding call → ∀ t : Sata, t.Outstanding call ∨ t.Done call →
      t.Engaged := by
    intro call _ t ht
    apply ht.elim
    · intro hout
      exact .inr ⟨call, hout⟩
    · intro hdone
      exact .inl hdone.1
  cases hphase : s.phase with
  | idle =>
    simp only [Progress, hphase] at h
    obtain ⟨call, hout⟩ := h.resolve_left hquiet
    refine ⟨call, hout, fun t ht hworking => ?_⟩
    simp only [Progress, ht]
    exact hengaged call hout t hworking
  | waiting next attempts =>
    simp only [Progress, hphase] at h
    obtain ⟨call, hout⟩ := h.resolve_left hquiet
    refine ⟨call, hout, fun t ht hworking => ?_⟩
    simp only [Progress, ht]
    exact hengaged call hout t hworking
  | preparing call stores =>
    simp only [Progress, hphase] at h
    exact absurd (h.1.resolve_left hquiet).2 hhalted
  | polling call attempts =>
    simp only [Progress, hphase] at h
    refine ⟨call, h.resolve_right fun hdone => hquiet hdone.1, fun t ht hworking => ?_⟩
    simp only [Progress, ht]
    exact hworking
  | checking call =>
    simp only [Progress, hphase] at h
    exact absurd h.1 hquiet
  | copying call copied =>
    simp only [Progress, hphase] at h
    exact absurd h.1 hquiet

theorem Inv.fetch (h : Inv c drive m s) (hstep : s.step .fetch = some t) : Inv c drive m t := by
  simp only [step] at hstep
  split at hstep
  · rename_i hready
    obtain rfl := Option.some.inj hstep
    have hquiet : ¬ s.Quiet := by
      intro hquiet
      rw [hquiet.1] at hready
      exact Bool.noConfusion hready.2
    obtain ⟨call, ⟨hissued, hserves⟩, hback⟩ :=
      h.progress.working hquiet (by rw [hready.1]; exact fun heq => nomatch heq)
    rw [hready.1] at hserves
    refine ⟨h.faithful.of_same rfl rfl rfl (Nat.le_refl _) rfl, hback _ rfl (.inl ⟨hissued, ?_⟩),
      h.controller, h.drive⟩
    exact ⟨hserves.2, Nat.zero_le 512, fun i hi => absurd hi (Nat.not_lt_zero i), rfl⟩
  · cases hstep

/-- A drive that executes something executes the command of a call. -/
theorem Inv.executing (h : Inv c drive m s) {command : Option Command} {index : Nat}
    (hdevice : s.device = .executing command index) :
    ∃ call, (s.issued = true ∧ command = some (commandOf s.controller call) ∧ index ≤ 512 ∧
      s.Holds call index ∧ s.error = false) ∧
        ∀ t : Sata, t.phase = s.phase → t.Outstanding call ∨ t.Done call → t.Progress := by
  have hquiet : ¬ s.Quiet := by
    intro hquiet
    rw [hquiet.2] at hdevice
    cases hdevice
  obtain ⟨call, ⟨hissued, hserves⟩, hback⟩ :=
    h.progress.working hquiet (by rw [hdevice]; exact fun heq => nomatch heq)
  rw [hdevice] at hserves
  exact ⟨call, ⟨hissued, hserves⟩, hback⟩

/-- More bytes of the answer, put behind those that are there. -/
theorem Holds.transfer {index count : Nat} (h : s.Holds call index) (i : Nat)
    (hi : i < index + count) :
    (s.memory.writePhysicalFrame (s.controller.dataBuffer + index)
      ((List.range' index count).map (s.drive.reply call))).physicalByte
        (s.controller.dataBuffer + i) = s.drive.reply call i := by
  rw [Memory.physicalByte_writePhysicalFrame]
  split
  · rename_i hle
    have hoffset : s.controller.dataBuffer + i - (s.controller.dataBuffer + index) = i - index := by
      omega
    rw [hoffset, List.getElem?_eq_getElem (by simp; omega), List.getElem_map, List.getElem_range']
    show s.drive.reply call (index + 1 * (i - index)) = _
    congr 1
    omega
  · exact h i (by omega)

theorem Inv.transfer (hc : c.Sound) (h : Inv c drive m s) {count : Nat}
    (hstep : s.step (.transfer count) = some t) : Inv c drive m t := by
  simp only [step] at hstep
  split at hstep
  · rename_i command index hdevice
    obtain ⟨call, ⟨hissued, hcommand, hindex, hholds, herror⟩, hback⟩ := h.executing hdevice
    obtain rfl := Option.some.inj hcommand
    rw [answer_commandOf] at hstep
    dsimp only at hstep
    split at hstep
    · rename_i hle
      obtain rfl := Option.some.inj hstep
      have hbuffer := (hc.aligned c.dataBuffer (by simp)).1
      have hframe : c.dataBuffer ∈ c.frames := by simp [SataController.frames]
      have hfits : index + ((List.range' index count).map (s.drive.reply call)).length ≤
          pageSize := by
        rw [List.length_map, List.length_range']
        exact Nat.le_trans hle (by decide)
      have hstored := h.faithful.stored (.value c.dataBuffer index
        ((List.range' index count).map (s.drive.reply call))) hframe hbuffer hfits
      refine ⟨hstored.of_same rfl rfl rfl (Nat.le_refl _) ?_,
        hback _ rfl (.inl ⟨hissued, rfl, hle, hholds.transfer, herror⟩), h.controller, h.drive⟩
      show s.memory.writePhysicalFrame (s.controller.dataBuffer + index) _ = _
      rw [h.controller]
      rfl
    · cases hstep
  · cases hstep

theorem Inv.finish (h : Inv c drive m s) (hstep : s.step .finish = some t) : Inv c drive m t := by
  simp only [step] at hstep
  split at hstep
  · rename_i command hdevice
    obtain rfl := Option.some.inj hstep
    obtain ⟨call, ⟨hissued, -, -, hholds, herror⟩, hback⟩ := h.executing hdevice
    refine ⟨h.faithful.of_same rfl rfl rfl (Nat.le_refl _) rfl, hback _ rfl (.inl ⟨hissued, ?_⟩),
      h.controller, h.drive⟩
    refine ⟨fun _ => hholds, fun hfailed => ?_⟩
    rw [show s.error = true from hfailed] at herror
    cases herror
  · cases hstep

theorem Inv.fail (h : Inv c drive m s) {halts : Bool} (hstep : s.step (.fail halts) = some t) :
    Inv c drive m t := by
  simp only [step] at hstep
  split at hstep
  · rename_i command index hdevice
    obtain rfl := Option.some.inj hstep
    obtain ⟨call, ⟨hissued, -⟩, hback⟩ := h.executing hdevice
    refine ⟨h.faithful.of_same rfl rfl rfl (Nat.le_succ _) rfl, hback _ rfl (.inl ⟨hissued, ?_⟩),
      h.controller, h.drive⟩
    cases halts with
    | true => trivial
    | false =>
      refine ⟨fun hnone => Bool.noConfusion hnone, fun _ => ?_⟩
      exact Nat.lt_succ_of_le h.faithful.reported
  · cases hstep

theorem Inv.clear (h : Inv c drive m s) (hstep : s.step .clear = some t) : Inv c drive m t := by
  simp only [step] at hstep
  split at hstep
  · rename_i hdevice
    obtain rfl := Option.some.inj hstep
    have hquiet : ¬ s.Quiet := by
      intro hquiet
      rw [hquiet.2] at hdevice
      cases hdevice
    obtain ⟨call, ⟨-, hserves⟩, hback⟩ :=
      h.progress.working hquiet (by rw [hdevice]; exact fun heq => nomatch heq)
    rw [hdevice] at hserves
    exact ⟨h.faithful.of_same rfl rfl rfl (Nat.le_refl _) rfl,
      hback _ rfl (.inr ⟨⟨rfl, rfl⟩, hserves⟩), h.controller, h.drive⟩
  · cases hstep

/-! ## What the adapter writes -/

/-- Bytes that the driver does not look at leave its progress as it is. -/
theorem Progress.spares (hc : s.controller.Sound) (h : s.Progress) {memory : Memory}
    (hspares : s.controller.Spares s.memory memory) :
    ({ s with memory } : Sata).Progress := by
  have hbuffer := (hc.aligned s.controller.dataBuffer (by simp)).1
  have hlist := (hc.aligned s.controller.commandList (by simp)).1
  have hheld : ∀ call count, count ≤ 512 → s.Holds call count →
      ({ s with memory } : Sata).Holds call count := by
    intro call count hcount hholds i hi
    have hother := hc.list_ne_buffer
    have hreceived := hc.received_ne.2.2
    have hclear : ¬ s.controller.Reports (s.controller.dataBuffer + i) := by
      unfold SataController.Reports
      unfold pageSize at *
      omega
    exact (hspares _ hclear).trans (hholds i hi)
  have hended : ∀ call, s.Ended call → ({ s with memory } : Sata).Ended call :=
    fun call hend => ⟨fun herror => hheld call 512 (Nat.le_refl _) (hend.1 herror), hend.2⟩
  have hout : ∀ call, s.Outstanding call → ({ s with memory } : Sata).Outstanding call := by
    intro call ⟨hissued, hserves⟩
    refine ⟨hissued, ?_⟩
    show ({ s with memory } : Sata).Serves call s.device
    cases hdevice : s.device with
    | idle =>
      rw [hdevice] at hserves
      exact hserves.spares hc hspares
    | executing command index =>
      rw [hdevice] at hserves
      obtain ⟨hcommand, hindex, hholds, herror⟩ := hserves
      exact ⟨hcommand, hindex, hheld call index hindex hholds, herror⟩
    | finishing =>
      rw [hdevice] at hserves
      exact hended call hserves
    | halted => trivial
  have hengaged : s.Engaged → ({ s with memory } : Sata).Engaged := by
    intro hengaged
    apply hengaged.imp
    · intro hquiet
      exact hquiet
    · intro ⟨call, hcall⟩
      exact ⟨call, hout call hcall⟩
  unfold Progress at h ⊢
  dsimp only
  cases hphase : s.phase with
  | idle =>
    rw [hphase] at h
    exact hengaged h
  | waiting call attempts =>
    rw [hphase] at h
    exact hengaged h
  | preparing call stores =>
    rw [hphase] at h
    obtain ⟨hdevice, hfetch, hsafe⟩ := h
    exact ⟨hdevice, hfetch.spares hc (spares_runStores hspares stores), hsafe⟩
  | polling call attempts =>
    rw [hphase] at h
    apply h.imp
    · exact hout call
    · intro hdone
      exact ⟨hdone.1, hended call hdone.2⟩
  | checking call =>
    rw [hphase] at h
    exact ⟨h.1, hended call h.2⟩
  | copying call copied =>
    rw [hphase] at h
    exact ⟨h.1, hheld call 512 (Nat.le_refl _) h.2.1, h.2.2⟩

/-- The adapter writes into a frame of the controller. -/
theorem Inv.adapter (hc : c.Sound) (h : Inv c drive m s) {frame offset : Nat} {bytes : List UInt8}
    (hframe : frame ∈ c.frames) (hfits : offset + bytes.length ≤ pageSize)
    (hreports : ∀ a, frame + offset ≤ a → a < frame + offset + bytes.length → c.Reports a) :
    Inv c drive m { s with memory := s.memory.writePhysicalFrame (frame + offset) bytes } := by
  have haligned := (hc.aligned frame hframe).1
  have hspares : c.Spares s.memory (s.memory.writePhysicalFrame (frame + offset) bytes) := by
    intro a ha
    rw [Memory.physicalByte_writePhysicalFrame]
    split
    · rename_i hle
      rw [List.getElem?_eq_none]
      · rfl
      · apply Nat.le_of_not_lt
        intro hlt
        exact ha (hreports a hle (by omega))
    · rfl
  have hstored := h.faithful.stored (.value frame offset bytes) hframe haligned hfits
  refine ⟨hstored, ?_, h.controller, h.drive⟩
  rw [← h.controller] at hc hspares
  exact h.progress.spares hc hspares

theorem Inv.receive (hc : c.Sound) (h : Inv c drive m s) {offset : Nat} {message : List UInt8}
    (hstep : s.step (.receive offset message) = some t) : Inv c drive m t := by
  simp only [step] at hstep
  split at hstep
  · rename_i hfits
    obtain rfl := Option.some.inj hstep
    obtain rfl := h.controller
    have haligned := (hc.aligned s.controller.receivedFis (by simp)).1
    have hframe : s.controller.receivedFis ∈ s.controller.frames := by
      simp [SataController.frames]
    apply h.adapter hc hframe
    · exact Nat.le_trans hfits (by decide)
    · intro a hlow hhigh
      unfold SataController.Reports pageSize at *
      omega
  · cases hstep

theorem Inv.count (hc : c.Sound) (h : Inv c drive m s) {moved : Nat}
    (hstep : s.step (.count moved) = some t) : Inv c drive m t := by
  simp only [step] at hstep
  split at hstep
  · cases hstep
  · obtain rfl := Option.some.inj hstep
    obtain rfl := h.controller
    have hframe : s.controller.commandList ∈ s.controller.frames := by
      simp [SataController.frames]
    apply h.adapter hc hframe
    · rw [length_bytesOf]
      decide
    · intro a hlow hhigh
      rw [length_bytesOf] at hhigh
      exact .inr ⟨hlow, by omega⟩

theorem Inv.step (hc : c.Sound) (h : Inv c drive m s) {a : SataAction} (hguard : s.Settled a)
    (hstep : s.step a = some t) : Inv c drive m t := by
  cases a with
  | call call => exact h.start hstep
  | await => exact h.await hc hguard hstep
  | store => exact h.store hstep
  | issue => exact h.issue hstep
  | poll => exact h.poll hstep
  | check => exact h.check hstep
  | copy => exact h.copy hstep
  | fetch => exact h.fetch hstep
  | transfer count => exact h.transfer hc hstep
  | finish => exact h.finish hstep
  | fail halts => exact h.fail hstep
  | clear => exact h.clear hstep
  | receive offset message => exact h.receive hc hstep
  | count moved => exact h.count hc hstep

/-! ## Runs -/

/-- After the initialization, in any interleaving of driver and drive in which no
call overtakes the command of an earlier one, a call that succeeds returns what
is on the drive.  A command has 48 bits for the number of a sector. -/
theorem sataReads {s₀ t₀ : Setup} (hinit : initializeController s₀ = .ok c t₀)
    (hrun : Run step Settled (initial c drive t₀.memory) s) :
    Faithful c drive t₀.memory s := by
  have hinv : Inv c drive t₀.memory s := by
    apply hrun.invariant (Inv c drive t₀.memory)
    · intro t a u ht hguard hstep
      exact ht.step (initialized_sound hinit) hguard hstep
    · exact inv_initial c drive t₀.memory
  exact hinv.faithful

/-- An adapter with a drive at its first port. -/
def smallSetup : Setup where
  memory :=
    { frames := { frameBitmap := ⟨0⟩, allocatedBitmap := ⟨0⟩, freeFrames := maxPhysicalFrames }
      words := fun _ _ => 0
      cr3 := 0
      physicalMemoryOffset := 0 }
  hba :=
    { answer := fun _ offset =>
        if offset = hbaPi then 1
        else if offset = portBase 0 + portSsts then 0x113
        else if offset = portBase 0 + portSig then sataSignature
        else 0
      log := [] }

def smallDrive : Drive where
  identity index := UInt8.ofNat index
  sector lba index := UInt8.ofNat (lba + index + 1)

/-- A call up to the write to `PORT_CI`. -/
def issueFirst : List SataAction :=
  [.call .readFirstSector, .await] ++ List.replicate 20 .store ++ [.issue]

set_option maxRecDepth 100000 in
/-- One call, which polls once too early. -/
theorem sataReads_first : ∃ c t s, initializeController smallSetup = .ok c t ∧
    s.results.map (fun result => result.2.toOption) =
      [some ((List.range 16).map fun index => UInt8.ofNat (index + 1))] ∧
    Faithful c smallDrive t.memory s := by
  have hrun : (match initializeController smallSetup with
      | .ok c t => (exec step Settled (issueFirst ++
          [.poll, .fetch, .transfer 512, .count 512, .receive 64 [0x34, 0x40, 0x50], .finish,
            .clear, .poll, .check] ++
            List.replicate 17 .copy) (initial c smallDrive t.memory)).any
        fun s => decide (s.results.map (fun result => result.2.toOption) =
          [some ((List.range 16).map fun index => UInt8.ofNat (index + 1))])
      | .error _ _ => false) = true := by
    decide +kernel
  cases hinit : initializeController smallSetup with
  | error error t =>
    rw [hinit] at hrun
    cases hrun
  | ok c t =>
    rw [hinit] at hrun
    obtain ⟨s, hs, hresults⟩ := (Option.any_eq_true _ _).mp hrun
    exact ⟨c, t, s, rfl, of_decide_eq_true hresults, sataReads hinit (run_of_exec hs)⟩

/-! ## After a timeout -/

/-- As long as `PORT_CI` is not cleared, the polling loop runs out. -/
theorem timeout {attempts : Nat} (hphase : s.phase = .polling call (attempts + 1))
    (hissued : s.issued = true) : Run step Always s (s.returned call (.error .timeout)) := by
  induction attempts generalizing s with
  | zero =>
    apply Run.step .poll .refl trivial
    simp [step, hphase, hissued, retry]
  | succ attempts ih =>
    have hpoll : s.step .poll = some { s with phase := .polling call (attempts + 1) } := by
      simp [step, hphase, hissued, retry]
    apply (Run.step .poll .refl trivial hpoll).trans
    exact ih rfl hissued

set_option maxRecDepth 100000 in
/-- A call that overtakes the end of an earlier one takes the end of that for its
own, and returns the zeros that it has put into the buffer. -/
theorem overtaken : ∃ c t s, initializeController smallSetup = .ok c t ∧
    Run step Always (initial c smallDrive t.memory) s ∧ ¬ Faithful c smallDrive t.memory s := by
  have hrun : (match initializeController smallSetup with
      | .ok c t => (exec step Always (issueFirst ++ [.fetch, .transfer 512])
          (initial c smallDrive t.memory)).any fun s =>
        decide (s.phase = .polling .readFirstSector waitAttempts ∧ s.issued = true) &&
          (exec step Always ([.finish] ++ issueFirst ++ [.clear, .poll, .check] ++
            List.replicate 17 .copy) (s.returned .readFirstSector (.error .timeout))).any
          fun s => decide ((Call.readFirstSector, some (List.replicate 16 0)) ∈
            s.results.map fun result => (result.1, result.2.toOption))
      | .error _ _ => false) = true := by
    decide +kernel
  cases hinit : initializeController smallSetup with
  | error error t =>
    rw [hinit] at hrun
    cases hrun
  | ok c t =>
    rw [hinit] at hrun
    obtain ⟨s, hs, hrest⟩ := (Option.any_eq_true _ _).mp hrun
    obtain ⟨hpolling, hrest⟩ := (Bool.and_eq_true _ _).mp hrest
    obtain ⟨hphase, hissued⟩ := of_decide_eq_true hpolling
    obtain ⟨u, hu, hresults⟩ := (Option.any_eq_true _ _).mp hrest
    refine ⟨c, t, u, rfl, ((run_of_exec hs).trans (timeout hphase hissued)).trans
      (run_of_exec hu), fun hfaithful => ?_⟩
    obtain ⟨⟨called, result⟩, hmem, heq⟩ := List.mem_map.mp (of_decide_eq_true hresults)
    obtain ⟨rfl, hzeros⟩ := Prod.mk.inj heq
    cases result with
    | error error => cases hzeros
    | ok bytes =>
      obtain rfl := Option.some.inj hzeros
      exact absurd (hfaithful.delivered _ _ hmem) (by decide)

end Sata

end OpenKernel
