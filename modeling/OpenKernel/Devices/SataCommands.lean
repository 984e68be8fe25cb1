import Mathlib.Tactic.IntervalCases
import OpenKernel.Devices.Ahci

/-!
# What the drive finds in memory

`issue_command` writes a header and a command table, value after value, into
two frames.  `announces_stores` says that the drive reads the command from
them that the call is about, whatever was in memory before.

A value is read back when the writes after it stay clear of its bytes
(`frameBytes_of_mem`), so this comes down to the offsets of the values.  The
bytes that the adapter writes on its own are none of them
(`Announces.spares`).
-/

namespace OpenKernel

open Lib

/-- The frames of a controller, as `initialize_controller` allocates them. -/
structure SataController.Sound (c : SataController) : Prop where
  aligned : ∀ frame ∈ [c.commandList, c.receivedFis, c.commandTable, c.dataBuffer],
    frame % pageSize = 0 ∧ frame < maxPhysicalAddress
  distinct : [c.commandList, c.receivedFis, c.commandTable, c.dataBuffer].Nodup

/-- The frames that driver and adapter write to after the initialization. -/
def SataController.frames (c : SataController) : List Nat :=
  [c.commandList, c.receivedFis, c.commandTable, c.dataBuffer]

/-- The bytes that the adapter writes on its own. -/
def SataController.Reports (c : SataController) (a : Nat) : Prop :=
  a / pageSize * pageSize = c.receivedFis ∨ c.commandList + 4 ≤ a ∧ a < c.commandList + 8

/-- No other byte has changed. -/
def SataController.Spares (c : SataController) (m m' : Memory) : Prop :=
  ∀ a, ¬ c.Reports a → m'.physicalByte a = m.physicalByte a

namespace SataController.Sound

variable {c : SataController}

theorem list_ne_table (h : c.Sound) : c.commandList ≠ c.commandTable := by
  have := h.distinct
  simp only [List.nodup_cons, List.mem_cons, not_or] at this
  exact this.1.2.1

theorem table_ne_buffer (h : c.Sound) : c.commandTable ≠ c.dataBuffer := by
  have := h.distinct
  simp only [List.nodup_cons, List.mem_cons, not_or] at this
  exact this.2.2.1.1

theorem list_ne_buffer (h : c.Sound) : c.commandList ≠ c.dataBuffer := by
  have := h.distinct
  simp only [List.nodup_cons, List.mem_cons, not_or] at this
  exact this.1.2.2.1

theorem received_ne (h : c.Sound) : c.commandList ≠ c.receivedFis ∧
    c.commandTable ≠ c.receivedFis ∧ c.dataBuffer ≠ c.receivedFis := by
  have := h.distinct
  simp only [List.nodup_cons, List.mem_cons, not_or] at this
  exact ⟨this.1.1, Ne.symm this.2.1.1, Ne.symm this.2.1.2.1⟩

end SataController.Sound

namespace Sata

variable {m : Memory} {frame offset size : Nat}

/-! ## Ranges of a frame -/

theorem frame_of_offset (hframe : frame % pageSize = 0) (hoffset : offset < pageSize) :
    (frame + offset) / pageSize * pageSize = frame := by
  unfold pageSize at *
  omega

/-- The bytes of a frame depend on the words of that frame. -/
theorem frameBytes_congr {m' : Memory} (hframe : frame % pageSize = 0)
    (hsize : offset + size ≤ pageSize) (hwords : m'.words frame = m.words frame) :
    frameBytes m' frame offset size = frameBytes m frame offset size := by
  unfold frameBytes
  apply List.map_congr_left
  intro i hi
  have hlt := List.mem_range.mp hi
  apply Memory.physicalByte_congr
  rw [frame_of_offset hframe (by omega)]
  exact hwords

theorem frameBytes_append (m : Memory) (frame offset size more : Nat) :
    frameBytes m frame offset (size + more) =
      frameBytes m frame offset size ++ frameBytes m frame (offset + size) more := by
  unfold frameBytes
  rw [List.range_add, List.map_append, List.map_map]
  refine congrArg (_ ++ ·) (List.map_congr_left fun i _ => ?_)
  show m.physicalByte (frame + (offset + (size + i))) = _
  rw [Nat.add_assoc]

/-- A number that is there byte by byte. -/
theorem frameBytes_pieces {value : Nat} (hpieces : ∀ i < size,
    frameBytes m frame (offset + i) 1 = bytesOf 1 (value >>> (8 * i))) :
    frameBytes m frame offset size = bytesOf size value := by
  unfold frameBytes bytesOf
  apply List.map_congr_left
  intro i hi
  have hpiece : [m.physicalByte (frame + (offset + i))] =
      [UInt8.ofNat (byteAt (value >>> (8 * i)) 0)] := hpieces i (List.mem_range.mp hi)
  rw [← byteAt_add] at hpiece
  exact (List.cons.inj hpiece).1

theorem words_value {bytes : List UInt8} (hframe : frame % pageSize = 0)
    (hsize : offset + bytes.length ≤ pageSize) {f : Nat} (hf : f ≠ frame) :
    (m.writePhysicalFrame (frame + offset) bytes).words f = m.words f := by
  apply Memory.words_writePhysicalFrame
  intro i hi
  rw [Nat.add_assoc, frame_of_offset hframe (by omega)]
  exact hf

namespace Store

/-- The frame of a write. -/
def target : Store → Nat
  | .zero frame => frame
  | .value frame _ _ => frame

/-- The write stays in its frame. -/
def Fits : Store → Prop
  | .zero _ => True
  | .value _ offset bytes => offset + bytes.length ≤ pageSize

/-- The write leaves the range of a frame alone. -/
def Avoids (frame offset size : Nat) : Store → Prop
  | .zero other => other ≠ frame
  | .value other start bytes =>
    other ≠ frame ∨ offset + size ≤ start ∨ start + bytes.length ≤ offset

theorem words_run {store : Store} (haligned : store.target % pageSize = 0) (hfits : store.Fits)
    {f : Nat} (hf : f ≠ store.target) : (store.run m).words f = m.words f := by
  cases store with
  | zero frame => exact put_other hf
  | value frame offset bytes => exact words_value haligned hfits hf

theorem run_words (store : Store) (m : Memory) : ∃ words, store.run m = { m with words } := by
  cases store with
  | zero frame => exact ⟨_, rfl⟩
  | value frame offset bytes => exact Memory.writePhysicalFrame_words m _ _

theorem frameBytes_run (store : Store) (haligned : store.target % pageSize = 0) (hfits : store.Fits)
    (hframe : frame % pageSize = 0) (hsize : offset + size ≤ pageSize)
    (havoids : store.Avoids frame offset size) :
    frameBytes (store.run m) frame offset size = frameBytes m frame offset size := by
  by_cases hother : store.target = frame
  · cases store with
    | zero f => exact absurd hother havoids
    | value f start bytes =>
      have hf : f = frame := hother
      have hclear := havoids.resolve_left fun hne => hne hf
      unfold frameBytes
      apply List.map_congr_left
      intro i hi
      have hlt := List.mem_range.mp hi
      show (m.writePhysicalFrame (f + start) bytes).physicalByte (frame + (offset + i)) = _
      rw [Memory.physicalByte_writePhysicalFrame, hf]
      split
      · rw [List.getElem?_eq_none (by omega)]
        rfl
      · rfl
  · exact frameBytes_congr hframe hsize (words_run haligned hfits (Ne.symm hother))

/-- A value is there right after it is written. -/
theorem frameBytes_value (m : Memory) (frame offset : Nat) (bytes : List UInt8) :
    frameBytes ((Store.value frame offset bytes).run m) frame offset bytes.length = bytes := by
  unfold frameBytes
  apply List.ext_getElem
  · simp
  · intro i hi hi'
    rw [List.getElem_map, List.getElem_range]
    show (m.writePhysicalFrame (frame + offset) bytes).physicalByte (frame + (offset + i)) = _
    rw [Memory.physicalByte_writePhysicalFrame, if_pos (by omega),
      show frame + (offset + i) - (frame + offset) = i by omega, List.getElem?_eq_getElem hi']
    rfl

theorem frameBytes_zero (hframe : frame % pageSize = 0) (hsize : offset + size ≤ pageSize) :
    frameBytes ((Store.zero frame).run m) frame offset size = List.replicate size 0 := by
  unfold frameBytes
  apply List.eq_replicate_iff.mpr
  constructor
  · simp
  · intro byte hbyte
    obtain ⟨i, hi, heq⟩ := List.mem_map.mp hbyte
    have hlt := List.mem_range.mp hi
    rw [← heq]
    apply Memory.physicalByte_clear
    rw [frame_of_offset hframe (by omega)]
    exact put_same _ _ _

/-- A write treats a byte in the same way whatever the other bytes are. -/
theorem physicalByte_run {m' : Memory} {a : Nat} (store : Store)
    (h : m'.physicalByte a = m.physicalByte a) :
    (store.run m').physicalByte a = (store.run m).physicalByte a := by
  cases store with
  | zero frame =>
    by_cases hframe : a / pageSize * pageSize = frame
    · have hzero : ∀ m : Memory, (m.zeroPhysicalFrame frame).physicalByte a = 0 := by
        intro m
        apply Memory.physicalByte_clear
        rw [hframe]
        exact put_same _ _ _
      exact (hzero m').trans (hzero m).symm
    · have hsame : ∀ m : Memory,
          (m.zeroPhysicalFrame frame).physicalByte a = m.physicalByte a :=
        fun m => Memory.physicalByte_congr (put_other hframe)
      exact (hsame m').trans (h.trans (hsame m).symm)
  | value frame offset bytes =>
    show (m'.writePhysicalFrame (frame + offset) bytes).physicalByte a =
      (m.writePhysicalFrame (frame + offset) bytes).physicalByte a
    rw [Memory.physicalByte_writePhysicalFrame, Memory.physicalByte_writePhysicalFrame, h]

end Store

/-! ## Writes in a row -/

/-- The writes are made, first to last. -/
def runStores (stores : List Store) (m : Memory) : Memory :=
  stores.foldl Store.run m

theorem runStores_cons (store : Store) (stores : List Store) (m : Memory) :
    runStores (store :: stores) m = runStores stores (store.run m) := rfl

/-- The writes stay in aligned frames. -/
def Safe (stores : List Store) : Prop :=
  ∀ store ∈ stores, store.target % pageSize = 0 ∧ store.Fits

theorem frameBytes_runStores {stores : List Store} (hsafe : Safe stores)
    (hframe : frame % pageSize = 0) (hsize : offset + size ≤ pageSize)
    (havoids : ∀ store ∈ stores, store.Avoids frame offset size) :
    frameBytes (runStores stores m) frame offset size = frameBytes m frame offset size := by
  induction stores generalizing m with
  | nil => rfl
  | cons store stores ih =>
    obtain ⟨haligned, hfits⟩ := hsafe store List.mem_cons_self
    apply Eq.trans _
      (Store.frameBytes_run store haligned hfits hframe hsize (havoids store List.mem_cons_self))
    apply ih
    · intro other hmem
      exact hsafe other (List.mem_cons_of_mem _ hmem)
    · intro other hmem
      exact havoids other (List.mem_cons_of_mem _ hmem)

theorem physicalByte_runStores {m' : Memory} {a : Nat} (stores : List Store)
    (h : m'.physicalByte a = m.physicalByte a) :
    (runStores stores m').physicalByte a = (runStores stores m).physicalByte a := by
  induction stores generalizing m m' with
  | nil => exact h
  | cons store stores ih => exact ih (store.physicalByte_run h)

/-- A later write leaves the bytes of an earlier value alone. -/
def Clear (earlier later : Store) : Prop :=
  match earlier with
  | .zero _ => True
  | .value frame offset bytes => later.Avoids frame offset bytes.length

/-- A value that the later writes stay clear of is read back. -/
theorem frameBytes_of_mem {stores : List Store} (hsafe : Safe stores)
    (hclear : stores.Pairwise Clear) {bytes : List UInt8}
    (hmem : .value frame offset bytes ∈ stores) :
    frameBytes (runStores stores m) frame offset bytes.length = bytes := by
  induction stores generalizing m with
  | nil => cases hmem
  | cons store stores ih =>
    have hsafe' : Safe stores := fun other h => hsafe other (List.mem_cons_of_mem _ h)
    obtain ⟨hfirst, hrest⟩ := List.pairwise_cons.mp hclear
    cases hmem with
    | head =>
      obtain ⟨haligned, hfits⟩ := hsafe _ List.mem_cons_self
      apply (frameBytes_runStores hsafe' haligned hfits hfirst).trans
      exact Store.frameBytes_value m frame offset bytes
    | tail _ hmem => exact ih hsafe' hrest hmem

/-! ## The command of a call -/

variable {c : SataController}

theorem safe_commandStores (hc : c.Sound) (command : UInt8) (lba : Nat) :
    Safe (commandStores c command lba) := by
  have hlist := (hc.aligned c.commandList (by simp)).1
  have htable := (hc.aligned c.commandTable (by simp)).1
  have hbuffer := (hc.aligned c.dataBuffer (by simp)).1
  unfold Safe commandStores commandValues
  simp only [pageSize] at hlist htable hbuffer
  simp [Store.target, Store.Fits, hlist, htable, hbuffer, pageSize]

theorem clear_commandValues (hc : c.Sound) (command : UInt8) (lba : Nat) :
    (commandValues c command lba).Pairwise Clear := by
  have hne := hc.list_ne_table
  unfold commandValues
  simp [Clear, Store.Avoids, hne.symm]

/-- The command that a call is about. -/
def commandOf (c : SataController) (call : Call) : Command :=
  { code := call.command
    device := (1 : UInt8) <<< 6
    lba := call.lba % 2 ^ 48
    sectors := 1
    target := c.dataBuffer
    size := 512 }

/-- The 512 bytes that a call is about. -/
def Drive.reply (drive : Drive) (call : Call) : Nat → UInt8 :=
  if call = .identify then drive.identity else drive.sector (call.lba % 2 ^ 48)

theorem answer_commandOf (drive : Drive) (c : SataController) (call : Call) :
    drive.answer (commandOf c call) = some (drive.reply call) := by
  have hdevice : ¬ (1 : UInt8) <<< 6 = 0 := by decide
  have hcode : ataReadDmaExt ≠ ataIdentify := by decide
  unfold Drive.answer Drive.reply commandOf
  cases call <;> simp [Call.command, hdevice, hcode]

/-- The command of the call is in memory. -/
def Announces (m : Memory) (c : SataController) (call : Call) : Prop :=
  tableOf m c.commandList = c.commandTable ∧
    fetchCommand m c.commandList = some (commandOf c call)

section Written

variable {call : Call} {bytes : List UInt8} {value : Nat}

/-- Each value of the command is in memory when the writes are over. -/
theorem frameBytes_commandStores (hc : c.Sound) (m : Memory)
    (hmem : .value frame offset bytes ∈ commandValues c call.command call.lba) :
    frameBytes (runStores (commandStores c call.command call.lba) m) frame offset bytes.length =
      bytes := by
  unfold commandStores
  rw [runStores_cons, runStores_cons]
  apply frameBytes_of_mem _ (clear_commandValues hc _ _) hmem
  intro store hstore
  exact safe_commandStores hc _ _ store (List.mem_cons_of_mem _ (List.mem_cons_of_mem _ hstore))

theorem numberOf_commandStores (hc : c.Sound) (m : Memory)
    (hmem : .value frame offset (bytesOf size value) ∈ commandValues c call.command call.lba) :
    numberOf (frameBytes (runStores (commandStores c call.command call.lba) m) frame offset size) =
      value % 256 ^ size := by
  have hbytes := frameBytes_commandStores hc m hmem
  rw [length_bytesOf] at hbytes
  rw [hbytes, numberOf_bytesOf]

/-- A number that is written byte by byte, from the lowest on. -/
theorem numberOf_pieces (hc : c.Sound) (m : Memory) (hpieces : ∀ i < size,
    .value frame (offset + i) (bytesOf 1 (value >>> (8 * i))) ∈
      commandValues c call.command call.lba) :
    numberOf (frameBytes (runStores (commandStores c call.command call.lba) m) frame offset size) =
      value % 256 ^ size := by
  have hbytes : frameBytes (runStores (commandStores c call.command call.lba) m) frame offset
      size = bytesOf size value := by
    apply frameBytes_pieces
    intro i hi
    exact frameBytes_commandStores hc m (hpieces i hi)
  rw [hbytes, numberOf_bytesOf]

/-- The table is zero where no value is written: the high byte of the number of
sectors. -/
theorem frameBytes_padding (hc : c.Sound) (m : Memory) (call : Call) :
    frameBytes (runStores (commandStores c call.command call.lba) m) c.commandTable 13 1 = [0] := by
  have htable := (hc.aligned c.commandTable (by simp)).1
  have hbuffer := (hc.aligned c.dataBuffer (by simp)).1
  have hsafe : Safe (commandValues c call.command call.lba) := by
    intro store hmem
    exact safe_commandStores hc _ _ store (List.mem_cons_of_mem _ (List.mem_cons_of_mem _ hmem))
  unfold commandStores
  rw [runStores_cons, runStores_cons, frameBytes_runStores hsafe htable (by decide)]
  · apply (Store.frameBytes_run (.zero c.dataBuffer) hbuffer trivial htable (by decide)
      hc.table_ne_buffer.symm).trans
    exact Store.frameBytes_zero htable (by decide)
  · unfold commandValues
    simp [Store.Avoids, hc.list_ne_table]

end Written

/-- The drive fetches the command of the call. -/
theorem announces_stores (hc : c.Sound) (m : Memory) (call : Call) :
    Announces (runStores (commandStores c call.command call.lba) m) c call := by
  have hread : ∀ frame offset bytes,
      .value frame offset bytes ∈ commandValues c call.command call.lba →
        frameBytes (runStores (commandStores c call.command call.lba) m) frame offset
          bytes.length = bytes :=
    fun _ _ _ hmem => frameBytes_commandStores hc m hmem
  have hnumber : ∀ frame offset size value,
      .value frame offset (bytesOf size value) ∈ commandValues c call.command call.lba →
        numberOf (frameBytes (runStores (commandStores c call.command call.lba) m) frame offset
          size) = value % 256 ^ size :=
    fun _ _ _ _ hmem => numberOf_commandStores hc m hmem
  have hzero := frameBytes_padding hc m call
  -- The block number is written in six pieces and read in two.
  have hlow : numberOf (frameBytes (runStores (commandStores c call.command call.lba) m)
      c.commandTable 4 3) = call.lba % 256 ^ 3 := by
    apply numberOf_pieces hc
    intro i hi
    interval_cases i <;> simp [commandValues]
  have hhigh : numberOf (frameBytes (runStores (commandStores c call.command call.lba) m)
      c.commandTable 8 3) = (call.lba >>> 24) % 256 ^ 3 := by
    apply numberOf_pieces hc
    intro i hi
    rw [← Nat.shiftRight_add]
    interval_cases i <;> simp [commandValues]
  generalize runStores (commandStores c call.command call.lba) m = m'
    at hread hnumber hzero hlow hhigh ⊢
  have hflags := hnumber c.commandList 0 2 5 (by simp [commandValues])
  have hlength := hnumber c.commandList 2 2 1 (by simp [commandValues])
  have htable := hnumber c.commandList 8 4 c.commandTable (by simp [commandValues])
  have htable' := hnumber c.commandList 12 4 (c.commandTable >>> 32) (by simp [commandValues])
  have hbuffer := hnumber c.commandTable 128 4 c.dataBuffer (by simp [commandValues])
  have hbuffer' := hnumber c.commandTable 132 4 (c.dataBuffer >>> 32) (by simp [commandValues])
  have hsize := hnumber c.commandTable 140 4 (511 ||| 1 <<< 31) (by simp [commandValues])
  have hfis : frameBytes m' c.commandTable 0 2 = [0x27, 0x80] := by
    rw [frameBytes_append m' _ 0 1 1]
    rw [show frameBytes m' c.commandTable 0 1 = [0x27] from
      hread _ 0 [0x27] (by simp [commandValues])]
    rw [show frameBytes m' c.commandTable (0 + 1) 1 = [0x80] from
      hread _ 1 [0x80] (by simp [commandValues])]
    rfl
  have hcode : frameBytes m' c.commandTable 2 1 = [call.command] :=
    hread _ 2 [call.command] (by simp [commandValues])
  have hdevice : frameBytes m' c.commandTable 7 1 = [(1 : UInt8) <<< 6] :=
    hread _ 7 [(1 : UInt8) <<< 6] (by simp [commandValues])
  have hsectors : frameBytes m' c.commandTable 12 2 = [1, 0] := by
    rw [frameBytes_append m' _ 12 1 1, hzero]
    rw [show frameBytes m' c.commandTable 12 1 = [1] from hread _ 12 [1] (by simp [commandValues])]
    rfl
  -- Both frames are below 4 GiB, and their upper halves zero.
  have htableLt := (hc.aligned c.commandTable (by simp)).2
  have hbufferLt := (hc.aligned c.dataBuffer (by simp)).2
  unfold maxPhysicalAddress at htableLt hbufferLt
  have htableAt : tableOf m' c.commandList = c.commandTable := by
    unfold tableOf
    rw [htable, htable', Nat.shiftRight_eq_div_pow]
    omega
  have hbufferAt : numberOf (frameBytes m' c.commandTable 128 4) +
      2 ^ 32 * numberOf (frameBytes m' c.commandTable 132 4) = c.dataBuffer := by
    rw [hbuffer, hbuffer', Nat.shiftRight_eq_div_pow]
    omega
  have hlba : numberOf (frameBytes m' c.commandTable 4 3) +
      2 ^ 24 * numberOf (frameBytes m' c.commandTable 8 3) = call.lba % 2 ^ 48 := by
    rw [hlow, hhigh, Nat.shiftRight_eq_div_pow]
    omega
  refine ⟨htableAt, ?_⟩
  unfold fetchCommand
  dsimp only
  rw [htableAt, if_pos ⟨hflags, hlength, hfis⟩, hlba, hbufferAt, hsize, hcode, hdevice, hsectors]
  have hcodeAt : UInt8.ofNat (numberOf [call.command]) = call.command := by
    show UInt8.ofNat (call.command.toNat + 256 * 0) = _
    simp
  rw [hcodeAt]
  rfl

/-! ## What the adapter writes -/

section Adapter

variable {m' : Memory}

/-- The adapter writes on its own to no other frame, and to four bytes of the
command list. -/
theorem frameBytes_spares (hframe : frame % pageSize = 0) (hsize : offset + size ≤ pageSize)
    (h : c.Spares m m') (hother : frame ≠ c.receivedFis)
    (hclear : frame = c.commandList → offset + size ≤ 4 ∨ 8 ≤ offset)
    (hlist : c.commandList % pageSize = 0) :
    frameBytes m' frame offset size = frameBytes m frame offset size := by
  unfold frameBytes
  apply List.map_congr_left
  intro i hi
  have hlt := List.mem_range.mp hi
  apply h
  unfold SataController.Reports
  rw [frame_of_offset hframe (by omega)]
  rintro (hreceived | hcount)
  · exact hother hreceived
  · by_cases hsame : frame = c.commandList
    · have := hclear hsame
      omega
    · unfold pageSize at hframe hlist hsize
      omega

/-- A command stays as it is announced. -/
theorem Announces.spares (hc : c.Sound) {call : Call} (h : Announces m c call)
    (hspares : c.Spares m m') : Announces m' c call := by
  obtain ⟨hlistOther, htableOther, -⟩ := hc.received_ne
  have hlist := (hc.aligned c.commandList (by simp)).1
  have htable := (hc.aligned c.commandTable (by simp)).1
  have hheader : ∀ offset size, offset + size ≤ 4 ∨ 8 ≤ offset → offset + size ≤ pageSize →
      frameBytes m' c.commandList offset size = frameBytes m c.commandList offset size :=
    fun offset size hclear hsize =>
      frameBytes_spares hlist hsize hspares hlistOther (fun _ => hclear) hlist
  have hbody : ∀ offset size, offset + size ≤ pageSize →
      frameBytes m' c.commandTable offset size = frameBytes m c.commandTable offset size :=
    fun offset size hsize =>
      frameBytes_spares htable hsize hspares htableOther
        (fun heq => absurd heq.symm hc.list_ne_table) hlist
  have hat : tableOf m' c.commandList = tableOf m c.commandList := by
    unfold tableOf
    rw [hheader 8 4 (by decide) (by decide), hheader 12 4 (by decide) (by decide)]
  refine ⟨hat.trans h.1, ?_⟩
  have hfetch := h.2
  unfold fetchCommand at hfetch ⊢
  dsimp only at hfetch ⊢
  rw [hat]
  rw [h.1] at hfetch ⊢
  simp only [hheader 0 2 (by decide) (by decide), hheader 2 2 (by decide) (by decide),
    hbody 0 2 (by decide), hbody 2 1 (by decide), hbody 7 1 (by decide), hbody 4 3 (by decide),
    hbody 8 3 (by decide), hbody 12 2 (by decide), hbody 128 4 (by decide),
    hbody 132 4 (by decide), hbody 140 4 (by decide)]
  exact hfetch

theorem spares_runStores (h : c.Spares m m') (stores : List Store) :
    c.Spares (runStores stores m) (runStores stores m') :=
  fun a ha => physicalByte_runStores stores (h a ha)

end Adapter

end Sata

end OpenKernel
