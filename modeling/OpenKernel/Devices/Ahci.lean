import OpenKernel.Lib.Effect
import OpenKernel.Lib.LittleEndian
import OpenKernel.Lib.Runs
import OpenKernel.Memory.Contents

/-!
# The AHCI driver

The model of `sata.rs` together with the adapter and the drive behind it.

`initializeController` talks to registers that nothing is known about: what a
read answers depends on all accesses before it, in any way.  `Sata.step` has the driver and
the drive go on in steps of their own, in any interleaving.  They share the
command list, the command table and the data buffer, which are frames of
`Memory`; the drive fetches its commands from there and puts the data there.
On its own the adapter writes what the drive reports into the frame for that,
and into the header of a command how many bytes it has moved.
-/

namespace OpenKernel

open Lib

inductive SataError
  | notFound
  | noDevice
  | timeout
  | deviceError
  | allocationFailed
  deriving DecidableEq

/-- `Controller`: the port and the frames that driver and drive share. -/
structure SataController where
  port : Nat
  commandList : Nat
  receivedFis : Nat
  commandTable : Nat
  dataBuffer : Nat

namespace Sata

def hbaGhc : Nat := 0x04
def hbaPi : Nat := 0x0C
def hbaGhcAe : UInt32 := (1 : UInt32) <<< 31
def portClb : Nat := 0x00
def portFb : Nat := 0x08
def portIs : Nat := 0x10
def portCmd : Nat := 0x18
def portSig : Nat := 0x24
def portSsts : Nat := 0x28
def portCmdSt : UInt32 := 1
def portCmdFre : UInt32 := (1 : UInt32) <<< 4
def portCmdFr : UInt32 := (1 : UInt32) <<< 14
def portCmdCr : UInt32 := (1 : UInt32) <<< 15
def sataSignature : UInt32 := 0x0000_0101
def ataIdentify : UInt8 := 0xEC
def ataReadDmaExt : UInt8 := 0x25

/-- The offset of the registers of a port. -/
def portBase (port : Nat) : Nat := 0x100 + port * 0x80

/-- The turns of `wait_for`. -/
def waitAttempts : Nat := 1_000_000

/-! ## Initialization -/

/-- A read or a write of a register. -/
inductive Access
  | read (offset : Nat) (value : UInt32)
  | write (offset : Nat) (value : UInt32)
  deriving DecidableEq

/-- The registers of the adapter: what was read and written, oldest first, and
what a read answers after that. -/
structure Hba where
  answer : List Access → Nat → UInt32
  log : List Access

structure Setup where
  memory : Memory
  hba : Hba

/-- The state after more accesses. -/
def Setup.after (s : Setup) (accesses : List Access) : Setup :=
  { s with hba := { s.hba with log := s.hba.log ++ accesses } }

/-- Code of the driver before there is a controller. -/
abbrev Initialize := EStateM SataError Setup

/-- `read_register`. -/
def readRegister (offset : Nat) : Initialize UInt32 := fun s =>
  let value := s.hba.answer s.hba.log offset
  .ok value (s.after [.read offset value])

/-- `write_register`. -/
def writeRegister (offset : Nat) (value : UInt32) : Initialize Unit :=
  modify (·.after [.write offset value])

/-- `write_u64`. -/
def writeU64 (offset value : Nat) : Initialize Unit := do
  writeRegister offset (UInt32.ofNat value)
  writeRegister (offset + 4) (UInt32.ofNat (value >>> 32))

/-- `wait_for`. -/
def waitFor (ready : Initialize Bool) : Nat → Initialize Bool
  | 0 => return false
  | attempts + 1 => do
    if ← ready then return true else waitFor ready attempts

/-- `allocate_physical_frame` with its failure as an error. -/
def allocateFrame : Initialize Nat := fun s =>
  match s.memory.frames.allocate with
  | (some frame, frames) => .ok frame { s with memory := { s.memory with frames } }
  | (none, frames) => .error .allocationFailed { s with memory := { s.memory with frames } }

/-- `zero_physical_frame`. -/
def zeroFrame (frame : Nat) : Initialize Unit :=
  modify fun s => { s with memory := s.memory.zeroPhysicalFrame frame }

/-- `stop_port`. -/
def stopPort (base : Nat) : Initialize Unit := do
  let command ← readRegister (base + portCmd)
  writeRegister (base + portCmd) (command &&& ~~~(portCmdSt ||| portCmdFre))
  let stopped ← waitFor
    (do return decide ((← readRegister (base + portCmd)) &&& (portCmdCr ||| portCmdFr) = 0))
    waitAttempts
  if ¬ stopped then throw .timeout

/-- What `initialize_controller` does at the port that it has chosen. -/
def startPort (port : Nat) : Initialize SataController := do
  let base := portBase port
  let commandList ← allocateFrame
  let receivedFis ← allocateFrame
  let commandTable ← allocateFrame
  let dataBuffer ← allocateFrame
  zeroFrame commandList
  zeroFrame receivedFis
  zeroFrame commandTable
  zeroFrame dataBuffer
  stopPort base
  writeU64 (base + portClb) commandList
  writeU64 (base + portFb) receivedFis
  writeRegister (base + portIs) 0xFFFF_FFFF
  let command ← readRegister (base + portCmd)
  writeRegister (base + portCmd) (command ||| portCmdFre ||| portCmdSt)
  return { port, commandList, receivedFis, commandTable, dataBuffer }

/-- A drive is there and talks. -/
def Present (status : UInt32) : Prop :=
  status &&& 0xF = 3 ∧ status >>> 8 &&& 0xF ≠ 0

instance (status : UInt32) : Decidable (Present status) :=
  inferInstanceAs (Decidable (_ ∧ _))

/-- The loop of `initialize_controller` over the ports. -/
def searchPorts (implemented : UInt32) : List Nat → Initialize SataController
  | [] => throw .noDevice
  | port :: ports => do
    if implemented &&& (1 : UInt32) <<< UInt32.ofNat port = 0 then
      searchPorts implemented ports
    else
      let base := portBase port
      let there ← waitFor (do return decide (Present (← readRegister (base + portSsts))))
        waitAttempts
      if ¬ there then searchPorts implemented ports
      else
        let status ← readRegister (base + portSsts)
        if ¬ Present status then searchPorts implemented ports
        else
          let signature ← readRegister (base + portSig)
          if signature ≠ sataSignature then searchPorts implemented ports
          else startPort port

/-- `initialize_controller`. -/
def initializeController : Initialize SataController := do
  let control ← readRegister hbaGhc
  writeRegister hbaGhc (control ||| hbaGhcAe)
  let implemented ← readRegister hbaPi
  searchPorts implemented (List.range 32)

/-! ## Commands -/

/-- The bytes of a range of a frame. -/
def frameBytes (m : Memory) (frame offset size : Nat) : List UInt8 :=
  (List.range size).map fun i => m.physicalByte (frame + (offset + i))

/-- A write of `issue_command` to memory: a frame is zeroed, or a value is stored. -/
inductive Store
  | zero (frame : Nat)
  | value (frame offset : Nat) (bytes : List UInt8)
  deriving DecidableEq

def Store.run (m : Memory) : Store → Memory
  | .zero frame => m.zeroPhysicalFrame frame
  | .value frame offset bytes => m.writePhysicalFrame (frame + offset) bytes

/-- The values that `issue_command` puts into the header and the table. -/
def commandValues (c : SataController) (command : UInt8) (lba : Nat) : List Store :=
  let header := c.commandList
  let table := c.commandTable
  [.value header 0 (bytesOf 2 5),
    .value header 2 (bytesOf 2 1),
    .value header 8 (bytesOf 4 c.commandTable),
    .value header 12 (bytesOf 4 (c.commandTable >>> 32)),
    .value table 0 [0x27],
    .value table 1 [0x80],
    .value table 2 [command],
    .value table 4 (bytesOf 1 lba),
    .value table 5 (bytesOf 1 (lba >>> 8)),
    .value table 6 (bytesOf 1 (lba >>> 16)),
    .value table 7 [(1 : UInt8) <<< 6],
    .value table 8 (bytesOf 1 (lba >>> 24)),
    .value table 9 (bytesOf 1 (lba >>> 32)),
    .value table 10 (bytesOf 1 (lba >>> 40)),
    .value table 12 [1],
    .value table 128 (bytesOf 4 c.dataBuffer),
    .value table 132 (bytesOf 4 (c.dataBuffer >>> 32)),
    .value table 140 (bytesOf 4 (511 ||| 1 <<< 31))]

/-- The writes of `issue_command` to memory. -/
def commandStores (c : SataController) (command : UInt8) (lba : Nat) : List Store :=
  .zero c.commandTable :: .zero c.dataBuffer :: commandValues c command lba

/-- The calls of the driver. -/
inductive Call
  /-- `identify` -/
  | identify
  /-- `read_first_sector` -/
  | readFirstSector
  /-- `read_sector` with a buffer that is large enough -/
  | readSector (lba : Nat)
  deriving DecidableEq

namespace Call

/-- The command of a call. -/
def command : Call → UInt8
  | .identify => ataIdentify
  | .readFirstSector | .readSector _ => ataReadDmaExt

def lba : Call → Nat
  | .identify | .readFirstSector => 0
  | .readSector lba => lba

/-- The bytes of the buffer that a call reads, in order. -/
def offsets : Call → List Nat
  | .identify =>
    ((List.range 20).flatMap fun index => [54 + index * 2 + 1, 54 + index * 2]) ++
      List.range' 200 8
  | .readFirstSector => List.range 16
  | .readSector _ => List.range 512

end Call

/-! ## The drive -/

/-- A command as the drive understands it. -/
structure Command where
  code : UInt8
  device : UInt8
  lba : Nat
  sectors : Nat
  /-- the first entry of the table of memory regions: an address and a size -/
  target : Nat
  size : Nat
  deriving DecidableEq

/-- The command table that the first header of the command list points to. -/
def tableOf (m : Memory) (commandList : Nat) : Nat :=
  numberOf (frameBytes m commandList 8 4) + 2 ^ 32 * numberOf (frameBytes m commandList 12 4)

/-- The drive reads the first header of the command list and the command
table it points to.  There is nothing to do for what is no command of five
words that reads into one region. -/
def fetchCommand (m : Memory) (commandList : Nat) : Option Command :=
  let number := fun frame offset size => numberOf (frameBytes m frame offset size)
  let table := tableOf m commandList
  if number commandList 0 2 = 5 ∧ number commandList 2 2 = 1 ∧
      frameBytes m table 0 2 = [0x27, 0x80] then
    some
      { code := UInt8.ofNat (number table 2 1)
        device := UInt8.ofNat (number table 7 1)
        lba := number table 4 3 + 2 ^ 24 * number table 8 3
        sectors := number table 12 2
        target := number table 128 4 + 2 ^ 32 * number table 132 4
        size := number table 140 4 % 2 ^ 22 + 1 }
  else none

/-- What is on the drive. -/
structure Drive where
  identity : Nat → UInt8
  sector : Nat → Nat → UInt8

/-- The 512 bytes that a command asks for, if the drive knows it. -/
def Drive.answer (drive : Drive) (command : Command) : Option (Nat → UInt8) :=
  if command.size < 512 then none
  else if command.code = ataIdentify then some drive.identity
  else if command.code = ataReadDmaExt ∧ command.device &&& (1 : UInt8) <<< 6 ≠ 0 ∧
      command.sectors = 1 then
    some (drive.sector command.lba)
  else none

end Sata

/-! ## Driver and drive -/

/-- Where the driver is in a call. -/
inductive SataPhase
  | idle
  /-- the polling loop for `PORT_TFD` -/
  | waiting (call : Sata.Call) (attempts : Nat)
  /-- the writes that are still to be made -/
  | preparing (call : Sata.Call) (stores : List Sata.Store)
  /-- the polling loop for `PORT_CI` -/
  | polling (call : Sata.Call) (attempts : Nat)
  | checking (call : Sata.Call)
  /-- the bytes that are copied from the buffer -/
  | copying (call : Sata.Call) (copied : List UInt8)
  deriving DecidableEq

/-- What the drive does with the command of the first slot. -/
inductive DrivePhase
  | idle
  /-- `index` bytes are in memory -/
  | executing (command : Option Sata.Command) (index : Nat)
  /-- the status is there, but `PORT_CI` is not cleared -/
  | finishing
  /-- after an error that the adapter waits to be reset for -/
  | halted
  deriving DecidableEq

/-- The driver with its statics, the shared memory, and the drive with the
registers that the driver reads. -/
structure Sata where
  controller : SataController
  drive : Sata.Drive
  memory : Memory
  phase : SataPhase
  /-- `IDENTIFY_MODEL` and `IDENTIFY_SECTOR_COUNT` -/
  identifyModel : List UInt8
  identifySectorCount : Nat
  /-- the calls that returned, oldest first -/
  results : List (Sata.Call × Except SataError (List UInt8))
  /-- the bit of `PORT_CI`, and the error bit of `PORT_TFD` -/
  issued : Bool
  error : Bool
  device : DrivePhase
  /-- the commands that the drive has failed -/
  failures : Nat

inductive SataAction
  | call (call : Sata.Call)
  /-- the next turn of the polling loop for `PORT_TFD`, or the next write -/
  | await
  | store
  /-- the write to `PORT_CI` -/
  | issue
  | poll
  | check
  | copy
  /-- the drive takes the command, moves some bytes, reports how it ended and
  clears `PORT_CI` -/
  | fetch
  | transfer (count : Nat)
  | finish
  | fail (halts : Bool)
  | clear
  /-- the adapter stores a message of the drive in the area for received ones -/
  | receive (offset : Nat) (message : List UInt8)
  /-- the adapter stores in the header how many bytes it has moved -/
  | count (moved : Nat)
  deriving DecidableEq

namespace Sata

/-- The busy bit of `PORT_TFD`. -/
def Busy (s : Sata) : Prop := ∃ command index, s.device = .executing command index

instance (s : Sata) : Decidable s.Busy :=
  match h : s.device with
  | .executing command index => .isTrue ⟨command, index, h⟩
  | .idle | .finishing | .halted => .isFalse fun ⟨_, _, heq⟩ => nomatch h.symm.trans heq

/-- The call returns. -/
def returned (s : Sata) (call : Call) (result : Except SataError (List UInt8)) : Sata :=
  { s with phase := .idle, results := s.results ++ [(call, result)] }

/-- A turn of a polling loop that finds nothing. -/
def retry (s : Sata) (call : Call) (attempts : Nat) (again : Nat → SataPhase) : Sata :=
  if attempts = 0 then s.returned call (.error .timeout) else { s with phase := again attempts }

/-- A turn of the copy loop, or the return after it. -/
def copy (s : Sata) (call : Call) (copied : List UInt8) : Sata :=
  match call.offsets[copied.length]? with
  | some offset =>
    { s with
      phase := .copying call
        (copied ++ [s.memory.physicalByte (s.controller.dataBuffer + offset)]) }
  | none =>
    let s := s.returned call (.ok copied)
    if call = .identify then
      { s with
        identifyModel := copied.take 40
        identifySectorCount := numberOf (copied.drop 40) }
    else s

def step (s : Sata) : SataAction → Option Sata
  | .call call =>
    if s.phase = .idle then some { s with phase := .waiting call waitAttempts } else none
  | .await =>
    match s.phase with
    | .waiting call (attempts + 1) =>
      if s.Busy then some (s.retry call attempts (.waiting call))
      else some
        { s with phase := .preparing call (commandStores s.controller call.command call.lba) }
    | _ => none
  | .store =>
    match s.phase with
    | .preparing call (store :: stores) =>
      some { s with memory := store.run s.memory, phase := .preparing call stores }
    | _ => none
  | .issue =>
    match s.phase with
    | .preparing call [] => some { s with issued := true, phase := .polling call waitAttempts }
    | _ => none
  | .poll =>
    match s.phase with
    | .polling call (attempts + 1) =>
      if s.issued then some (s.retry call attempts (.polling call))
      else some { s with phase := .checking call }
    | _ => none
  | .check =>
    match s.phase with
    | .checking call =>
      if s.error then some (s.returned call (.error .deviceError))
      else some { s with phase := .copying call [] }
    | _ => none
  | .copy =>
    match s.phase with
    | .copying call copied => some (s.copy call copied)
    | _ => none
  | .fetch =>
    if s.device = .idle ∧ s.issued then
      some { s with
        error := false
        device := .executing (fetchCommand s.memory s.controller.commandList) 0 }
    else none
  | .transfer count =>
    match s.device with
    | .executing (some command) index =>
      match s.drive.answer command with
      | some data =>
        if index + count ≤ 512 then
          some { s with
            memory := s.memory.writePhysicalFrame (command.target + index)
              ((List.range' index count).map data)
            device := .executing (some command) (index + count) }
        else none
      | none => none
    | _ => none
  | .finish =>
    match s.device with
    | .executing (some _) 512 => some { s with device := .finishing }
    | _ => none
  | .fail halts =>
    match s.device with
    | .executing _ _ =>
      some { s with
        error := true
        device := if halts then .halted else .finishing
        failures := s.failures + 1 }
    | _ => none
  | .clear =>
    match s.device with
    | .finishing => some { s with issued := false, device := .idle }
    | _ => none
  | .receive offset message =>
    if offset + message.length ≤ 256 then
      some { s with
        memory := s.memory.writePhysicalFrame (s.controller.receivedFis + offset) message }
    else none
  | .count moved =>
    if s.device = .idle then none
    else some { s with
      memory := s.memory.writePhysicalFrame (s.controller.commandList + 4) (bytesOf 4 moved) }

/-- The state after `initialize_controller`. -/
def initial (c : SataController) (drive : Drive) (m : Memory) : Sata :=
  { controller := c
    drive
    memory := m
    phase := .idle
    identifyModel := List.replicate 40 0x20
    identifySectorCount := 0
    results := []
    issued := false
    error := false
    device := .idle
    failures := 0 }

end Sata

end OpenKernel
