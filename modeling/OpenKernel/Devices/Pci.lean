import Mathlib.Data.Nat.Bitwise
import OpenKernel.Lib.Folding
import OpenKernel.Lib.Put

/-!
# The PCI bus

The model of `pci.rs`: the configuration space behind the two ports of the
host bridge, the enumeration of the functions in it, and the searches that
enumerate.

The first half is about addresses.  `configAddress` packs bus, device,
function and register, and `config_other` says that a write through it
changes no other register.  The second half follows the loops of
`enumerate`: whatever the visitor accumulates, it sees the functions of
`functions`, in order.
-/

namespace OpenKernel

open Lib

/-- The host bridge: the last word written to `CONFIG_ADDRESS`, and the dword
that `CONFIG_DATA` stands for at each address. -/
structure PciBus where
  address : Nat
  config : Nat → UInt32
  /-- what a register holds after a write, given its address, what it held before
  and the written value: some bits are read-only, and some are cleared by a 1 -/
  settles : Nat → UInt32 → UInt32 → UInt32

structure PciDevice where
  bus : Nat
  device : Nat
  function : Nat
  vendorId : UInt16
  deviceId : UInt16
  classCode : UInt8
  subclass : UInt8
  programmingInterface : UInt8
  deriving DecidableEq

structure AhciController where
  device : PciDevice
  abar : UInt64
  deriving DecidableEq

structure VirtioRngDevice where
  device : PciDevice
  ioBase : UInt16
  deriving DecidableEq

namespace Pci

/-- Code that accumulates a `σ` and talks to the bridge. -/
abbrev Visit (σ : Type) := StateM (σ × PciBus)

variable {σ : Type}

/-- `config_address`. -/
def configAddress (bus device function offset : Nat) : Nat :=
  0x8000_0000 ||| (bus <<< 16 ||| (device <<< 11 ||| (function <<< 8 ||| offset &&& 0xFC)))

/-- `read_config`. -/
def readConfig (bus device function offset : Nat) : Visit σ UInt32 := fun (s, pci) =>
  let pci := { pci with address := configAddress bus device function offset }
  (pci.config pci.address, (s, pci))

/-- `write_config`. -/
def writeConfig (bus device function offset : Nat) (value : UInt32) : Visit σ Unit :=
  fun (s, pci) =>
  let pci := { pci with address := configAddress bus device function offset }
  let held := pci.settles pci.address (pci.config pci.address) value
  ((), (s, { pci with config := put pci.config pci.address held }))

/-- `read_device`. -/
def readDevice (bus device function : Nat) : Visit σ (Option PciDevice) := do
  let identification ← readConfig bus device function 0
  let vendorId := identification.toUInt16
  if vendorId = 0xFFFF then return none
  let classWord ← readConfig bus device function 8
  return some
    { bus
      device
      function
      vendorId
      deviceId := (identification >>> 16).toUInt16
      classCode := (classWord >>> 24).toUInt8
      subclass := (classWord >>> 16).toUInt8
      programmingInterface := (classWord >>> 8).toUInt8 }

/-- `is_multifunction`. -/
def isMultifunction (bus device : Nat) : Visit σ Bool := do
  return (← readConfig bus device 0 0x0C) &&& (1 : UInt32) <<< 23 ≠ 0

/-- `enumerate`. -/
def enumerate (visit : PciDevice → Visit σ Unit) : Visit σ Unit :=
  (List.range 256).forM fun bus =>
    (List.range 32).forM fun device => do
      let some functionZero ← readDevice bus device 0 | return
      visit functionZero
      if ← isMultifunction bus device then
        (List.range' 1 7).forM fun function => do
          let some device ← readDevice bus device function | return
          visit device

/-- The closure of `device_count`. -/
def countDevice (_ : PciDevice) : Visit Nat Unit :=
  modify fun (count, pci) => (count + 1, pci)

/-- `device_count`. -/
def deviceCount (pci : PciBus) : Nat × PciBus :=
  (enumerate countDevice (0, pci)).2

/-- The closure of `find_ahci_controller`. -/
def visitAhci (device : PciDevice) : Visit (Option AhciController) Unit := do
  let (controller, _) ← get
  if controller.isNone ∧ (device.classCode, device.subclass) = (0x01, 0x06) then
    let bar ← readConfig device.bus device.device device.function 0x24
    let abar := bar &&& 0xFFFF_FFF0
    if abar ≠ 0 then
      modify fun (_, pci) => (some { device, abar := abar.toUInt64 }, pci)

/-- `find_ahci_controller`. -/
def findAhciController (pci : PciBus) : Option AhciController × PciBus :=
  (enumerate visitAhci (none, pci)).2

/-- The closure of `find_virtio_rng`. -/
def visitVirtio (device : PciDevice) : Visit (Option VirtioRngDevice) Unit := do
  let (result, _) ← get
  if result.isSome ∨ device.vendorId ≠ 0x1AF4 ∨ device.deviceId ≠ 0x1005 then return
  let bar ← readConfig device.bus device.device device.function 0x10
  if bar &&& 1 ≠ 0 then
    modify fun (_, pci) => (some { device, ioBase := (bar &&& 0xFFFF_FFFC).toUInt16 }, pci)

/-- `find_virtio_rng`. -/
def findVirtioRng (pci : PciBus) : Option VirtioRngDevice × PciBus :=
  (enumerate visitVirtio (none, pci)).2

/-- `enable_memory_and_bus_master`. -/
def enableMemoryAndBusMaster (device : PciDevice) : Visit σ Unit := do
  let command ← readConfig device.bus device.device device.function 0x04
  writeConfig device.bus device.device device.function 0x04
    (command ||| (1 : UInt32) <<< 1 ||| (1 : UInt32) <<< 2)

/-! ## Addresses -/

/-- The fields of an address do not overlap. -/
theorem configAddress_eq {bus device function : Nat} (hbus : bus < 256) (hdevice : device < 32)
    (hfunction : function < 8) (offset : Nat) :
    configAddress bus device function offset =
      2 ^ 31 + (bus * 2 ^ 16 + (device * 2 ^ 11 + (function * 2 ^ 8 + (offset &&& 0xFC)))) := by
  have hoffset : offset &&& 0xFC < 2 ^ 8 := Nat.lt_of_le_of_lt Nat.and_le_right (by decide)
  have hfields : ∀ (i high low : Nat), low < 2 ^ i → high <<< i ||| low = high * 2 ^ i + low := by
    intro i high low hlow
    rw [← Nat.shiftLeft_add_eq_or_of_lt hlow, Nat.shiftLeft_eq]
  unfold configAddress
  rw [hfields 8 function _ hoffset]
  rw [hfields 11 device _ (by omega)]
  rw [hfields 16 bus _ (by omega)]
  exact hfields 31 1 _ (by omega)

/-- Different registers have different addresses. -/
theorem configAddress_inj {bus device function offset bus' device' function' offset' : Nat}
    (hbus : bus < 256) (hdevice : device < 32) (hfunction : function < 8)
    (hbus' : bus' < 256) (hdevice' : device' < 32) (hfunction' : function' < 8)
    (h : configAddress bus device function offset =
      configAddress bus' device' function' offset') :
    bus = bus' ∧ device = device' ∧ function = function' ∧
      offset &&& 0xFC = offset' &&& 0xFC := by
  have hoffset : offset &&& 0xFC < 2 ^ 8 := Nat.lt_of_le_of_lt Nat.and_le_right (by decide)
  have hoffset' : offset' &&& 0xFC < 2 ^ 8 := Nat.lt_of_le_of_lt Nat.and_le_right (by decide)
  rw [configAddress_eq hbus hdevice hfunction, configAddress_eq hbus' hdevice' hfunction'] at h
  omega

/-! ## What is on the bus -/

/-- What `read_device` makes of the registers of a function. -/
def functionAt (config : Nat → UInt32) (bus device function : Nat) : Option PciDevice :=
  let identification := config (configAddress bus device function 0)
  let classWord := config (configAddress bus device function 8)
  if identification.toUInt16 = 0xFFFF then none
  else
    some
      { bus
        device
        function
        vendorId := identification.toUInt16
        deviceId := (identification >>> 16).toUInt16
        classCode := (classWord >>> 24).toUInt8
        subclass := (classWord >>> 16).toUInt8
        programmingInterface := (classWord >>> 8).toUInt8 }

/-- The device has more functions than the first. -/
def Multifunction (config : Nat → UInt32) (bus device : Nat) : Prop :=
  config (configAddress bus device 0 0x0C) &&& (1 : UInt32) <<< 23 ≠ 0

instance (config : Nat → UInt32) (bus device : Nat) : Decidable (Multifunction config bus device) :=
  inferInstanceAs (Decidable (_ ≠ _))

/-- The function is there for an enumeration: it answers, and it is the first
of its device or the device has more than one. -/
structure OnBus (config : Nat → UInt32) (d : PciDevice) : Prop where
  bus_lt : d.bus < 256
  device_lt : d.device < 32
  function_lt : d.function < 8
  answers : functionAt config d.bus d.device d.function = some d
  shown : d.function = 0 ∨
    (functionAt config d.bus d.device 0).isSome ∧ Multifunction config d.bus d.device

/-- The place of a function, as one number. -/
def place (d : PciDevice) : Nat := (d.bus * 32 + d.device) * 8 + d.function

/-- The functions of one device. -/
def functionsOf (config : Nat → UInt32) (bus device : Nat) : List PciDevice :=
  (functionAt config bus device 0).toList.flatMap fun functionZero =>
    functionZero :: if Multifunction config bus device then
      (List.range' 1 7).filterMap (functionAt config bus device) else []

/-- The functions that an enumeration visits. -/
def functions (config : Nat → UInt32) : List PciDevice :=
  (List.range 256).flatMap fun bus => (List.range 32).flatMap (functionsOf config bus)

section Functions

variable {config : Nat → UInt32} {bus device function : Nat} {d : PciDevice}

theorem functionAt_place (h : functionAt config bus device function = some d) :
    d.bus = bus ∧ d.device = device ∧ d.function = function := by
  unfold functionAt at h
  dsimp only at h
  split at h
  · cases h
  · obtain rfl := Option.some.inj h
    exact ⟨rfl, rfl, rfl⟩

theorem mem_functionsOf : d ∈ functionsOf config bus device ↔
    d.bus = bus ∧ d.device = device ∧ d.function < 8 ∧
      functionAt config bus device d.function = some d ∧
        (d.function = 0 ∨ (functionAt config bus device 0).isSome ∧
          Multifunction config bus device) := by
  unfold functionsOf
  simp only [List.mem_flatMap, Option.mem_toList, List.mem_cons]
  constructor
  · intro ⟨zero, hzero, hd⟩
    apply hd.elim
    · intro heq
      rw [heq]
      obtain ⟨hbus, hdevice, hfunction⟩ := functionAt_place hzero
      rw [hfunction]
      exact ⟨hbus, hdevice, by omega, hzero, .inl rfl⟩
    · intro hmem
      split at hmem
      · rename_i hmulti
        obtain ⟨function, hrange, hd⟩ := List.mem_filterMap.mp hmem
        obtain ⟨hbus, hdevice, hfunction⟩ := functionAt_place hd
        have hlt := (List.mem_range'_1.mp hrange).2
        rw [hfunction]
        exact ⟨hbus, hdevice, by omega, hd, .inr ⟨by rw [hzero]; rfl, hmulti⟩⟩
      · cases hmem
  · intro ⟨_, _, hlt, hd, hshown⟩
    by_cases hzero : d.function = 0
    · rw [hzero] at hd
      exact ⟨d, hd, .inl rfl⟩
    · obtain ⟨hsome, hmulti⟩ := hshown.resolve_left hzero
      obtain ⟨zero, hat⟩ := Option.isSome_iff_exists.mp hsome
      refine ⟨zero, hat, .inr ?_⟩
      rw [if_pos hmulti]
      apply List.mem_filterMap.mpr
      exact ⟨d.function, List.mem_range'_1.mpr ⟨by omega, by omega⟩, hd⟩

theorem mem_functions : d ∈ functions config ↔ OnBus config d := by
  unfold functions
  simp only [List.mem_flatMap, List.mem_range, mem_functionsOf]
  constructor
  · intro ⟨bus, hbus, device, hdevice, heq, heq', hlt, hd, hshown⟩
    rw [← heq, ← heq'] at hd hshown
    exact ⟨by omega, by omega, hlt, hd, hshown⟩
  · intro h
    exact ⟨d.bus, h.bus_lt, d.device, h.device_lt, rfl, rfl, h.function_lt, h.answers, h.shown⟩

/-- The functions of a device are visited in order. -/
theorem pairwise_functionsOf :
    (functionsOf config bus device).Pairwise fun d d' => place d < place d' := by
  have hrest : ((List.range' 1 7).filterMap (functionAt config bus device)).Pairwise
      fun d d' => place d < place d' := by
    rw [List.pairwise_filterMap]
    apply (List.pairwise_lt_range' (s := 1) (n := 7)).imp
    intro i j hlt d hd d' hd'
    obtain ⟨hbus, hdevice, hfunction⟩ := functionAt_place hd
    obtain ⟨hbus', hdevice', hfunction'⟩ := functionAt_place hd'
    unfold place
    rw [hbus, hbus', hdevice, hdevice', hfunction, hfunction']
    omega
  unfold functionsOf
  cases hzero : functionAt config bus device 0 with
  | none => exact List.Pairwise.nil
  | some zero =>
    simp only [Option.toList_some, List.flatMap_cons, List.flatMap_nil, List.append_nil]
    rw [List.pairwise_cons]
    constructor
    · intro d hd
      split at hd
      · obtain ⟨function, hrange, hd⟩ := List.mem_filterMap.mp hd
        obtain ⟨hbus, hdevice, hfunction⟩ := functionAt_place hd
        obtain ⟨hbus', hdevice', hfunction'⟩ := functionAt_place hzero
        have hpos := (List.mem_range'_1.mp hrange).1
        unfold place
        rw [hbus, hbus', hdevice, hdevice', hfunction, hfunction']
        omega
      · cases hd
    · split
      · exact hrest
      · exact List.Pairwise.nil

/-- All functions are visited in order, so none is visited twice. -/
theorem pairwise_functions : (functions config).Pairwise fun d d' => place d < place d' := by
  have hdevice : ∀ {bus device : Nat} {d : PciDevice}, d ∈ functionsOf config bus device →
      d.bus = bus ∧ d.device = device ∧ d.function < 8 := by
    intro bus device d hd
    obtain ⟨hbus, hdevice, hlt, -⟩ := mem_functionsOf.mp hd
    exact ⟨hbus, hdevice, hlt⟩
  unfold functions
  rw [List.pairwise_flatMap]
  constructor
  · intro bus _
    rw [List.pairwise_flatMap]
    refine ⟨fun device _ => pairwise_functionsOf, ?_⟩
    apply List.pairwise_lt_range.imp
    intro i j hlt d hd d' hd'
    obtain ⟨hbus, hdev, hfun⟩ := hdevice hd
    obtain ⟨hbus', hdev', hfun'⟩ := hdevice hd'
    unfold place
    omega
  · apply List.pairwise_lt_range.imp
    intro i j hlt d hd d' hd'
    obtain ⟨device, hmem, hd⟩ := List.mem_flatMap.mp hd
    obtain ⟨device', hmem', hd'⟩ := List.mem_flatMap.mp hd'
    have hrange := List.mem_range.mp hmem
    have hrange' := List.mem_range.mp hmem'
    obtain ⟨hbus, hdev, hfun⟩ := hdevice hd
    obtain ⟨hbus', hdev', hfun'⟩ := hdevice hd'
    unfold place
    omega

end Functions

/-! ## The loops -/

section Loops

variable {config : Nat → UInt32}

theorem reads_readConfig (bus device function offset : Nat) :
    Reads PciBus.config config (readConfig bus device function offset : Visit σ UInt32)
      (config (configAddress bus device function offset)) := by
  intro s pci hpci
  rw [← hpci]
  exact ⟨{ pci with address := configAddress bus device function offset }, rfl, rfl⟩

theorem reads_readDevice (bus device function : Nat) :
    Reads PciBus.config config (readDevice bus device function : Visit σ (Option PciDevice))
      (functionAt config bus device function) := by
  refine (reads_readConfig bus device function 0).bind ?_
  unfold functionAt
  dsimp only
  split
  · exact .pure none
  · exact (reads_readConfig bus device function 8).bind (.pure _)

theorem reads_isMultifunction (bus device : Nat) :
    Reads PciBus.config config (isMultifunction bus device : Visit σ Bool)
      (decide (Multifunction config bus device)) :=
  (reads_readConfig bus device 0 0x0C).bind (.pure _)

/-- A visitor sees the functions on the bus one after the other. -/
theorem folds_enumerate {visit : PciDevice → Visit σ Unit} {f : PciDevice → σ → σ}
    (hvisit : ∀ d, Folds PciBus.config config (visit d) (f d)) :
    Folds PciBus.config config (enumerate visit)
      fun s => (functions config).foldl (fun s d => f d s) s := by
  have hloop : ∀ bus device, Folds PciBus.config config
      ((List.range' 1 7).forM fun function => do
        let some device ← readDevice bus device function | return
        visit device)
      fun s => ((List.range' 1 7).filterMap (functionAt config bus device)).foldl
        (fun s d => f d s) s := by
    intro bus device
    refine Folds.congr (.forM fun function _ => (reads_readDevice bus device function).ask
      (f := fun s => (functionAt config bus device function).elim s fun d => f d s) ?_) fun s => ?_
    · cases functionAt config bus device function with
      | none => exact .pure
      | some d => exact hvisit d
    · rw [List.foldl_filterMap]
      congr 1
      funext s function
      cases functionAt config bus device function <;> rfl
  have hdevice : ∀ bus device, Folds PciBus.config config
      (do
        let some functionZero ← readDevice bus device 0 | return
        visit functionZero
        if ← isMultifunction bus device then
          (List.range' 1 7).forM fun function => do
            let some device ← readDevice bus device function | return
            visit device)
      fun s => (functionsOf config bus device).foldl (fun s d => f d s) s := by
    intro bus device
    refine (reads_readDevice bus device 0).ask ?_
    unfold functionsOf
    cases functionAt config bus device 0 with
    | none => exact .pure
    | some zero =>
      simp only [Option.toList_some, List.flatMap_cons, List.flatMap_nil, List.append_nil,
        List.foldl_cons]
      refine (hvisit zero).bind (g := fun s => (if Multifunction config bus device then
        (List.range' 1 7).filterMap (functionAt config bus device) else []).foldl
          (fun s d => f d s) s) ((reads_isMultifunction bus device).ask ?_)
      by_cases hmulti : Multifunction config bus device
      · rw [if_pos (decide_eq_true hmulti)]
        simp only [if_pos hmulti]
        exact hloop bus device
      · rw [if_neg (by simpa using hmulti)]
        simp only [if_neg hmulti]
        exact .pure
  refine Folds.congr (.forM fun bus _ => .forM fun device _ => hdevice bus device) fun s => ?_
  unfold functions
  simp only [List.foldl_flatMap]

/-! ## What the searches find -/

/-- The function is an AHCI controller with a register block. -/
def ahciAt (config : Nat → UInt32) (d : PciDevice) : Option AhciController :=
  let abar := config (configAddress d.bus d.device d.function 0x24) &&& 0xFFFF_FFF0
  if (d.classCode, d.subclass) = (0x01, 0x06) ∧ abar ≠ 0 then
    some { device := d, abar := abar.toUInt64 }
  else none

/-- The function is a random number generator with ports. -/
def virtioAt (config : Nat → UInt32) (d : PciDevice) : Option VirtioRngDevice :=
  let bar := config (configAddress d.bus d.device d.function 0x10)
  if d.vendorId = 0x1AF4 ∧ d.deviceId = 0x1005 ∧ bar &&& 1 ≠ 0 then
    some { device := d, ioBase := (bar &&& 0xFFFF_FFFC).toUInt16 }
  else none

theorem folds_countDevice (d : PciDevice) :
    Folds PciBus.config config (countDevice d) (· + 1) :=
  Folds.modify _

theorem folds_visitAhci (d : PciDevice) : Folds PciBus.config config (visitAhci d)
    fun controller => if controller.isNone then ahciAt config d else controller := by
  refine Folds.get fun controller pci _ => ?_
  unfold ahciAt
  dsimp only
  by_cases hclass : controller.isNone ∧ (d.classCode, d.subclass) = (0x01, 0x06)
  · rw [if_pos hclass, if_pos hclass.1]
    have hask : Reads PciBus.config config (σ := Option AhciController)
        (readConfig d.bus d.device d.function 0x24) _ :=
      reads_readConfig d.bus d.device d.function 0x24
    generalize config (configAddress d.bus d.device d.function 0x24) = bar at hask ⊢
    by_cases hbar : bar &&& 0xFFFF_FFF0 ≠ 0
    · refine ⟨fun _ => some { device := d, abar := (bar &&& 0xFFFF_FFF0).toUInt64 },
        hask.ask ?_, ?_⟩
      · rw [if_pos hbar]
        exact fun _ e he => ⟨e, he, rfl⟩
      · rw [if_pos ⟨hclass.2, hbar⟩]
    · refine ⟨id, hask.ask ?_, ?_⟩
      · rw [if_neg hbar]
        exact .pure
      · rw [if_neg fun h => hbar h.2]
        exact Option.isNone_iff_eq_none.mp hclass.1
  · refine ⟨id, ?_, ?_⟩
    · rw [if_neg hclass]
      exact .pure
    · split
      · rename_i hnone
        rw [if_neg fun h => hclass ⟨hnone, h.1⟩]
        exact Option.isNone_iff_eq_none.mp hnone
      · rfl

theorem folds_visitVirtio (d : PciDevice) : Folds PciBus.config config (visitVirtio d)
    fun result => if result.isNone then virtioAt config d else result := by
  refine Folds.get fun result pci _ => ?_
  unfold virtioAt
  dsimp only
  by_cases hskip : result.isSome ∨ d.vendorId ≠ 0x1AF4 ∨ d.deviceId ≠ 0x1005
  · refine ⟨id, ?_, ?_⟩
    · rw [if_pos hskip]
      exact .pure
    · cases result with
      | none =>
        have hother := hskip.resolve_left (by simp)
        have hnot : ¬ (d.vendorId = 0x1AF4 ∧ d.deviceId = 0x1005 ∧
            config (configAddress d.bus d.device d.function 0x10) &&& 1 ≠ 0) :=
          fun h => hother.elim (· h.1) (· h.2.1)
        rw [if_neg hnot]
        rfl
      | some found => rfl
  · rw [if_neg hskip]
    simp only [not_or, Bool.not_eq_true, Option.isSome_eq_false_iff, ne_eq, not_not] at hskip
    have hask : Reads PciBus.config config (σ := Option VirtioRngDevice)
        (readConfig d.bus d.device d.function 0x10) _ :=
      reads_readConfig d.bus d.device d.function 0x10
    generalize config (configAddress d.bus d.device d.function 0x10) = bar at hask ⊢
    by_cases hbar : bar &&& 1 ≠ 0
    · refine ⟨fun _ => some { device := d, ioBase := (bar &&& 0xFFFF_FFFC).toUInt16 },
        hask.ask ?_, ?_⟩
      · rw [if_pos hbar]
        exact fun _ e he => ⟨e, he, rfl⟩
      · rw [if_pos hskip.1, if_pos ⟨hskip.2.1, hskip.2.2, hbar⟩]
    · refine ⟨id, hask.ask ?_, ?_⟩
      · rw [if_neg hbar]
        exact .pure
      · rw [if_pos hskip.1, if_neg fun h => hbar h.2.2]
        exact Option.isNone_iff_eq_none.mp hskip.1

theorem foldl_count (ds : List PciDevice) (n : Nat) :
    ds.foldl (fun count _ => count + 1) n = n + ds.length := by
  induction ds generalizing n with
  | nil => rfl
  | cons d ds ih =>
    rw [List.foldl_cons, ih, List.length_cons]
    omega

theorem deviceCount_eq (pci : PciBus) : (deviceCount pci).1 = (functions pci.config).length := by
  obtain ⟨pci', -, hrun⟩ := folds_enumerate folds_countDevice 0 pci rfl
  unfold deviceCount
  rw [hrun]
  exact (foldl_count _ 0).trans (Nat.zero_add _)

theorem findAhciController_eq (pci : PciBus) :
    (findAhciController pci).1 = (functions pci.config).findSome? (ahciAt pci.config) := by
  obtain ⟨pci', -, hrun⟩ := folds_enumerate folds_visitAhci none pci rfl
  unfold findAhciController
  rw [hrun]
  exact foldl_orElse _ _ none

theorem findVirtioRng_eq (pci : PciBus) :
    (findVirtioRng pci).1 = (functions pci.config).findSome? (virtioAt pci.config) := by
  obtain ⟨pci', -, hrun⟩ := folds_enumerate folds_visitVirtio none pci rfl
  unfold findVirtioRng
  rw [hrun]
  exact foldl_orElse _ _ none

end Loops

/-! ## The scan as a whole -/

/-- The command register is written with two bits more than it holds, and no other
register is written. -/
theorem config_enable {pci : PciBus} {d : PciDevice} (hd : OnBus pci.config d) (s : σ)
    {bus device function : Nat} (hbus : bus < 256) (hdevice : device < 32)
    (hfunction : function < 8) (offset : Nat) :
    (enableMemoryAndBusMaster d (s, pci)).2.2.config
        (configAddress bus device function offset) =
      if bus = d.bus ∧ device = d.device ∧ function = d.function ∧ offset &&& 0xFC = 0x04 then
        pci.settles (configAddress bus device function offset)
          (pci.config (configAddress bus device function offset))
          (pci.config (configAddress bus device function offset) ||| 0x06)
      else pci.config (configAddress bus device function offset) := by
  show put pci.config (configAddress d.bus d.device d.function 0x04)
    (pci.settles _ _ _) _ = _
  rw [put_apply]
  by_cases hsame : bus = d.bus ∧ device = d.device ∧ function = d.function ∧
      offset &&& 0xFC = 0x04
  · obtain ⟨heq, heq', heq'', hoffset⟩ := hsame
    have haddress : configAddress bus device function offset =
        configAddress d.bus d.device d.function 0x04 := by
      unfold configAddress
      rewrite [heq, heq', heq'', hoffset]
      rfl
    rw [haddress, if_pos rfl, if_pos ⟨heq, heq', heq'', hoffset⟩, UInt32.or_assoc]
    rfl
  · rw [if_neg hsame, if_neg]
    intro haddress
    obtain ⟨heq, heq', heq'', hoffset⟩ := configAddress_inj hbus hdevice hfunction
      hd.bus_lt hd.device_lt hd.function_lt haddress
    exact hsame ⟨heq, heq', heq'', hoffset⟩

/-- An enumeration visits what is on the bus, each function once and in the order
of their places.  The count and the two searches are about just these, and to enable
a device is one write, of two bits more than its command register holds. -/
theorem scanned (pci : PciBus) : ∃ found : List PciDevice,
    (∀ d, d ∈ found ↔ OnBus pci.config d) ∧
    found.Pairwise (fun d d' => place d < place d') ∧
    (∀ (σ : Type) (visit : PciDevice → Visit σ Unit) (f : PciDevice → σ → σ),
      (∀ d, Folds PciBus.config pci.config (visit d) (f d)) →
        Folds PciBus.config pci.config (enumerate visit)
          fun s => found.foldl (fun s d => f d s) s) ∧
    (deviceCount pci).1 = found.length ∧
    (findAhciController pci).1 = found.findSome? (ahciAt pci.config) ∧
    (findVirtioRng pci).1 = found.findSome? (virtioAt pci.config) ∧
    ∀ d ∈ found, ∀ bus < 256, ∀ device < 32, ∀ function < 8, ∀ offset,
      (enableMemoryAndBusMaster d ((), pci)).2.2.config
          (configAddress bus device function offset) =
        if bus = d.bus ∧ device = d.device ∧ function = d.function ∧ offset &&& 0xFC = 0x04 then
          pci.settles (configAddress bus device function offset)
            (pci.config (configAddress bus device function offset))
            (pci.config (configAddress bus device function offset) ||| 0x06)
        else pci.config (configAddress bus device function offset) := by
  refine ⟨functions pci.config, fun _ => mem_functions, pairwise_functions, ?_,
    deviceCount_eq pci, findAhciController_eq pci, findVirtioRng_eq pci, ?_⟩
  · intro σ visit f hvisit
    exact folds_enumerate hvisit
  · intro d hd bus hbus device hdevice function hfunction offset
    exact config_enable (mem_functions.mp hd) () hbus hdevice hfunction offset

/-- Two functions of a device on bus 0, and a controller on bus 1. -/
example : (functions fun address =>
    if address = configAddress 0 3 0 0 then 0x1005_1AF4
    else if address = configAddress 0 3 0 0x0C then 0x80_0000
    else if address = configAddress 0 3 5 0 then 0x1234_8086
    else if address = configAddress 1 0 0 0 then 0x2922_8086
    else if address = configAddress 1 0 0 8 then 0x0106_0102
    else 0xFFFF_FFFF).map place = [24, 29, 256] := by
  decide +kernel

end Pci

end OpenKernel
