import Mathlib.Tactic

/-!
The scan of one PCI bus. pci_hose_scan_bus configures the functions of the bus
with one loop over the packed numbers, and pci_find_devices goes through the
same numbers later, when a driver looks for its device. Both remember in
found_multi whether the last function 0 announced more functions.
-/

namespace UBoot.Pci.ScanBus

def PCI_MAX_PCI_DEVICES : Nat := 32
def PCI_MAX_PCI_FUNCTIONS : Nat := 8
def PCI_ANY_ID : UInt32 := 0xffffffff

def pciBus (dev : Nat) : Nat := (dev >>> 16) &&& 0xff
def pciDev (dev : Nat) : Nat := (dev >>> 11) &&& 0x1f
def pciFunc (dev : Nat) : Nat := (dev >>> 8) &&& 0x7
def pciBdf (bus device function : Nat) : Nat := bus <<< 16 ||| device <<< 11 ||| function <<< 8

/-- The registers of a function that the scan reads. -/
structure Function where
  vendor : UInt16
  device : UInt16
  deviceClass : UInt16
  headerType : UInt8
  answers : vendor ≠ 0xffff ∧ vendor ≠ 0

/-- What sits on the buses, by bus, device and function. -/
abbrev Population := Nat → Nat → Nat → Option Function

def slot (population : Population) (dev : Nat) : Option Function :=
  population (pciBus dev) (pciDev dev) (pciFunc dev)

-- nobody answers a read of an empty slot, and the bus floats high
def readHeaderType (population : Population) (dev : Nat) : UInt8 :=
  ((slot population dev).map Function.headerType).getD 0xff
def readVendor (population : Population) (dev : Nat) : UInt16 :=
  ((slot population dev).map Function.vendor).getD 0xffff
def readDevice (population : Population) (dev : Nat) : UInt16 :=
  ((slot population dev).map Function.device).getD 0xffff
def readClass (population : Population) (dev : Nat) : UInt16 :=
  ((slot population dev).map Function.deviceClass).getD 0xffff

structure ConfigTable (State : Type) where
  vendor : UInt32
  device : UInt32
  deviceClass : UInt32
  bus : UInt32
  dev : UInt32
  func : UInt32
  configDevice : Nat → State → State

/-- A host bridge with what the board gives it. The rest of the machine is `State`. -/
structure PciController (State : Type) where
  firstBusno : Nat
  lastBusno : Nat
  buses : lastBusno < 256
  configTable : List (ConfigTable State)
  fixupIrq : Option (Nat → State → State)
  currentBusno : State → Nat
  pciautoConfigDevice : Nat → State → State × Nat

def pciFindConfig {State : Type} (vendor device deviceClass bus dev func : UInt32) :
    List (ConfigTable State) → Option (ConfigTable State)
  | [] => none
  | table :: rest =>
      if table.vendor = 0 then none
      else if (table.vendor = PCI_ANY_ID ∨ table.vendor = vendor) ∧
          (table.device = PCI_ANY_ID ∨ table.device = device) ∧
          (table.deviceClass = PCI_ANY_ID ∨ table.deviceClass = deviceClass) ∧
          (table.bus = PCI_ANY_ID ∨ table.bus = bus) ∧
          (table.dev = PCI_ANY_ID ∨ table.dev = dev) ∧
          (table.func = PCI_ANY_ID ∨ table.func = func) then some table
      else pciFindConfig vendor device deviceClass bus dev func rest

/-- The scan on its way. `configured` lists the functions that it has configured. -/
structure Scan (State : Type) where
  state : State
  subBus : Nat
  foundMulti : UInt8
  configured : List Nat

section Scanning

variable {State : Type} (hose : PciController State) (population : Population)

def configureFunction (dev : Nat) (state : State) (subBus : Nat) : State × Nat :=
  let cfg := pciFindConfig (readVendor population dev).toUInt32
    (readDevice population dev).toUInt32 (readClass population dev).toUInt32
    (pciBus dev).toUInt32 (pciDev dev).toUInt32 (pciFunc dev).toUInt32 hose.configTable
  let done := match cfg with
    | some cfg =>
        let state := cfg.configDevice dev state
        (state, max subBus (hose.currentBusno state))
    | none =>
        let auto := hose.pciautoConfigDevice dev state
        (auto.1, max subBus auto.2)
  match hose.fixupIrq with
  | some fixupIrq => (fixupIrq dev done.1, done.2)
  | none => done

def scanFunction (scan : Scan State) (dev : Nat) : Scan State :=
  -- Skip our host bridge
  if dev = pciBdf hose.firstBusno 0 0 then scan
  else if pciFunc dev ≠ 0 ∧ scan.foundMulti = 0 then scan
  else
    let headerType := readHeaderType population dev
    let vendor := readVendor population dev
    if vendor ≠ 0xffff ∧ vendor ≠ 0x0000 then
      let foundMulti := if pciFunc dev = 0 then headerType &&& 0x80 else scan.foundMulti
      let done := configureFunction hose population dev scan.state scan.subBus
      ⟨done.1, done.2, foundMulti, scan.configured ++ [dev]⟩
    else scan

/-- The numbers from `start` on that lie below `stop`, one function after the other. -/
def devsBelow (start stop : Nat) : List Nat :=
  (List.range ((stop - start) / pciBdf 0 0 1)).map fun i => start + i * pciBdf 0 0 1

def pciHoseScanBus (bus : Nat) (state : State) : Scan State :=
  (devsBelow (pciBdf bus 0 0)
    (pciBdf bus (PCI_MAX_PCI_DEVICES - 1) (PCI_MAX_PCI_FUNCTIONS - 1))).foldl
    (scanFunction hose population) ⟨state, bus, 0, []⟩

end Scanning

structure PciDeviceId where
  vendor : UInt32
  device : UInt32

/-- The search on its way. It is over when it has found its device. -/
structure Search where
  index : Int
  foundMulti : UInt8
  found : Option Nat

/-- The inner loop of pci_find_devices: whether the entry asked for is this one. -/
def matchIds (vendor device : UInt32) : List PciDeviceId → Int → Bool × Int
  | [], index => (false, index)
  | id :: ids, index =>
      if id.vendor = 0 then (false, index)
      else if vendor = id.vendor ∧ device = id.device then
        if index ≤ 0 then (true, index) else matchIds vendor device ids (index - 1)
      else matchIds vendor device ids index

section Finding

variable (population : Population) (ids : List PciDeviceId)

def findFunction (search : Search) (dev : Nat) : Search :=
  if search.found.isSome then search
  else
    let foundMulti :=
      if pciFunc dev = 0 then readHeaderType population dev &&& 0x80 else search.foundMulti
    if pciFunc dev ≠ 0 ∧ foundMulti = 0 then search
    else
      let tried := matchIds (readVendor population dev).toUInt32
        (readDevice population dev).toUInt32 ids search.index
      ⟨tried.2, foundMulti, if tried.1 then some dev else none⟩

/-- The buses of the hose, in order. -/
def busesOf {State : Type} (hose : PciController State) : List Nat :=
  List.range' hose.firstBusno (hose.lastBusno + 1 - hose.firstBusno)

/-- pci_find_devices. `none` is the result -1. -/
def pciFindDevices {State : Type} (hoses : List (PciController State)) (index : Int) :
    Option Nat :=
  (hoses.foldl (fun search hose => (busesOf hose).foldl
    (fun search bus => (devsBelow (pciBdf bus 0 0) (pciBdf (bus + 1) 0 0)).foldl
      (findFunction population ids) search) search) ⟨index, 0, none⟩).found

end Finding

/-! ### The packed numbers -/

theorem bdf_sum (bus : Nat) {d f : Nat} (device : d < 32) (function : f < 8) :
    pciBdf bus d f = bus * 65536 + d * 2048 + f * 256 := by
  have low : f <<< 8 < 2 ^ 11 := by
    rw [Nat.shiftLeft_eq]
    omega
  have middle : d <<< 11 + f <<< 8 < 2 ^ 16 := by
    have whole : d * 2048 + f * 256 < 65536 := by omega
    simpa [Nat.shiftLeft_eq] using whole
  have inner := Nat.shiftLeft_add_eq_or_of_lt low d
  have outer := Nat.shiftLeft_add_eq_or_of_lt middle bus
  unfold pciBdf
  rw [Nat.or_assoc, ← inner, ← outer]
  simp only [Nat.shiftLeft_eq]
  omega

theorem bus_bdf {bus d f : Nat} (number : bus < 256) (device : d < 32) (function : f < 8) :
    pciBus (pciBdf bus d f) = bus := by
  unfold pciBus
  rw [bdf_sum bus device function, Nat.shiftRight_eq_div_pow, Nat.and_two_pow_sub_one_eq_mod _ 8]
  omega

theorem dev_bdf (bus : Nat) {d f : Nat} (device : d < 32) (function : f < 8) :
    pciDev (pciBdf bus d f) = d := by
  unfold pciDev
  rw [bdf_sum bus device function, Nat.shiftRight_eq_div_pow, Nat.and_two_pow_sub_one_eq_mod _ 5]
  omega

theorem func_bdf (bus : Nat) {d f : Nat} (device : d < 32) (function : f < 8) :
    pciFunc (pciBdf bus d f) = f := by
  unfold pciFunc
  rw [bdf_sum bus device function, Nat.shiftRight_eq_div_pow, Nat.and_two_pow_sub_one_eq_mod _ 3]
  omega

theorem bdf_inj {bus d f bus' d' f' : Nat} (device : d < 32) (function : f < 8)
    (device' : d' < 32) (function' : f' < 8) (same : pciBdf bus d f = pciBdf bus' d' f') :
    bus = bus' ∧ d = d' ∧ f = f' := by
  rw [bdf_sum bus device function, bdf_sum bus' device' function'] at same
  omega

/-- The numbers of the first `count` functions of a device. -/
def functionsOf (bus d count : Nat) : List Nat := (List.range count).map (pciBdf bus d)

theorem range_by_eights (n : Nat) :
    List.range (n * 8) = (List.range n).flatMap fun d => (List.range 8).map (d * 8 + ·) := by
  induction n with
  | zero => rfl
  | succ n induction =>
      rw [Nat.succ_mul, List.range_add, induction, @List.range_succ n, List.flatMap_append,
        List.flatMap_singleton]

theorem devs_bus (bus : Nat) {n : Nat} (devices : n ≤ 32) :
    (List.range (n * 8)).map (fun i => pciBdf bus 0 0 + i * pciBdf 0 0 1) =
      (List.range n).flatMap fun d => functionsOf bus d 8 := by
  rw [range_by_eights, List.map_flatMap]
  apply List.flatMap_congr
  intro d member
  have device : d < 32 := by
    have := List.mem_range.mp member
    omega
  rw [List.map_map]
  apply List.map_congr_left
  intro f member
  have function : f < 8 := List.mem_range.mp member
  rw [Function.comp_apply, bdf_sum bus device function, bdf_sum bus (by omega) (by omega),
    bdf_sum 0 (by omega) (by omega)]
  omega

/-- The loop of pci_find_devices takes all functions of the bus. -/
theorem devs_found (bus : Nat) : devsBelow (pciBdf bus 0 0) (pciBdf (bus + 1) 0 0) =
    (List.range 32).flatMap fun d => functionsOf bus d 8 := by
  have count : (pciBdf (bus + 1) 0 0 - pciBdf bus 0 0) / pciBdf 0 0 1 = 32 * 8 := by
    rw [bdf_sum (bus + 1) (by omega) (by omega), bdf_sum bus (by omega) (by omega),
      bdf_sum 0 (by omega) (by omega)]
    omega
  unfold devsBelow
  rw [count]
  exact devs_bus bus (Nat.le_refl 32)

/-- The loop of pci_hose_scan_bus leaves out the last function of the last device. -/
theorem devs_scanned (bus : Nat) : devsBelow (pciBdf bus 0 0) (pciBdf bus 31 7) =
    ((List.range 31).flatMap fun d => functionsOf bus d 8) ++ functionsOf bus 31 7 := by
  have count : (pciBdf bus 31 7 - pciBdf bus 0 0) / pciBdf 0 0 1 = 31 * 8 + 7 := by
    rw [bdf_sum bus (by omega) (by omega), bdf_sum bus (by omega) (by omega),
      bdf_sum 0 (by omega) (by omega)]
    omega
  unfold devsBelow
  rw [count, List.range_add, List.map_append, devs_bus bus (by omega)]
  apply congrArg
  rw [List.map_map]
  apply List.map_congr_left
  intro f member
  have function : f < 7 := List.mem_range.mp member
  rw [Function.comp_apply, bdf_sum bus (by omega) (by omega), bdf_sum bus (by omega) (by omega),
    bdf_sum 0 (by omega) (by omega)]
  omega

theorem slot_bdf (population : Population) {bus d f : Nat} (number : bus < 256) (device : d < 32)
    (function : f < 8) : slot population (pciBdf bus d f) = population bus d f := by
  unfold slot
  rw [bus_bdf number device function, dev_bdf bus device function, func_bdf bus device function]

/-- The scan takes a slot for a function exactly when a function answers there. -/
theorem vendor_answers (population : Population) (dev : Nat) :
    (readVendor population dev ≠ 0xffff ∧ readVendor population dev ≠ 0x0000) ↔
      (slot population dev).isSome := by
  unfold readVendor
  cases here : slot population dev with
  | none => simp
  | some function => simpa using function.answers

/-! ### What the scan configures -/

section Scanned

variable {State : Type} (hose : PciController State) (population : Population) (bus : Nat)

/-- The host bridge of the hose. -/
def HostBridge (d f : Nat) : Prop := bus = hose.firstBusno ∧ d = 0 ∧ f = 0

instance (d f : Nat) : Decidable (HostBridge hose bus d f) := by
  unfold HostBridge
  infer_instance

/-- found_multi behind function 0 of a device. -/
def announced (foundMulti : UInt8) (d : Nat) : UInt8 :=
  if HostBridge hose bus d 0 then foundMulti
  else ((population bus d 0).map fun function => function.headerType &&& 0x80).getD foundMulti

/-- The scan configures the function when `foundMulti` stands behind function 0 of its device. -/
def Taken (foundMulti : UInt8) (d f : Nat) : Prop :=
  ¬HostBridge hose bus d f ∧ (population bus d f).isSome ∧ (f = 0 ∨ foundMulti ≠ 0)

instance (foundMulti : UInt8) (d f : Nat) :
    Decidable (Taken hose population bus foundMulti d f) := by
  unfold Taken
  infer_instance

def takenOf (foundMulti : UInt8) (d count : Nat) : List Nat :=
  ((List.range count).filter fun f => Taken hose population bus foundMulti d f).map (pciBdf bus d)

/-- found_multi when the scan comes to a device: what the last function 0 before it left. -/
def flagBefore : Nat → UInt8
  | 0 => 0
  | d + 1 => announced hose population bus (flagBefore d) d

variable {bus}

theorem scan_function (number : bus < 256) {d f : Nat} (device : d < 32) (function : f < 8)
    (scan : Scan State) : ∃ state subBus,
      scanFunction hose population scan (pciBdf bus d f) =
        ⟨state, subBus,
          if f = 0 then announced hose population bus scan.foundMulti d else scan.foundMulti,
          scan.configured ++
            if Taken hose population bus scan.foundMulti d f then [pciBdf bus d f] else []⟩ := by
  have host : pciBdf bus d f = pciBdf hose.firstBusno 0 0 ↔ HostBridge hose bus d f := by
    constructor
    · intro same
      exact bdf_inj device function (by omega) (by omega) same
    · rintro ⟨rfl, rfl, rfl⟩
      rfl
  unfold scanFunction
  simp only [host, func_bdf bus device function, vendor_answers, readHeaderType,
    slot_bdf population number device function]
  by_cases bridge : HostBridge hose bus d f
  · refine ⟨scan.state, scan.subBus, ?_⟩
    obtain ⟨rfl, rfl, rfl⟩ := bridge
    simp [Taken, announced, HostBridge]
  · by_cases quiet : f ≠ 0 ∧ scan.foundMulti = 0
    · refine ⟨scan.state, scan.subBus, ?_⟩
      have skipped : ¬Taken hose population bus scan.foundMulti d f := by
        rintro ⟨_, _, zero | set⟩
        · exact quiet.1 zero
        · exact set quiet.2
      rw [if_neg bridge, if_pos quiet, if_neg quiet.1, if_neg skipped, List.append_nil]
    · have asked : f = 0 ∨ scan.foundMulti ≠ 0 := by
        by_contra closed
        exact quiet ⟨fun zero => closed (Or.inl zero), by
          by_contra set
          exact closed (Or.inr set)⟩
      cases here : population bus d f with
      | none =>
          refine ⟨scan.state, scan.subBus, ?_⟩
          by_cases zero : f = 0
          · subst zero
            simp [bridge, here, Taken, announced]
          · simp [bridge, here, Taken, zero]
      | some present =>
          refine ⟨(configureFunction hose population (pciBdf bus d f) scan.state scan.subBus).1,
            (configureFunction hose population (pciBdf bus d f) scan.state scan.subBus).2, ?_⟩
          have taken : Taken hose population bus scan.foundMulti d f :=
            ⟨bridge, by simp [here], asked⟩
          rw [if_neg bridge, if_neg quiet, if_pos Option.isSome_some, if_pos taken]
          by_cases zero : f = 0
          · subst zero
            simp [announced, bridge, here]
          · simp [zero]

/-- What function 0 leaves decides about all functions of the device. -/
theorem scan_device (number : bus < 256) {d : Nat} (device : d < 32) (scan : Scan State)
    (count : Nat) (functions : count ≤ 8) : ∃ state subBus,
      (functionsOf bus d count).foldl (scanFunction hose population) scan =
        ⟨state, subBus,
          if count = 0 then scan.foundMulti else announced hose population bus scan.foundMulti d,
          scan.configured ++ takenOf hose population bus
            (announced hose population bus scan.foundMulti d) d count⟩ := by
  induction count with
  | zero => exact ⟨scan.state, scan.subBus, by simp [functionsOf, takenOf]⟩
  | succ f induction =>
      obtain ⟨state, subBus, before⟩ := induction (by omega)
      obtain ⟨state', subBus', step⟩ := scan_function hose population number device
        (show f < 8 by omega) ((functionsOf bus d f).foldl (scanFunction hose population) scan)
      refine ⟨state', subBus', ?_⟩
      have last : functionsOf bus d (f + 1) = functionsOf bus d f ++ [pciBdf bus d f] := by
        simp [functionsOf, List.range_succ]
      rw [last, List.foldl_append, List.foldl_cons, List.foldl_nil, step, before]
      have list : takenOf hose population bus
            (announced hose population bus scan.foundMulti d) d (f + 1) =
          takenOf hose population bus (announced hose population bus scan.foundMulti d) d f ++
            if Taken hose population bus (announced hose population bus scan.foundMulti d) d f
            then [pciBdf bus d f] else [] := by
        unfold takenOf
        rw [List.range_succ, List.filter_append, List.map_append]
        by_cases taken : Taken hose population bus
          (announced hose population bus scan.foundMulti d) d f <;> simp [taken]
      rw [list]
      by_cases zero : f = 0
      · subst zero
        simp [Taken, takenOf]
      · simp [zero]

theorem scan_devices (number : bus < 256) (state : State) (n : Nat) (devices : n ≤ 32) :
    ∃ state' subBus, ((List.range n).flatMap fun d => functionsOf bus d 8).foldl
      (scanFunction hose population) ⟨state, bus, 0, []⟩ =
        ⟨state', subBus, flagBefore hose population bus n,
          (List.range n).flatMap fun d =>
            takenOf hose population bus (flagBefore hose population bus (d + 1)) d 8⟩ := by
  induction n with
  | zero => exact ⟨state, bus, rfl⟩
  | succ d induction =>
      obtain ⟨state', subBus, before⟩ := induction (by omega)
      rw [List.range_succ, List.flatMap_append, List.flatMap_singleton, List.foldl_append, before]
      obtain ⟨state'', subBus', step⟩ := scan_device hose population number
        (show d < 32 by omega) ⟨state', subBus, flagBefore hose population bus d,
          (List.range d).flatMap fun d =>
            takenOf hose population bus (flagBefore hose population bus (d + 1)) d 8⟩ 8 le_rfl
      refine ⟨state'', subBus', ?_⟩
      rw [step, List.flatMap_append, List.flatMap_singleton]
      rfl

/-- The scan stops before function 7 of device 31. -/
def reach (d : Nat) : Nat := if d = 31 then 7 else 8

theorem scan_configured (number : bus < 256) (state : State) :
    (pciHoseScanBus hose population bus state).configured = (List.range 32).flatMap fun d =>
      takenOf hose population bus (flagBefore hose population bus (d + 1)) d (reach d) := by
  unfold pciHoseScanBus
  obtain ⟨state', subBus, before⟩ := scan_devices hose population number state 31 (by omega)
  have scanned := devs_scanned bus
  simp only [PCI_MAX_PCI_DEVICES, PCI_MAX_PCI_FUNCTIONS] at scanned ⊢
  rw [scanned, List.foldl_append, before]
  obtain ⟨state'', subBus', step⟩ := scan_device hose population number (show 31 < 32 by omega)
    ⟨state', subBus, flagBefore hose population bus 31, (List.range 31).flatMap fun d =>
      takenOf hose population bus (flagBefore hose population bus (d + 1)) d 8⟩ 7 (by omega)
  rw [step, @List.range_succ 31, List.flatMap_append, List.flatMap_singleton]
  have full : ∀ d ∈ List.range 31, reach d = 8 := by
    intro d member
    have := List.mem_range.mp member
    exact if_neg (by omega)
  have last : reach 31 = 7 := rfl
  rw [last]
  refine congrArg₂ _ (List.flatMap_congr fun d member => ?_) rfl
  rw [full d member]

theorem mem_configured (number : bus < 256) (state : State) (dev : Nat) :
    dev ∈ (pciHoseScanBus hose population bus state).configured ↔
      ∃ d < 32, ∃ f < reach d, dev = pciBdf bus d f ∧
        Taken hose population bus (flagBefore hose population bus (d + 1)) d f := by
  rw [scan_configured hose population number state]
  simp only [List.mem_flatMap, takenOf, List.mem_map, List.mem_filter, List.mem_range,
    decide_eq_true_eq]
  constructor
  · rintro ⟨d, device, f, ⟨function, taken⟩, rfl⟩
    exact ⟨d, device, f, function, rfl, taken⟩
  · rintro ⟨d, device, f, function, rfl, taken⟩
    exact ⟨d, device, f, ⟨function, taken⟩, rfl⟩

end Scanned

/-! ### What the search finds -/

section Found

variable (population : Population) (ids : List PciDeviceId)

/-- How often the list names the entry, before its end mark. -/
def matching (vendor device : UInt32) : List PciDeviceId → Nat
  | [] => 0
  | id :: ids =>
      if id.vendor = 0 then 0
      else if vendor = id.vendor ∧ device = id.device then matching vendor device ids + 1
      else matching vendor device ids

theorem match_ids (vendor device : UInt32) (index : Int) :
    (matchIds vendor device ids index).1 = decide (index.toNat < matching vendor device ids) ∧
      ((matchIds vendor device ids index).1 = false →
        (matchIds vendor device ids index).2.toNat =
          index.toNat - matching vendor device ids) := by
  induction ids generalizing index with
  | nil => simp [matchIds, matching]
  | cons id ids induction =>
      unfold matchIds matching
      by_cases final : id.vendor = 0
      · simp [final]
      · rw [if_neg final, if_neg final]
        by_cases same : vendor = id.vendor ∧ device = id.device
        · rw [if_pos same, if_pos same]
          by_cases arrived : index ≤ 0
          · rw [if_pos arrived]
            have none : index.toNat = 0 := Int.toNat_of_nonpos arrived
            simp [none]
          · rw [if_neg arrived]
            rcases induction (index - 1) with ⟨hit, miss⟩
            have less : (index - 1).toNat = index.toNat - 1 := by omega
            constructor
            · rw [hit, less]
              apply decide_eq_decide.mpr
              omega
            · intro passed
              rw [miss passed, less]
              omega
        · rw [if_neg same, if_neg same]
          exact induction index

/-- The entry of a number, once for each time that the list names it. -/
def hitsAt (dev : Nat) : List Nat :=
  List.replicate (matching (readVendor population dev).toUInt32
    (readDevice population dev).toUInt32 ids) dev

/-- The hits in their order, when found_multi is `foundMulti` in front of the numbers. -/
def hits (foundMulti : UInt8) : List Nat → List Nat
  | [] => []
  | dev :: devs =>
      let foundMulti :=
        if pciFunc dev = 0 then readHeaderType population dev &&& 0x80 else foundMulti
      if pciFunc dev ≠ 0 ∧ foundMulti = 0 then hits foundMulti devs
      else hitsAt population ids dev ++ hits foundMulti devs

theorem find_over (devs : List Nat) (search : Search) (done : search.found.isSome) :
    devs.foldl (findFunction population ids) search = search := by
  induction devs with
  | nil => rfl
  | cons dev devs induction =>
      have still : findFunction population ids search dev = search := if_pos done
      rw [List.foldl_cons, still, induction]

/-- The search for an index returns the hit at the index. -/
theorem find_hits (devs : List Nat) (search : Search) (going : search.found = none) :
    (devs.foldl (findFunction population ids) search).found =
      (hits population ids search.foundMulti devs)[search.index.toNat]? := by
  induction devs generalizing search with
  | nil => simpa [hits] using going
  | cons dev devs induction =>
      have open_ : ¬search.found.isSome := by simp [going]
      rw [List.foldl_cons, findFunction, if_neg open_, hits]
      dsimp only
      by_cases skipped : pciFunc dev ≠ 0 ∧ (if pciFunc dev = 0 then
          readHeaderType population dev &&& 0x80 else search.foundMulti) = 0
      · rw [if_pos skipped, if_pos skipped, if_neg skipped.1]
        exact induction search going
      · rw [if_neg skipped, if_neg skipped]
        rcases match_ids ids (readVendor population dev).toUInt32
          (readDevice population dev).toUInt32 search.index with ⟨hit, miss⟩
        by_cases now : search.index.toNat < matching (readVendor population dev).toUInt32
          (readDevice population dev).toUInt32 ids
        · rw [decide_eq_true now] at hit
          rw [hit, find_over _ _ _ _ (by simp), if_pos rfl, List.getElem?_append_left
            (by simpa [hitsAt] using now), hitsAt, List.getElem?_replicate, if_pos now]
        · rw [decide_eq_false now] at hit
          rw [hit, if_neg Bool.false_ne_true, induction _ rfl, miss hit, List.getElem?_append_right
            (by simpa [hitsAt] using now), hitsAt, List.length_replicate]

/-- The hits on a device depend on its own function 0 only. -/
def hitsOn (place : Nat × Nat) : List Nat :=
  ((List.range 8).filter fun f =>
    f = 0 ∨ readHeaderType population (pciBdf place.1 place.2 0) &&& 0x80 ≠ 0).flatMap fun f =>
      hitsAt population ids (pciBdf place.1 place.2 f)

theorem hits_behind (foundMulti : UInt8) (bus d : Nat) (device : d < 32) (functions : List Nat)
    (behind : ∀ f ∈ functions, f ≠ 0 ∧ f < 8) (devs : List Nat) :
    hits population ids foundMulti (functions.map (pciBdf bus d) ++ devs) =
      ((functions.filter fun _ => foundMulti ≠ 0).flatMap fun f =>
        hitsAt population ids (pciBdf bus d f)) ++ hits population ids foundMulti devs := by
  induction functions with
  | nil => simp
  | cons f functions induction =>
      rcases behind f List.mem_cons_self with ⟨other, function⟩
      have rest := induction fun f member => behind f (List.mem_cons_of_mem _ member)
      rw [List.map_cons, List.cons_append, hits]
      rw [func_bdf bus device function, if_neg other, rest]
      by_cases quiet : foundMulti = 0
      · simp [quiet, other]
      · simp [quiet]

theorem hits_device (foundMulti : UInt8) (bus d : Nat) (device : d < 32) (devs : List Nat) :
    hits population ids foundMulti (functionsOf bus d 8 ++ devs) =
      hitsOn population ids (bus, d) ++
        hits population ids (readHeaderType population (pciBdf bus d 0) &&& 0x80) devs := by
  have first : functionsOf bus d 8 =
      pciBdf bus d 0 :: (List.range' 1 7).map (pciBdf bus d) := rfl
  have behind : ∀ f ∈ List.range' 1 7, f ≠ 0 ∧ f < 8 := by
    intro f member
    have := List.mem_range'_1.mp member
    omega
  have numbers : List.range 8 = 0 :: List.range' 1 7 := rfl
  rw [first, List.cons_append, hits]
  rw [func_bdf bus device (show 0 < 8 by omega), if_pos rfl, if_neg (fun other => other.1 rfl),
    hits_behind population ids _ bus d device _ behind devs, hitsOn, numbers,
    List.filter_cons_of_pos (by simp), List.flatMap_cons, List.append_assoc]
  have rest : (List.range' 1 7).filter (fun f => decide
        (f = 0 ∨ readHeaderType population (pciBdf bus d 0) &&& 0x80 ≠ 0)) =
      (List.range' 1 7).filter fun _ => decide
        (readHeaderType population (pciBdf bus d 0) &&& 0x80 ≠ 0) := by
    apply List.filter_congr
    intro f member
    simp [(behind f member).1]
  rw [rest]

theorem hits_places (foundMulti : UInt8) (places : List (Nat × Nat))
    (devices : ∀ place ∈ places, place.2 < 32) :
    hits population ids foundMulti (places.flatMap fun place => functionsOf place.1 place.2 8) =
      places.flatMap (hitsOn population ids) := by
  induction places generalizing foundMulti with
  | nil => rfl
  | cons place places induction =>
      rw [List.flatMap_cons, hits_device population ids foundMulti place.1 place.2
        (devices place List.mem_cons_self),
        induction _ fun place member => devices place (List.mem_cons_of_mem _ member)]
      rfl

/-- The devices in the order of the search. -/
def placesOf {State : Type} (hoses : List (PciController State)) : List (Nat × Nat) :=
  hoses.flatMap fun hose => (busesOf hose).flatMap fun bus => (List.range 32).map (Prod.mk bus)

theorem find_devices {State : Type} (hoses : List (PciController State)) (index : Int) :
    pciFindDevices population ids hoses index =
      ((placesOf hoses).flatMap (hitsOn population ids))[index.toNat]? := by
  have devices : ∀ place ∈ placesOf hoses, place.2 < 32 := by
    intro place member
    simp only [placesOf, List.mem_flatMap, List.mem_map, List.mem_range] at member
    rcases member with ⟨hose, _, bus, _, d, device, rfl⟩
    exact device
  have flat : (placesOf hoses).flatMap (fun place => functionsOf place.1 place.2 8) =
      hoses.flatMap fun hose => (busesOf hose).flatMap fun bus =>
        devsBelow (pciBdf bus 0 0) (pciBdf (bus + 1) 0 0) := by
    simp only [placesOf, List.flatMap_assoc, List.flatMap_map, devs_found]
  rw [← hits_places population ids 0 _ devices, flat]
  have run := find_hits population ids (hoses.flatMap fun hose => (busesOf hose).flatMap fun bus =>
    devsBelow (pciBdf bus 0 0) (pciBdf (bus + 1) 0 0)) ⟨index, 0, none⟩ rfl
  rw [← run]
  simp only [pciFindDevices, List.foldl_flatMap]

theorem mem_hits {State : Type} (hoses : List (PciController State)) (dev : Nat) :
    dev ∈ (placesOf hoses).flatMap (hitsOn population ids) ↔
      ∃ hose ∈ hoses, ∃ bus ∈ busesOf hose, ∃ d < 32, ∃ f < 8,
        (f = 0 ∨ readHeaderType population (pciBdf bus d 0) &&& 0x80 ≠ 0) ∧
        dev ∈ hitsAt population ids (pciBdf bus d f) := by
  simp only [placesOf, hitsOn, List.mem_flatMap, List.mem_map, List.mem_range, List.mem_filter,
    decide_eq_true_eq]
  constructor
  · rintro ⟨place, ⟨hose, registered, bus, served, d, device, rfl⟩, f, ⟨function, seen⟩, hit⟩
    exact ⟨hose, registered, bus, served, d, device, f, function, seen, hit⟩
  · rintro ⟨hose, registered, bus, served, d, device, f, function, seen, hit⟩
    exact ⟨(bus, d), ⟨hose, registered, bus, served, d, device, rfl⟩, f, ⟨function, seen⟩, hit⟩

end Found

/-! ### The two sets -/

section Sets

variable {State : Type} (hoses : List (PciController State)) (hose : PciController State)
variable (population : Population) (bus : Nat)

/-- A function that a driver must get to see: it is there, and its own function 0 announces it. -/
def Proper (d f : Nat) : Prop :=
  (population bus d f).isSome ∧
    (f = 0 ∨ ∃ function, population bus d 0 = some function ∧ function.headerType &&& 0x80 ≠ 0)

/-- The function is the answer to some search. -/
def Enumerated (d f : Nat) : Prop :=
  (population bus d f).isSome ∧
    ∃ ids index, pciFindDevices population ids hoses index = some (pciBdf bus d f)

/-- The scan configures the proper functions other than the host bridge, and a search enumerates
the same set. -/
structure ScansExactly (state : State) : Prop where
  configures : ∀ dev, dev ∈ (pciHoseScanBus hose population bus state).configured ↔
    ∃ d < 32, ∃ f < 8,
      dev = pciBdf bus d f ∧ ¬HostBridge hose bus d f ∧ Proper population bus d f
  enumerates : ∀ d < 32, ∀ f < 8, ¬HostBridge hose bus d f →
    (Enumerated hoses population bus d f ↔ Proper population bus d f)

/-- A device has further functions only with a function 0. When that announces them, it is not the
host bridge, and none of them is function 7 of device 31. -/
def FurtherAnnounced : Prop :=
  ∀ d < 32, ∀ f < 8, f ≠ 0 → (population bus d f).isSome →
    ∃ function, population bus d 0 = some function ∧
      (function.headerType &&& 0x80 ≠ 0 → ¬(d = 31 ∧ f = 7) ∧ ¬HostBridge hose bus d 0)

variable {hoses hose population bus}

/-- The search for the identity of a function comes to it when found_multi stands. -/
theorem enumerated_iff (registered : hose ∈ hoses) (first : hose.firstBusno ≤ bus)
    (last : bus ≤ hose.lastBusno) {d f : Nat} (device : d < 32) (function : f < 8) :
    Enumerated hoses population bus d f ↔ (population bus d f).isSome ∧
      (f = 0 ∨ readHeaderType population (pciBdf bus d 0) &&& 0x80 ≠ 0) := by
  have number : bus < 256 := Nat.lt_of_le_of_lt last hose.buses
  unfold Enumerated
  apply and_congr_right
  intro present
  constructor
  · rintro ⟨ids, index, found⟩
    rw [find_devices population ids hoses index] at found
    have hit := List.mem_of_getElem? found
    rcases (mem_hits population ids hoses _).mp hit with
      ⟨_, _, bus', _, d', device', f', function', seen, same⟩
    rcases bdf_inj device function device' function' (List.eq_of_mem_replicate same) with
      ⟨rfl, rfl, rfl⟩
    exact seen
  · intro seen
    rcases Option.isSome_iff_exists.mp present with ⟨own, here⟩
    have vendor : readVendor population (pciBdf bus d f) = own.vendor := by
      simp [readVendor, slot_bdf population number device function, here]
    have served : bus ∈ busesOf hose := by
      apply List.mem_range'_1.mpr
      omega
    have nonzero : own.vendor.toUInt32 ≠ 0 := by
      intro zero
      exact own.answers.2 (UInt16.toUInt32_inj.mp zero)
    have hit : pciBdf bus d f ∈ hitsAt population [⟨own.vendor.toUInt32,
        (readDevice population (pciBdf bus d f)).toUInt32⟩] (pciBdf bus d f) := by
      simp [hitsAt, matching, vendor, nonzero]
    have member := (mem_hits population _ hoses _).mpr
      ⟨hose, registered, bus, served, d, device, f, function, seen, hit⟩
    rcases List.mem_iff_getElem?.mp member with ⟨index, found⟩
    exact ⟨_, (index : Int), (find_devices population _ hoses index).trans found⟩

/-- The flag behind an announcing function 0 is its own. -/
theorem flag_own {d : Nat} {function : Function} (here : population bus d 0 = some function)
    (bridge : ¬HostBridge hose bus d 0) :
    flagBefore hose population bus (d + 1) = function.headerType &&& 0x80 := by
  simp [flagBefore, announced, bridge, here]

theorem flag_bridge {d : Nat} (bridge : HostBridge hose bus d 0) :
    flagBefore hose population bus (d + 1) = 0 := by
  rcases id bridge with ⟨_, rfl, _⟩
  simp [flagBefore, announced, bridge]

theorem further_of_exact (registered : hose ∈ hoses) (first : hose.firstBusno ≤ bus)
    (last : bus ≤ hose.lastBusno) {state : State}
    (exact_ : ScansExactly hoses hose population bus state) :
    FurtherAnnounced hose population bus := by
  have number : bus < 256 := Nat.lt_of_le_of_lt last hose.buses
  intro d device f function further present
  have bridge : ¬HostBridge hose bus d f := fun host => further host.2.2
  have enumerated : Enumerated hoses population bus d f ↔ _ :=
    enumerated_iff registered first last device function
  cases here : population bus d 0 with
  | none =>
      -- the empty slot reads 0xff, and the search takes that for an announcement
      have seen : readHeaderType population (pciBdf bus d 0) &&& 0x80 ≠ 0 := by
        rw [readHeaderType, slot_bdf population number device (by omega), here]
        decide
      have proper := (exact_.enumerates d device f function bridge).mp
        (enumerated.mpr ⟨present, Or.inr seen⟩)
      rcases proper.2 with zero | ⟨_, there, _⟩
      · exact absurd zero further
      · rw [here] at there
        cases there
  | some function0 =>
      refine ⟨function0, rfl, fun multi => ?_⟩
      have proper : Proper population bus d f := ⟨present, Or.inr ⟨function0, here, multi⟩⟩
      have configured := (exact_.configures (pciBdf bus d f)).mpr
        ⟨d, device, f, function, rfl, bridge, proper⟩
      rcases (mem_configured hose population number state _).mp configured with
        ⟨d', device', f', reached, same, taken⟩
      have function' : f' < 8 := by
        unfold reach at reached
        split at reached <;> omega
      rcases bdf_inj device function device' function' same with ⟨_, rfl, rfl⟩
      constructor
      · rintro ⟨rfl, rfl⟩
        exact absurd reached (by decide)
      · intro host
        rcases taken.2.2 with zero | set
        · exact further zero
        · exact set (flag_bridge host)

theorem exact_of_further (registered : hose ∈ hoses) (first : hose.firstBusno ≤ bus)
    (last : bus ≤ hose.lastBusno) (state : State)
    (further : FurtherAnnounced hose population bus) :
    ScansExactly hoses hose population bus state := by
  have number : bus < 256 := Nat.lt_of_le_of_lt last hose.buses
  constructor
  · intro dev
    rw [mem_configured hose population number state dev]
    constructor
    · rintro ⟨d, device, f, reached, rfl, bridge, present, asked⟩
      have function : f < 8 := by
        unfold reach at reached
        split at reached <;> omega
      refine ⟨d, device, f, function, rfl, bridge, present, ?_⟩
      by_cases zero : f = 0
      · exact Or.inl zero
      · rcases further d device f function zero present with ⟨function0, here, _⟩
        have set := asked.resolve_left zero
        have other : ¬HostBridge hose bus d 0 := fun host => set (flag_bridge host)
        rw [flag_own here other] at set
        exact Or.inr ⟨function0, here, set⟩
    · rintro ⟨d, device, f, function, rfl, bridge, present, asked⟩
      by_cases zero : f = 0
      · subst zero
        refine ⟨d, device, 0, ?_, rfl, bridge, present, Or.inl rfl⟩
        unfold reach
        split <;> omega
      · rcases asked.resolve_left zero with ⟨function0, here, multi⟩
        rcases further d device f function zero present with ⟨_, there, fine⟩
        rw [here] at there
        cases there
        rcases fine multi with ⟨inside, other⟩
        refine ⟨d, device, f, ?_, rfl, bridge, present, Or.inr ?_⟩
        · unfold reach
          split <;> omega
        · rw [flag_own here other]
          exact multi
  · intro d device f function _
    rw [enumerated_iff registered first last device function]
    apply and_congr_right
    intro present
    apply or_congr_right'
    intro zero
    rcases further d device f function zero present with ⟨function0, here, _⟩
    rw [readHeaderType, slot_bdf population number device (by omega), here]
    simp

/-- The scan and the search take exactly the proper functions when every further function is
announced where the two loops look for it. -/
theorem scan_bus_exact_iff (registered : hose ∈ hoses) (first : hose.firstBusno ≤ bus)
    (last : bus ≤ hose.lastBusno) (state : State) :
    ScansExactly hoses hose population bus state ↔ FurtherAnnounced hose population bus :=
  ⟨further_of_exact registered first last, exact_of_further registered first last state⟩

end Sets

/-- A host bridge without a table, for the buses 0 and 1. -/
def plainHose : PciController Unit where
  firstBusno := 0
  lastBusno := 1
  buses := Nat.le_of_ble_eq_true rfl
  configTable := []
  fixupIrq := none
  currentBusno := fun _ => 0
  pciautoConfigDevice := fun _ _ => ((), 0)

theorem card_answers : (0x168c : UInt16) ≠ 0xffff ∧ (0x168c : UInt16) ≠ 0 := by decide

def cardFunction (headerType : UInt8) : Function where
  vendor := 0x168c
  device := 0x0029
  deviceClass := 0x0280
  headerType := headerType
  answers := card_answers

/-- A card with functions 0 and `f` in a slot of bus 0, and nothing else. -/
def cardIn (device f : Nat) : Population := fun bus d g =>
  if bus = 0 ∧ d = device ∧ (g = 0 ∨ g = f) then some (cardFunction 0x80) else none

theorem card_further {device f : Nat} (inner : device ≠ 0) (inside : ¬(device = 31 ∧ f = 7)) :
    FurtherAnnounced plainHose (cardIn device f) 0 := by
  intro d _ g _ other present
  have here : d = device ∧ g = f := by
    by_contra elsewhere
    have empty : cardIn device f 0 d g = none := by
      apply if_neg
      rintro ⟨_, same, zero | last⟩
      · exact other zero
      · exact elsewhere ⟨same, last⟩
    rw [empty] at present
    cases present
  rcases here with ⟨rfl, rfl⟩
  refine ⟨cardFunction 0x80, if_pos ⟨rfl, rfl, Or.inl rfl⟩, fun _ => ⟨inside, ?_⟩⟩
  rintro ⟨_, zero, _⟩
  exact inner zero

theorem card_scanned : ScansExactly [plainHose] plainHose (cardIn 3 1) 0 () :=
  (scan_bus_exact_iff List.mem_cons_self (Nat.le_refl 0) (Nat.zero_le 1) ()).mpr
    (card_further (by decide) (by decide))

/-- Function 7 of device 31 is announced by its function 0, and the scan leaves it out. -/
theorem last_function_missed :
    ¬ScansExactly [plainHose] plainHose (cardIn 31 7) 0 () := by
  intro exact_
  have further := further_of_exact List.mem_cons_self (Nat.le_refl 0) (Nat.zero_le 1) exact_
  rcases further 31 (by decide) 7 (by decide) (by decide) rfl with ⟨function, here, inside⟩
  have same : cardFunction 0x80 = function := Option.some.inj here
  rw [← same] at inside
  exact (inside (by decide)).1 ⟨rfl, rfl⟩

end UBoot.Pci.ScanBus
