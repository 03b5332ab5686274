import UBoot.Library.Windows

/-!
pci_hose_bus_to_phys and pci_hose_phys_to_bus of drivers/pci.c: a bus address and a physical address of
a region of the controller. Addresses are unsigned 32-bit numbers, as are the sizes.
-/

namespace UBoot.Pci.HoseAddress

open Library.Windows

structure PciRegion where
  busStart : UInt32
  physStart : UInt32
  size : UInt32
  flags : UInt32
  deriving DecidableEq

def PCI_REGION_TYPE : UInt32 := 0x00000001

/-- Whether a region is of the type that is asked for. -/
def PciRegion.typed (res : PciRegion) (flags : UInt32) : Bool :=
  (res.flags ^^^ flags) &&& PCI_REGION_TYPE = 0

def PciRegion.inBus (res : PciRegion) (busAddr : UInt32) : Bool :=
  res.busStart ≤ busAddr && busAddr < res.busStart + res.size

/-- The regions of a controller, or no controller. -/
abbrev Hose := Option (List PciRegion)

def pciHosePhysToBus (hose : Hose) (physAddr flags : UInt32) : UInt32 :=
  match hose with
  | none => 0
  | some regions =>
      match regions.find? fun res =>
        res.typed flags && res.inBus (physAddr - res.physStart + res.busStart) with
      | some res => physAddr - res.physStart + res.busStart
      | none => 0

def pciHoseBusToPhys (hose : Hose) (busAddr flags : UInt32) : UInt32 :=
  match hose with
  | none => 0
  | some regions =>
      match regions.find? fun res => res.typed flags && res.inBus busAddr with
      | some res => busAddr - res.busStart + res.physStart
      | none => 0

/-! ### Regions of one type -/

/-- A region as a window from the bus to the physical addresses. -/
def PciRegion.window (res : PciRegion) : Window :=
  ⟨res.busStart.toNat, res.physStart.toNat, res.size.toNat⟩

/-- The regions of a controller of which those of one type are disjoint ranges of both spaces. -/
structure Regions where
  regions : List PciRegion
  flags : UInt32
  bus_range : ∀ res ∈ regions, res.typed flags = true → res.busStart.toNat + res.size.toNat ≤ 2 ^ 32
  phys_range : ∀ res ∈ regions, res.typed flags = true → res.physStart.toNat + res.size.toNat ≤ 2 ^ 32
  bus_apart : Apart ((regions.filter fun res => res.typed flags).map PciRegion.window)
  phys_apart : Apart (((regions.filter fun res => res.typed flags).map PciRegion.window).map Window.flip)

section
variable (hose : Regions)

/-- The regions of the type. -/
def Regions.ofType : List PciRegion := hose.regions.filter fun res => res.typed hose.flags

def Regions.toPhys (busAddr : UInt32) : UInt32 := pciHoseBusToPhys (some hose.regions) busAddr hose.flags

def Regions.toBus (physAddr : UInt32) : UInt32 := pciHosePhysToBus (some hose.regions) physAddr hose.flags

/-- Both functions take an address of a region to the other space and back. -/
structure Inverse : Prop where
  bus : ∀ res ∈ hose.ofType, ∀ busAddr : UInt32, res.window.Holds busAddr.toNat →
    hose.toBus (hose.toPhys busAddr) = busAddr
  phys : ∀ res ∈ hose.ofType, ∀ physAddr : UInt32, res.window.flip.Holds physAddr.toNat →
    hose.toPhys (hose.toBus physAddr) = physAddr

/-- The regions that the functions see: those that end below the top of the bus. -/
def Regions.seen : List PciRegion :=
  hose.ofType.filter fun res => res.busStart.toNat + res.size.toNat < 2 ^ 32

def Regions.windows : List Window := hose.seen.map PciRegion.window

end

/-! ### What the comparisons test -/

section Comparisons
variable {res : PciRegion} {address : UInt32}

/-- The end of a region that reaches the top of the bus wraps to 0, and nothing is below it. -/
theorem in_bus_iff (range : res.busStart.toNat + res.size.toNat ≤ 2 ^ 32) :
    res.inBus address = true ↔
      res.busStart.toNat + res.size.toNat < 2 ^ 32 ∧ res.window.Holds address.toNat := by
  have start := res.busStart.toNat_lt
  have bound := address.toNat_lt
  simp only [PciRegion.inBus, Bool.and_eq_true, decide_eq_true_eq, UInt32.le_iff_toNat_le,
    UInt32.lt_iff_toNat_lt, UInt32.toNat_add, Window.Holds, PciRegion.window]
  omega

theorem bus_of_phys_iff (range : res.busStart.toNat + res.size.toNat ≤ 2 ^ 32)
    (physRange : res.physStart.toNat + res.size.toNat ≤ 2 ^ 32) :
    res.inBus (address - res.physStart + res.busStart) = true ↔
      res.busStart.toNat + res.size.toNat < 2 ^ 32 ∧ res.window.flip.Holds address.toNat := by
  have start := res.busStart.toNat_lt
  have phys := res.physStart.toNat_lt
  have bound := address.toNat_lt
  rw [in_bus_iff range]
  simp only [UInt32.toNat_add, UInt32.toNat_sub, Window.Holds, Window.flip, PciRegion.window]
  omega

theorem phys_moved (physRange : res.physStart.toNat + res.size.toNat ≤ 2 ^ 32)
    (holds : res.window.Holds address.toNat) :
    (address - res.busStart + res.physStart).toNat = res.window.move address.toNat := by
  simp only [Window.Holds, PciRegion.window] at holds
  simp only [UInt32.toNat_add, UInt32.toNat_sub, Window.move, PciRegion.window]
  have bound := address.toNat_lt
  omega

theorem bus_moved (range : res.busStart.toNat + res.size.toNat ≤ 2 ^ 32)
    (holds : res.window.flip.Holds address.toNat) :
    (address - res.physStart + res.busStart).toNat = res.window.flip.move address.toNat := by
  simp only [Window.Holds, Window.flip, PciRegion.window] at holds
  simp only [UInt32.toNat_add, UInt32.toNat_sub, Window.move, Window.flip, PciRegion.window]
  have bound := address.toNat_lt
  omega

end Comparisons

section Translation
variable (hose : Regions)

theorem seen_typed {res : PciRegion} (member : res ∈ hose.seen) : res ∈ hose.ofType :=
  List.mem_of_mem_filter member

theorem typed_member {res : PciRegion} (member : res ∈ hose.ofType) :
    res ∈ hose.regions ∧ res.typed hose.flags = true := List.mem_filter.mp member

theorem windows_apart : Apart hose.windows :=
  apart_subset hose.bus_apart (List.map_subset _ fun _ member => seen_typed hose member)

theorem flipped_apart : Apart (hose.windows.map Window.flip) :=
  apart_subset hose.phys_apart
    (List.map_subset _ (List.map_subset _ fun _ member => seen_typed hose member))

/-- pci_hose_bus_to_phys goes through the windows that it sees, or to 0. -/
theorem to_phys_eq (busAddr : UInt32) :
    (hose.toPhys busAddr).toNat = (translate hose.windows busAddr.toNat).getD 0 := by
  have search : (hose.regions.find? fun res => res.typed hose.flags && res.inBus busAddr) =
      hose.seen.find? fun res => res.window.Holds busAddr.toNat := by
    rw [Regions.seen, Regions.ofType, List.filter_filter, List.find?_filter]
    apply List.find?_congr
    intro res member
    by_cases typed : res.typed hose.flags = true
    · rw [Bool.eq_iff_iff]
      simp [typed, in_bus_iff (hose.bus_range res member typed)]
    · simp [typed]
  rw [Library.Windows.translate, Regions.windows, List.find?_map, Function.comp_def, Regions.toPhys, pciHoseBusToPhys,
    search]
  cases found : hose.seen.find? fun res => res.window.Holds busAddr.toNat with
  | none => rfl
  | some res =>
      have held := List.find?_some found
      obtain ⟨member, typed⟩ := typed_member hose (seen_typed hose (List.mem_of_find?_eq_some found))
      exact phys_moved (hose.phys_range res member typed) (of_decide_eq_true held)

/-- pci_hose_phys_to_bus goes through the same windows the other way. -/
theorem to_bus_eq (physAddr : UInt32) :
    (hose.toBus physAddr).toNat =
      (translate (hose.windows.map Window.flip) physAddr.toNat).getD 0 := by
  have search : (hose.regions.find? fun res => res.typed hose.flags &&
      res.inBus (physAddr - res.physStart + res.busStart)) =
      hose.seen.find? fun res => res.window.flip.Holds physAddr.toNat := by
    rw [Regions.seen, Regions.ofType, List.filter_filter, List.find?_filter]
    apply List.find?_congr
    intro res member
    by_cases typed : res.typed hose.flags = true
    · rw [Bool.eq_iff_iff]
      simp [typed, bus_of_phys_iff (hose.bus_range res member typed) (hose.phys_range res member typed)]
    · simp [typed]
  rw [Library.Windows.translate, Regions.windows, List.map_map, List.find?_map, Regions.toBus, pciHosePhysToBus, search,
    Function.comp_def, Function.comp_def]
  cases found : hose.seen.find? fun res => res.window.flip.Holds physAddr.toNat with
  | none => rfl
  | some res =>
      have held := List.find?_some found
      obtain ⟨member, typed⟩ := typed_member hose (seen_typed hose (List.mem_of_find?_eq_some found))
      exact bus_moved (hose.bus_range res member typed) (of_decide_eq_true held)

/-- The windows of the regions that the functions see are inverse to each other. -/
theorem seen_inverse {res : PciRegion} (member : res ∈ hose.seen) :
    (∀ busAddr : UInt32, res.window.Holds busAddr.toNat →
      hose.toBus (hose.toPhys busAddr) = busAddr) ∧
    ∀ physAddr : UInt32, res.window.flip.Holds physAddr.toNat →
      hose.toPhys (hose.toBus physAddr) = physAddr := by
  have listed : res.window ∈ hose.windows := List.mem_map_of_mem member
  constructor
  · intro busAddr holds
    have there := translate_some (windows_apart hose) listed holds
    have back := translate_flip (flipped_apart hose) there
    apply UInt32.toNat_inj.mp
    rw [to_bus_eq, to_phys_eq, there, Option.getD_some, back, Option.getD_some]
  · intro physAddr holds
    have there := translate_some (flipped_apart hose) (List.mem_map_of_mem listed) holds
    have twice : (hose.windows.map Window.flip).map Window.flip = hose.windows := by
      rw [List.map_map]
      exact List.map_id _
    have back := translate_flip (twice.symm ▸ windows_apart hose) there
    rw [twice] at back
    apply UInt32.toNat_inj.mp
    rw [to_phys_eq, to_bus_eq, there, Option.getD_some, back, Option.getD_some]

/-- What the first address of a region that reaches the top of the bus comes to. -/
theorem top_lost {res : PciRegion} (member : res ∈ hose.ofType) (some_addresses : 0 < res.size.toNat)
    (top : 2 ^ 32 ≤ res.busStart.toNat + res.size.toNat) :
    hose.toBus (hose.toPhys res.busStart) ≠ res.busStart := by
  have first : res.window.Holds res.busStart.toNat := by
    simp only [Window.Holds, PciRegion.window]
    omega
  have unseen : ∀ window ∈ hose.windows, ¬ window.Holds res.busStart.toNat := by
    intro window listed holds
    obtain ⟨other, seen, rfl⟩ := List.mem_map.mp listed
    have below : other.busStart.toNat + other.size.toNat < 2 ^ 32 :=
      of_decide_eq_true (List.mem_filter.mp seen).2
    have different : other.window ≠ res.window := by
      intro same
      have start := congrArg Window.source same
      have size := congrArg Window.size same
      simp only [PciRegion.window] at start size
      omega
    exact hose.bus_apart _ (List.mem_map_of_mem (seen_typed hose seen)) _ (List.mem_map_of_mem member)
      different _ holds first
  have refused : (hose.toPhys res.busStart).toNat = 0 := by
    rw [to_phys_eq, translate_none unseen]
    rfl
  intro back
  have same : (hose.toBus (hose.toPhys res.busStart)).toNat = res.busStart.toNat := by rw [back]
  rw [to_bus_eq, refused] at same
  cases found : translate (hose.windows.map Window.flip) 0 with
  | none =>
      rw [found, Option.getD_none] at same
      have size := res.size.toNat_lt
      omega
  | some result =>
      rw [found, Option.getD_some] at same
      obtain ⟨flipped, listed, holds, moved⟩ := translate_window found
      obtain ⟨window, seen, rfl⟩ := List.mem_map.mp listed
      have reached := flip_holds holds
      rw [← moved, same] at reached
      exact unseen window seen reached

/-- The translations are inverse to each other if no region reaches the top of the bus. -/
theorem inverse_iff (hose : Regions) :
    Inverse hose ↔
      ∀ res ∈ hose.ofType, 0 < res.size.toNat → res.busStart.toNat + res.size.toNat < 2 ^ 32 := by
  constructor
  · intro inverse res member some_addresses
    by_contra top
    have first : res.window.Holds res.busStart.toNat := by
      simp only [Window.Holds, PciRegion.window]
      omega
    exact top_lost hose member some_addresses (Nat.not_lt.mp top) (inverse.bus res member _ first)
  · intro below
    have seen : ∀ res ∈ hose.ofType, 0 < res.size.toNat → res ∈ hose.seen := fun res member some =>
      List.mem_filter.mpr ⟨member, decide_eq_true (below res member some)⟩
    constructor
    · intro res member busAddr holds
      refine (seen_inverse hose (seen res member ?_)).1 busAddr holds
      simp only [Window.Holds, PciRegion.window] at holds
      omega
    · intro res member physAddr holds
      refine (seen_inverse hose (seen res member ?_)).2 physAddr holds
      simp only [Window.Holds, Window.flip, PciRegion.window] at holds
      omega

end Translation

/-- One region, which reaches the top of the bus. -/
def topRegions : Regions where
  regions := [⟨0xf0000000, 0x80000000, 0x10000000, PCI_REGION_TYPE⟩]
  flags := PCI_REGION_TYPE
  bus_range := by decide
  phys_range := by decide
  bus_apart := apart_single _
  phys_apart := apart_single _

theorem top_region_lost : ¬ Inverse topRegions := by
  intro inverse
  have member : ⟨0xf0000000, 0x80000000, 0x10000000, PCI_REGION_TYPE⟩ ∈ topRegions.ofType := by decide
  exact top_lost topRegions member (by decide) (by decide) (inverse.bus _ member _ (by decide))

end UBoot.Pci.HoseAddress
