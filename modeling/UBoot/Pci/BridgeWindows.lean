import UBoot.Pci.Cursors

/-!
What the scan programs into the bridges. Each function takes a stretch of the bus
numbers and of the cursors, and the stretches of functions beside each other follow
one another; so what a bridge finds behind it is what its registers say.
-/

namespace UBoot.Pci.BridgeWindows

open PciAuto Cursors

def secondaryOf (bridge : Bridge) : Nat := bridge.registers.secondary.toNat

def subordinateOf (bridge : Bridge) : Nat := bridge.registers.subordinate.toNat

def Decodes (bridge : Bridge) (space : Space) (address : Nat) : Prop :=
  ∃ first last, window bridge.registers space = some (first, last) ∧
    first ≤ address ∧ address ≤ last

/-- A place is behind the bridge at another one. -/
def Behind (path other : List Nat) : Prop := path <+: other ∧ path ≠ other

/-- Neither of two places is behind the other one. -/
def Beside (path other : List Nat) : Prop := ¬ path <+: other ∧ ¬ other <+: path

/-- The bus numbers of a bridge are its own and those of the bridges behind it, and its windows
hold the addresses behind it. -/
structure Lawful (bars : List Bar) (bridges : List Bridge) : Prop where
  nested : ∀ one ∈ bridges, ∀ other ∈ bridges,
    (secondaryOf one ≤ secondaryOf other ∧ subordinateOf other ≤ subordinateOf one) ∨
      (secondaryOf other ≤ secondaryOf one ∧ subordinateOf one ≤ subordinateOf other) ∨
      subordinateOf one < secondaryOf other ∨ subordinateOf other < secondaryOf one
  exactly : ∀ bridge ∈ bridges, ∀ n, (secondaryOf bridge ≤ n ∧ n ≤ subordinateOf bridge) ↔
    ∃ other ∈ bridges, bridge.path <+: other.path ∧ secondaryOf other = n
  contains : ∀ bridge ∈ bridges, ∀ bar ∈ bars, Behind bridge.path bar.path →
    Decodes bridge bar.space bar.address.toNat

/-- A window without an end: its limit was taken from a cursor at 0. -/
def Endless (bridge : Bridge) (space : Space) : Prop := Decodes bridge space (2 ^ 32 - 1)

/-- The windows for the regions of the controller that have an end. -/
structure Windows (before after : PciController) (bridges : List Bridge) : Prop where
  within : ∀ bridge ∈ bridges, ∀ space, (lowerOf before space).isSome → ¬ Endless bridge space →
    ∀ address, Decodes bridge space address → lower before space ≤ address ∧
      address < lower after space
  apart : ∀ one ∈ bridges, ∀ other ∈ bridges, Beside one.path other.path →
    ∀ space, (lowerOf before space).isSome → ¬ Endless one space → ¬ Endless other space →
      ∀ address, ¬ (Decodes one space address ∧ Decodes other space address)

/-- What a part of the scan has set up, at the places of that part. -/
structure Segment (place : List Nat → Prop) (before after : PciController) (bars : List Bar)
    (bridges : List Bridge) : Prop where
  quiet : before.wrapped = false
  climbs : Climbs before after
  numbered : before.currentBusno ≤ after.currentBusno
  newBars : after.bars = before.bars ++ bars
  newBridges : after.bridges = before.bridges ++ bridges
  barPlaces : ∀ bar ∈ bars, place bar.path
  bridgePlaces : ∀ bridge ∈ bridges, place bridge.path
  handedOut : ∀ bar ∈ bars, HandedOut before after bar
  numbers : ∀ n, (before.currentBusno < n ∧ n ≤ after.currentBusno) ↔
    ∃ bridge ∈ bridges, secondaryOf bridge = n
  ranges : ∀ bridge ∈ bridges, subordinateOf bridge ≤ after.currentBusno
  lawful : Lawful bars bridges
  windows : Windows before after bridges

section Segments

variable {place place' : List Nat → Prop} {first second third : PciController}
variable {bars bars' : List Bar} {bridges bridges' : List Bridge}

theorem lawful_bars (bars : List Bar) : Lawful bars [] where
  nested := fun _ member => absurd member List.not_mem_nil
  exactly := fun _ member => absurd member List.not_mem_nil
  contains := fun _ member => absurd member List.not_mem_nil

theorem windows_nil (before after : PciController) : Windows before after [] where
  within := fun _ member => absurd member List.not_mem_nil
  apart := fun _ member => absurd member List.not_mem_nil

/-- A part of the scan that comes to no bridge. -/
theorem segment_bars (quiet : first.wrapped = false) (climbs : Climbs first second)
    (newBars : second.bars = first.bars ++ bars) (newBridges : second.bridges = first.bridges)
    (current : second.currentBusno = first.currentBusno) (places : ∀ bar ∈ bars, place bar.path)
    (handed : ∀ bar ∈ bars, HandedOut first second bar) :
    Segment place first second bars [] where
  quiet := quiet
  climbs := climbs
  numbered := Nat.le_of_eq current.symm
  newBars := newBars
  newBridges := by rw [newBridges, List.append_nil]
  barPlaces := places
  bridgePlaces := fun _ member => absurd member List.not_mem_nil
  handedOut := handed
  numbers := by
    intro n
    constructor
    · rintro ⟨above, below⟩
      omega
    · rintro ⟨_, member, _⟩
      exact absurd member List.not_mem_nil
  ranges := fun _ member => absurd member List.not_mem_nil
  lawful := lawful_bars bars
  windows := windows_nil first second

theorem segment_weaken (segment : Segment place first second bars bridges)
    (wide : ∀ path, place path → place' path) : Segment place' first second bars bridges :=
  { segment with
    barPlaces := fun bar member => wide _ (segment.barPlaces bar member)
    bridgePlaces := fun bridge member => wide _ (segment.bridgePlaces bridge member) }

theorem range_ordered (segment : Segment place first second bars bridges) {bridge : Bridge}
    (member : bridge ∈ bridges) :
    first.currentBusno < secondaryOf bridge ∧ secondaryOf bridge ≤ second.currentBusno ∧
      secondaryOf bridge ≤ subordinateOf bridge ∧ subordinateOf bridge ≤ second.currentBusno := by
  have own := (segment.numbers (secondaryOf bridge)).mpr ⟨bridge, member, rfl⟩
  have inside := (segment.lawful.exactly bridge member (secondaryOf bridge)).mpr
    ⟨bridge, member, List.prefix_rfl, rfl⟩
  exact ⟨own.1, own.2, inside.2, segment.ranges bridge member⟩

/-- Functions at places beside each other, one after the other. -/
theorem lawful_append (one : Segment place first second bars bridges)
    (two : Segment place' second third bars' bridges')
    (beside : ∀ path other, place path → place' other → Beside path other) :
    Lawful (bars ++ bars') (bridges ++ bridges') where
  nested := by
    intro left leftIn right rightIn
    rcases List.mem_append.mp leftIn with leftOne | leftTwo <;>
      rcases List.mem_append.mp rightIn with rightOne | rightTwo
    · exact one.lawful.nested left leftOne right rightOne
    · have := range_ordered one leftOne
      have := range_ordered two rightTwo
      omega
    · have := range_ordered two leftTwo
      have := range_ordered one rightOne
      omega
    · exact two.lawful.nested left leftTwo right rightTwo
  exactly := by
    intro bridge member n
    rcases List.mem_append.mp member with inOne | inTwo
    · rw [one.lawful.exactly bridge inOne n]
      constructor
      · rintro ⟨other, otherIn, rest⟩
        exact ⟨other, List.mem_append_left _ otherIn, rest⟩
      · rintro ⟨other, otherIn, under, same⟩
        rcases List.mem_append.mp otherIn with otherOne | otherTwo
        · exact ⟨other, otherOne, under, same⟩
        · exact absurd under (beside _ _ (one.bridgePlaces bridge inOne)
            (two.bridgePlaces other otherTwo)).1
    · rw [two.lawful.exactly bridge inTwo n]
      constructor
      · rintro ⟨other, otherIn, rest⟩
        exact ⟨other, List.mem_append_right _ otherIn, rest⟩
      · rintro ⟨other, otherIn, under, same⟩
        rcases List.mem_append.mp otherIn with otherOne | otherTwo
        · exact absurd under (beside _ _ (one.bridgePlaces other otherOne)
            (two.bridgePlaces bridge inTwo)).2
        · exact ⟨other, otherTwo, under, same⟩
  contains := by
    intro bridge member bar barIn behind
    rcases List.mem_append.mp member with inOne | inTwo <;>
      rcases List.mem_append.mp barIn with barOne | barTwo
    · exact one.lawful.contains bridge inOne bar barOne behind
    · exact absurd behind.1 (beside _ _ (one.bridgePlaces bridge inOne)
        (two.barPlaces bar barTwo)).1
    · exact absurd behind.1 (beside _ _ (one.barPlaces bar barOne)
        (two.bridgePlaces bridge inTwo)).2
    · exact two.lawful.contains bridge inTwo bar barTwo behind

theorem windows_append (one : Segment place first second bars bridges)
    (two : Segment place' second third bars' bridges') :
    Windows first third (bridges ++ bridges') := by
  have there : ∀ space, (lowerOf first space).isSome → (lowerOf second space).isSome :=
    fun space here => (one.climbs space).1 ▸ here
  constructor
  · intro bridge member space here ends address decodes
    rcases List.mem_append.mp member with inOne | inTwo
    · have within := one.windows.within bridge inOne space here ends address decodes
      exact ⟨within.1, Nat.lt_of_lt_of_le within.2 (two.climbs space).2⟩
    · have within := two.windows.within bridge inTwo space (there space here) ends address decodes
      exact ⟨Nat.le_trans (one.climbs space).2 within.1, within.2⟩
  · rintro bridge member other otherIn beside space here ends ends' address ⟨decodes, decodes'⟩
    rcases List.mem_append.mp member with inOne | inTwo <;>
      rcases List.mem_append.mp otherIn with otherOne | otherTwo
    · exact one.windows.apart bridge inOne other otherOne beside space here ends ends' address
        ⟨decodes, decodes'⟩
    · have low := one.windows.within bridge inOne space here ends address decodes
      have high :=
        two.windows.within other otherTwo space (there space here) ends' address decodes'
      omega
    · have high :=
        two.windows.within bridge inTwo space (there space here) ends address decodes
      have low := one.windows.within other otherOne space here ends' address decodes'
      omega
    · exact two.windows.apart bridge inTwo other otherTwo beside space (there space here) ends ends'
        address ⟨decodes, decodes'⟩

theorem segment_append (one : Segment place first second bars bridges)
    (two : Segment place' second third bars' bridges')
    (beside : ∀ path other, place path → place' other → Beside path other) :
    Segment (fun path => place path ∨ place' path) first third (bars ++ bars')
      (bridges ++ bridges') where
  quiet := one.quiet
  climbs := climbs_trans one.climbs two.climbs
  numbered := Nat.le_trans one.numbered two.numbered
  newBars := by rw [two.newBars, one.newBars, List.append_assoc]
  newBridges := by rw [two.newBridges, one.newBridges, List.append_assoc]
  barPlaces := by
    intro bar member
    rcases List.mem_append.mp member with inOne | inTwo
    · exact .inl (one.barPlaces bar inOne)
    · exact .inr (two.barPlaces bar inTwo)
  bridgePlaces := by
    intro bridge member
    rcases List.mem_append.mp member with inOne | inTwo
    · exact .inl (one.bridgePlaces bridge inOne)
    · exact .inr (two.bridgePlaces bridge inTwo)
  handedOut := by
    intro bar member
    rcases List.mem_append.mp member with inOne | inTwo
    · exact handed_widen (one.handedOut bar inOne) (climbs_refl first) two.climbs
    · exact handed_widen (two.handedOut bar inTwo) one.climbs (climbs_refl third)
  numbers := by
    intro n
    have left := one.numbers n
    have right := two.numbers n
    simp only [List.mem_append, or_and_right, exists_or, ← left, ← right]
    have low := one.numbered
    have high := two.numbered
    omega
  ranges := by
    intro bridge member
    rcases List.mem_append.mp member with inOne | inTwo
    · exact Nat.le_trans (one.ranges bridge inOne) two.numbered
    · exact two.ranges bridge inTwo
  lawful := lawful_append one two beside
  windows := windows_append one two

end Segments

/-! ### The registers of one function -/

theorem allocate_current {hose next : PciController} {space : Space} {size addr : UInt32}
    (allocated : regionAllocate hose space size = some (addr, next)) :
    next.currentBusno = hose.currentBusno := by
  unfold regionAllocate at allocated
  split at allocated
  · cases allocated
  · dsimp only at allocated
    split at allocated
    · cases allocated
    · obtain ⟨rfl, rfl⟩ := Prod.mk.inj (Option.some.inj allocated)
      rfl

theorem setup_current (responses : Nat → UInt32) (path : List Nat) (left bar : Nat)
    (hose : PciController) :
    (setupBars responses path left bar hose).currentBusno = hose.currentBusno := by
  fun_induction setupBars responses path left bar hose with
  | case1 bar hose => rfl
  | case2 left bar hose zero inductive_hypothesis => exact inductive_hypothesis
  | case3 left bar hose zero decoded refused inductive_hypothesis => exact inductive_hypothesis
  | case4 bar hose zero decoded addr next allocated updated wide =>
      have kept : next.currentBusno = hose.currentBusno := allocate_current allocated
      exact kept
  | case5 bar hose zero decoded addr next allocated updated wide left inductive_hypothesis =>
      have kept : next.currentBusno = hose.currentBusno := allocate_current allocated
      exact inductive_hypothesis.trans kept
  | case6 left bar hose zero decoded addr next allocated updated narrow inductive_hypothesis =>
      have kept : next.currentBusno = hose.currentBusno := allocate_current allocated
      exact inductive_hypothesis.trans kept

/-- What the setup of a function assigns. -/
structure SetUp (path : List Nat) (before after : PciController) (bars : List Bar) : Prop where
  quiet : before.wrapped = false
  climbs : Climbs before after
  newBars : after.bars = before.bars ++ bars
  newBridges : after.bridges = before.bridges
  own : ∀ bar ∈ bars, bar.path = path ∧ HandedOut before after bar

theorem setup_refl {path : List Nat} {hose : PciController} (quiet : hose.wrapped = false) :
    SetUp path hose hose [] where
  quiet := quiet
  climbs := climbs_refl hose
  newBars := (List.append_nil _).symm
  newBridges := rfl
  own := fun _ member => absurd member List.not_mem_nil

theorem setup_cons {path : List Nat} {hose next after : PciController} {space : Space}
    {size addr : UInt32} {bars : List Bar}
    (allocated : regionAllocate hose space size = some (addr, next))
    (rest : SetUp path { next with bars := next.bars ++ [⟨path, space, addr, size⟩] } after bars) :
    SetUp path hose after (⟨path, space, addr, size⟩ :: bars) := by
  obtain ⟨quiet, climbs, handed, sameBars, sameBridges, _⟩ :=
    allocate_handed allocated path rest.quiet
  have climbs' : Climbs next after := rest.climbs
  refine ⟨quiet, climbs_trans climbs climbs', ?_, rest.newBridges.trans sameBridges, ?_⟩
  · rw [rest.newBars, sameBars, List.append_assoc]
    rfl
  · intro bar member
    rcases List.mem_cons.mp member with rfl | later
    · exact ⟨rfl, handed_widen handed (climbs_refl hose) climbs'⟩
    · obtain ⟨place, handed'⟩ := rest.own bar later
      have handed' : HandedOut next after bar := handed'
      exact ⟨place, handed_widen handed' climbs (climbs_refl after)⟩

theorem setup_bars (responses : Nat → UInt32) (path : List Nat) (left bar : Nat)
    (hose : PciController)
    (quiet : (setupBars responses path left bar hose).wrapped = false) :
    ∃ bars, SetUp path hose (setupBars responses path left bar hose) bars := by
  fun_induction setupBars responses path left bar hose with
  | case1 bar hose => exact ⟨[], setup_refl quiet⟩
  | case2 left bar hose zero inductive_hypothesis => exact inductive_hypothesis quiet
  | case3 left bar hose zero decoded refused inductive_hypothesis =>
      obtain ⟨bars, rest⟩ := inductive_hypothesis quiet
      exact ⟨bars, rest.quiet, rest.climbs, rest.newBars, rest.newBridges, rest.own⟩
  | case4 bar hose zero decoded addr next allocated updated wide =>
      exact ⟨_, setup_cons allocated (setup_refl quiet)⟩
  | case5 bar hose zero decoded addr next allocated updated wide left inductive_hypothesis =>
      obtain ⟨bars, rest⟩ := inductive_hypothesis quiet
      exact ⟨_, setup_cons allocated rest⟩
  | case6 left bar hose zero decoded addr next allocated updated narrow inductive_hypothesis =>
      obtain ⟨bars, rest⟩ := inductive_hypothesis quiet
      exact ⟨_, setup_cons allocated rest⟩

/-! ### A bridge -/

/-- What a bridge is programmed with: the controller before its bus is scanned, and behind it. -/
def bridgeAt (path : List Nat) (second third : PciController) (bus number subBus : Nat) : Bridge where
  path := path
  registers := { (pciautoPrescanSetupBridge second bus number).2 with
    subordinate := UInt8.ofNat subBus
    memoryLimit := (lowerOf (alignAll third) .mem).map memoryLimit
    prefMemoryLimit :=
      match lowerOf (alignAll third) .prefetch with
      | some lower => some (memoryLimit lower)
      | none => (pciautoPrescanSetupBridge second bus number).2.prefMemoryLimit
    ioLimit := (lowerOf (alignAll third) .io).map ioLimit }

theorem postscan_bridges (path : List Nat) (second third : PciController) (bus number subBus : Nat) :
    (pciautoPostscanSetupBridge third path subBus
      (pciautoPrescanSetupBridge second bus number).2).bridges =
        third.bridges ++ [bridgeAt path second third bus number subBus] := by
  show (alignAll third).bridges ++ _ = _
  rw [(align_all_fields third).2.1]
  rfl

section Bridges

variable {path : List Nat} {second third : PciController} {bus number subBus : Nat}

/-- The window for a region that the controller has. -/
theorem bridge_window {space : Space} {low high : UInt32}
    (first : lowerOf (alignAll second) space = some low)
    (last : lowerOf (alignAll third) space = some high) :
    window (bridgeAt path second third bus number subBus).registers space =
      some (low.toNat, (high - 1).toNat) := by
  have aligned : 2 ^ windowBits space ∣ low.toNat := by
    have multiple := align_all_multiple second space
    unfold lower at multiple
    rw [first] at multiple
    exact multiple
  have aligned' : 2 ^ windowBits space ∣ high.toNat := by
    have multiple := align_all_multiple third space
    unfold lower at multiple
    rw [last] at multiple
    exact multiple
  have value := window_value space aligned aligned'
  cases space with
  | mem => simp [window, bridgeAt, pciautoPrescanSetupBridge, first, last, ← value]
  | prefetch => simp [window, bridgeAt, pciautoPrescanSetupBridge, first, last, ← value]
  | io => simp [window, bridgeAt, pciautoPrescanSetupBridge, first, last, ← value]

theorem bridge_contains {bar : Bar} (handed : HandedOut (alignAll second) third bar)
    (climbs : Climbs (alignAll second) (alignAll third)) (up : Climbs third (alignAll third)) :
    Decodes (bridgeAt path second third bus number subBus) bar.space bar.address.toNat := by
  obtain ⟨here, above, below, empty⟩ := handed
  obtain ⟨low, first⟩ := Option.isSome_iff_exists.mp here
  have there : (lowerOf (alignAll third) bar.space).isSome := by
    rw [(climbs bar.space).1]
    exact here
  obtain ⟨high, last⟩ := Option.isSome_iff_exists.mp there
  have lowest : lower (alignAll second) bar.space = low.toNat := by
    unfold lower
    rw [first]
    rfl
  have highest : lower third bar.space ≤ high.toNat := by
    have step := (up bar.space).2
    unfold lower at step ⊢
    rw [last] at step
    exact step
  refine ⟨_, _, bridge_window first last, by omega, ?_⟩
  rw [last_address]
  have bound := bar.address.toNat_lt
  by_cases nothing : bar.size = 0
  · have zero := (empty nothing).2
    rw [zero]
    exact Nat.zero_le _
  · have positive : 0 < bar.size.toNat := by
      rw [Nat.pos_iff_ne_zero]
      exact fun same => nothing (UInt32.toNat.inj same)
    split <;> omega

theorem bridge_within (climbs : Climbs (alignAll second) (alignAll third)) {space : Space}
    (here : (lowerOf (alignAll second) space).isSome)
    (ends : ¬ Endless (bridgeAt path second third bus number subBus) space) {address : Nat}
    (decodes : Decodes (bridgeAt path second third bus number subBus) space address) :
    lower (alignAll second) space ≤ address ∧ address < lower (alignAll third) space := by
  obtain ⟨low, first⟩ := Option.isSome_iff_exists.mp here
  have there : (lowerOf (alignAll third) space).isSome := by
    rw [(climbs space).1]
    exact here
  obtain ⟨high, last⟩ := Option.isSome_iff_exists.mp there
  obtain ⟨_, _, programmed, above, below⟩ := decodes
  rw [bridge_window first last] at programmed
  obtain ⟨rfl, rfl⟩ := Prod.mk.inj (Option.some.inj programmed)
  have positive : high.toNat ≠ 0 := by
    intro zero
    have end' : (high - 1).toNat = 2 ^ 32 - 1 := by rw [last_address, if_pos zero]
    exact ends ⟨_, _, bridge_window first last, Nat.le_of_lt_succ low.toNat_lt, by rw [end']⟩
  unfold lower
  rw [last, first]
  simp only [Option.getD_some]
  rw [last_address, if_neg positive] at below
  omega

theorem behind_not {path other : List Nat} (behind : Behind path other) : ¬ other <+: path :=
  fun back => behind.2 (behind.1.eq_of_length (Nat.le_antisymm behind.1.length_le back.length_le))

/-- The bridge with what is behind it, and its own addresses in front of it. -/
theorem lawful_bridge {own bars : List Bar} {bridges : List Bridge} {bridge : Bridge}
    {before after : PciController} (segment : Segment (Behind bridge.path) before after bars bridges)
    (owned : ∀ bar ∈ own, bar.path = bridge.path)
    (secondary : secondaryOf bridge = before.currentBusno)
    (subordinate : subordinateOf bridge = after.currentBusno)
    (contains : ∀ bar ∈ bars, Decodes bridge bar.space bar.address.toNat) :
    Lawful (own ++ bars) (bridges ++ [bridge]) where
  nested := by
    intro one oneIn other otherIn
    rcases List.mem_append.mp oneIn with oneBehind | oneSelf <;>
      rcases List.mem_append.mp otherIn with otherBehind | otherSelf
    · exact segment.lawful.nested one oneBehind other otherBehind
    · have inside := range_ordered segment oneBehind
      rw [List.mem_singleton.mp otherSelf]
      omega
    · have inside := range_ordered segment otherBehind
      rw [List.mem_singleton.mp oneSelf]
      omega
    · rw [List.mem_singleton.mp oneSelf, List.mem_singleton.mp otherSelf]
      exact .inl ⟨Nat.le_refl _, Nat.le_refl _⟩
  exactly := by
    intro one oneIn n
    rcases List.mem_append.mp oneIn with oneBehind | oneSelf
    · rw [segment.lawful.exactly one oneBehind n]
      constructor
      · rintro ⟨other, otherIn, rest⟩
        exact ⟨other, List.mem_append_left _ otherIn, rest⟩
      · rintro ⟨other, otherIn, under, same⟩
        rcases List.mem_append.mp otherIn with otherBehind | otherSelf
        · exact ⟨other, otherBehind, under, same⟩
        · rw [List.mem_singleton.mp otherSelf] at under
          exact absurd under (behind_not (segment.bridgePlaces one oneBehind))
    · rw [List.mem_singleton.mp oneSelf, secondary, subordinate]
      have numbers := segment.numbers n
      have ordered := segment.numbered
      constructor
      · rintro ⟨low, high⟩
        by_cases self : n = before.currentBusno
        · exact ⟨bridge, List.mem_append_right _ (List.mem_singleton.mpr rfl), List.prefix_rfl,
            secondary.trans self.symm⟩
        · obtain ⟨other, member, same⟩ := numbers.mp ⟨by omega, high⟩
          exact ⟨other, List.mem_append_left _ member, (segment.bridgePlaces other member).1, same⟩
      · rintro ⟨other, otherIn, _, same⟩
        rcases List.mem_append.mp otherIn with otherBehind | otherSelf
        · have inside := numbers.mpr ⟨other, otherBehind, same⟩
          omega
        · rw [List.mem_singleton.mp otherSelf, secondary] at same
          omega
  contains := by
    intro one oneIn bar barIn under
    rcases List.mem_append.mp oneIn with oneBehind | oneSelf <;>
      rcases List.mem_append.mp barIn with barOwn | barBehind
    · rw [owned bar barOwn] at under
      exact absurd under.1 (behind_not (segment.bridgePlaces one oneBehind))
    · exact segment.lawful.contains one oneBehind bar barBehind under
    · rw [List.mem_singleton.mp oneSelf] at under
      exact absurd (owned bar barOwn).symm under.2
    · rw [List.mem_singleton.mp oneSelf]
      exact contains bar barBehind

/-- The bridge and what is behind it. -/
theorem segment_bridge {first : PciController} {own bars : List Bar} {bridges : List Bridge}
    (setUp : SetUp path { first with currentBusno := number } second own)
    (next : number = first.currentBusno + 1) (current : second.currentBusno = number)
    (behind : Segment (Behind path) (alignAll second) third bars bridges)
    (quiet : (alignAll third).wrapped = false) (few : third.currentBusno < 256)
    (deepest : subBus = third.currentBusno) :
    Segment (path <+: ·) first (pciautoPostscanSetupBridge third path subBus
        (pciautoPrescanSetupBridge second bus number).2) (own ++ bars)
      (bridges ++ [bridgeAt path second third bus number subBus]) := by
  have up : Climbs third (alignAll third) := align_all_climbs quiet
  have start : Climbs second (alignAll second) := align_all_climbs behind.quiet
  have own_climbs : Climbs first second := setUp.climbs
  have whole : Climbs (alignAll second) (alignAll third) := climbs_trans behind.climbs up
  have numbered : number ≤ third.currentBusno := by
    have step := behind.numbered
    rw [(align_all_fields second).2.2, current] at step
    exact step
  have secondary : secondaryOf (bridgeAt path second third bus number subBus) = number :=
    UInt8.toNat_ofNat_of_lt' (Nat.lt_of_le_of_lt numbered few)
  have subordinate : subordinateOf (bridgeAt path second third bus number subBus) =
      third.currentBusno := by
    rw [← deepest]
    exact UInt8.toNat_ofNat_of_lt' (by rw [deepest]; exact few)
  have final_climbs : Climbs first (alignAll third) :=
    climbs_trans own_climbs (climbs_trans start whole)
  have before_bus : (alignAll second).currentBusno = number :=
    (align_all_fields second).2.2.trans current
  have after_bus : (alignAll third).currentBusno = third.currentBusno := (align_all_fields third).2.2
  have owned : ∀ bar ∈ own, bar.path = path := fun bar member => (setUp.own bar member).1
  refine ⟨setUp.quiet, final_climbs, ?_, ?_, ?_, ?_, ?_, ?_, ?_, ?_, ?_, ⟨?_, ?_⟩⟩
  · show first.currentBusno ≤ (alignAll third).currentBusno
    omega
  · show (alignAll third).bars = _
    rw [(align_all_fields third).1, behind.newBars, (align_all_fields second).1, setUp.newBars,
      List.append_assoc]
  · rw [postscan_bridges, behind.newBridges, (align_all_fields second).2.1, setUp.newBridges,
      List.append_assoc]
  · intro bar member
    rcases List.mem_append.mp member with isOwn | isBehind
    · rw [owned bar isOwn]
    · exact (behind.barPlaces bar isBehind).1
  · intro bridge member
    rcases List.mem_append.mp member with isBehind | self
    · exact (behind.bridgePlaces bridge isBehind).1
    · rw [List.mem_singleton.mp self]
      exact List.prefix_rfl
  · intro bar member
    rcases List.mem_append.mp member with isOwn | isBehind
    · have handed : HandedOut first second bar := (setUp.own bar isOwn).2
      exact handed_widen handed (climbs_refl first) (climbs_trans start whole)
    · exact handed_widen (behind.handedOut bar isBehind) (climbs_trans own_climbs start) up
  · intro n
    have inner := behind.numbers n
    rw [before_bus] at inner
    show first.currentBusno < n ∧ n ≤ (alignAll third).currentBusno ↔ _
    simp only [List.mem_append, List.mem_singleton, or_and_right, exists_or, ← inner,
      exists_eq_left, secondary]
    omega
  · intro bridge member
    show subordinateOf bridge ≤ (alignAll third).currentBusno
    rcases List.mem_append.mp member with isBehind | self
    · rw [after_bus]
      exact behind.ranges bridge isBehind
    · rw [List.mem_singleton.mp self, subordinate, after_bus]
  · exact lawful_bridge behind owned (secondary.trans before_bus.symm) subordinate
      fun bar member => bridge_contains (behind.handedOut bar member) whole up
  · intro bridge member space here ends address decodes
    have low : (lowerOf (alignAll second) space).isSome := by
      rw [(climbs_trans own_climbs start space).1]
      exact here
    have before := (climbs_trans own_climbs start space).2
    show _ ∧ address < lower (alignAll third) space
    rcases List.mem_append.mp member with isBehind | self
    · have inside := behind.windows.within bridge isBehind space low ends address decodes
      exact ⟨Nat.le_trans before inside.1, Nat.lt_of_lt_of_le inside.2 (up space).2⟩
    · rw [List.mem_singleton.mp self] at decodes ends
      have inside := bridge_within whole low ends decodes
      exact ⟨Nat.le_trans before inside.1, inside.2⟩
  · intro one oneIn other otherIn beside space here
    have low : (lowerOf (alignAll second) space).isSome := by
      rw [(climbs_trans own_climbs start space).1]
      exact here
    rcases List.mem_append.mp oneIn with oneBehind | oneSelf <;>
      rcases List.mem_append.mp otherIn with otherBehind | otherSelf
    · exact behind.windows.apart one oneBehind other otherBehind beside space low
    · rw [List.mem_singleton.mp otherSelf] at beside
      exact absurd (behind.bridgePlaces one oneBehind).1 beside.2
    · rw [List.mem_singleton.mp oneSelf] at beside
      exact absurd (behind.bridgePlaces other otherBehind).1 beside.1
    · rw [List.mem_singleton.mp oneSelf, List.mem_singleton.mp otherSelf] at beside
      exact absurd List.prefix_rfl beside.1

end Bridges

/-! ### The scan -/

/-- The controller when the registers of a bridge are set up, with its number handed out. -/
def bridgeSetup (path : List Nat) (responses : Nat → UInt32) (hose : PciController) : PciController :=
  pciautoSetupDevice responses path 2 { hose with currentBusno := hose.currentBusno + 1 }

/-- The scan of the bus behind a bridge. -/
def bridgeScan (path : List Nat) (responses : Nat → UInt32) (behind : Bus) (hose : PciController) :
    Scan :=
  scanSlots path (hose.currentBusno + 1) 0 behind
    ⟨alignAll (bridgeSetup path responses hose), hose.currentBusno + 1, 0⟩

theorem config_bridge (path : List Nat) (bus : Nat) (responses : Nat → UInt32) (behind : Bus)
    (hose : PciController) :
    (pciautoConfigDevice path bus (.bridge responses behind) hose).1 =
        pciautoPostscanSetupBridge (bridgeScan path responses behind hose).hose path
          (max (bridgeScan path responses behind hose).subBus (bus % 256))
          (pciautoPrescanSetupBridge (bridgeSetup path responses hose) (bus % 256)
            (hose.currentBusno + 1)).2 ∧
      (pciautoConfigDevice path bus (.bridge responses behind) hose).2 =
        (bridgeScan path responses behind hose).hose.currentBusno := by
  unfold pciautoConfigDevice
  exact ⟨rfl, (align_all_fields _).2.2⟩

theorem postscan_current (path : List Nat) (hose : PciController) (subBus : Nat)
    (registers : Registers) :
    (pciautoPostscanSetupBridge hose path subBus registers).currentBusno = hose.currentBusno :=
  (align_all_fields hose).2.2

theorem setup_number (path : List Nat) (responses : Nat → UInt32) (hose : PciController) :
    (alignAll (bridgeSetup path responses hose)).currentBusno = hose.currentBusno + 1 :=
  (align_all_fields _).2.2.trans (setup_current responses path 3 0 _)

mutual

/-- The bus numbers: the result of a configuration is the last number, if it comes to a bridge. -/
theorem config_numbers (path : List Nat) (bus : Nat) :
    ∀ node hose, bus % 256 ≤ hose.currentBusno →
      hose.currentBusno ≤ (pciautoConfigDevice path bus node hose).1.currentBusno ∧
        max hose.currentBusno (pciautoConfigDevice path bus node hose).2 =
          (pciautoConfigDevice path bus node hose).1.currentBusno
  | .device device, hose, behind => by
      unfold pciautoConfigDevice
      split
      · exact ⟨Nat.le_refl _, Nat.max_eq_left behind⟩
      · have same : (pciautoSetupDevice device.responses path 6 hose).currentBusno =
            hose.currentBusno := setup_current device.responses path 7 0 hose
        dsimp only
        rw [same]
        exact ⟨Nat.le_refl _, Nat.max_eq_left behind⟩
  | .bridge responses behind, hose, _ => by
      have start := setup_number path responses hose
      have scanned := slots_numbers path (hose.currentBusno + 1) 0 behind
        ⟨alignAll (bridgeSetup path responses hose), hose.currentBusno + 1, 0⟩ start.symm
        (by rw [start]; exact Nat.mod_le _ _)
      have more : hose.currentBusno + 1 ≤
          (bridgeScan path responses behind hose).hose.currentBusno := by
        rw [← start]
        exact scanned.2
      rw [(config_bridge path bus responses behind hose).1,
        (config_bridge path bus responses behind hose).2, postscan_current]
      exact ⟨by omega, Nat.max_eq_right (by omega)⟩

theorem slots_numbers (path : List Nat) (bus : Nat) :
    ∀ index slots scan, scan.subBus = scan.hose.currentBusno → bus % 256 ≤ scan.hose.currentBusno →
      (scanSlots path bus index slots scan).subBus =
          (scanSlots path bus index slots scan).hose.currentBusno ∧
        scan.hose.currentBusno ≤ (scanSlots path bus index slots scan).hose.currentBusno
  | _, .empty, _, number, _ => ⟨number, Nat.le_refl _⟩
  | index, .cons slot node rest, scan, number, behind => by
      unfold scanSlots
      split
      · exact slots_numbers path bus (index + 1) rest scan number behind
      · have done := config_numbers (path ++ [index]) bus node scan.hose behind
        have later := slots_numbers path bus (index + 1) rest
          ⟨(pciautoConfigDevice (path ++ [index]) bus node scan.hose).1,
            max scan.subBus (pciautoConfigDevice (path ++ [index]) bus node scan.hose).2,
            announces slot scan.foundMulti⟩
          (by rw [number]; exact done.2) (Nat.le_trans behind done.1)
        exact ⟨later.1, Nat.le_trans done.1 later.2⟩

end

/-- The places from a position on of the bus behind a bridge. -/
def From (path : List Nat) (index : Nat) (other : List Nat) : Prop :=
  ∃ i, index ≤ i ∧ path ++ [i] <+: other

theorem from_beside {path other other' : List Nat} {index : Nat}
    (here : path ++ [index] <+: other) (later : From path (index + 1) other') :
    Beside other other' := by
  obtain ⟨i, above, there⟩ := later
  -- both at and behind two positions of one bus
  have apart : ∀ longer, path ++ [index] <+: longer → ¬ path ++ [i] <+: longer := by
    intro longer one two
    have same := List.prefix_of_prefix_length_le one two (by simp)
    have equal := List.append_cancel_left (same.eq_of_length (by simp))
    have number : index = i := List.head_eq_of_cons_eq equal
    omega
  exact ⟨fun under => apart other' (here.trans under) there,
    fun under => apart other here (there.trans under)⟩

theorem from_behind {path other : List Nat} {index : Nat} (here : From path index other) :
    Behind path other := by
  obtain ⟨i, _, there⟩ := here
  refine ⟨(List.prefix_append path [i]).trans there, ?_⟩
  rintro rfl
  have longer := there.length_le
  simp at longer

mutual

theorem config_segment (path : List Nat) (bus : Nat) :
    ∀ node hose, bus % 256 ≤ hose.currentBusno →
      (pciautoConfigDevice path bus node hose).1.wrapped = false →
      (pciautoConfigDevice path bus node hose).1.currentBusno < 256 →
      ∃ bars bridges, Segment (path <+: ·) hose (pciautoConfigDevice path bus node hose).1
        bars bridges
  | .device device, hose, behind, quiet, _ => by
      unfold pciautoConfigDevice at quiet ⊢
      split
      · next legacy =>
          rw [if_pos legacy] at quiet
          exact ⟨[], [], segment_bars quiet (climbs_refl hose) (List.append_nil _).symm rfl rfl
            (fun _ member => absurd member List.not_mem_nil)
            (fun _ member => absurd member List.not_mem_nil)⟩
      · next other =>
          rw [if_neg other] at quiet
          obtain ⟨bars, setUp⟩ := setup_bars device.responses path 7 0 hose quiet
          exact ⟨bars, [], segment_bars setUp.quiet setUp.climbs setUp.newBars setUp.newBridges
            (setup_current device.responses path 7 0 hose)
            (fun bar member => by rw [(setUp.own bar member).1])
            (fun bar member => (setUp.own bar member).2)⟩
  | .bridge responses behind, hose, under, quiet, few => by
      have start := setup_number path responses hose
      rw [(config_bridge path bus responses behind hose).1] at quiet few ⊢
      rw [postscan_current] at few
      have calm : (alignAll (bridgeScan path responses behind hose).hose).wrapped = false := quiet
      have below : (hose.currentBusno + 1) % 256 ≤
          (alignAll (bridgeSetup path responses hose)).currentBusno := by
        rw [start]
        exact Nat.mod_le _ _
      have numbers := slots_numbers path (hose.currentBusno + 1) 0 behind
        ⟨alignAll (bridgeSetup path responses hose), hose.currentBusno + 1, 0⟩ start.symm below
      obtain ⟨bars, bridges, segment⟩ := slots_segment path (hose.currentBusno + 1) 0 behind
        ⟨alignAll (bridgeSetup path responses hose), hose.currentBusno + 1, 0⟩ below
        ((align_all_wrapped _).mp calm).1 few
      obtain ⟨own, setUp⟩ := setup_bars responses path 3 0
        { hose with currentBusno := hose.currentBusno + 1 }
        ((align_all_wrapped _).mp segment.quiet).1
      have deepest : max (bridgeScan path responses behind hose).subBus (bus % 256) =
          (bridgeScan path responses behind hose).hose.currentBusno := by
        have last : (bridgeScan path responses behind hose).subBus =
            (bridgeScan path responses behind hose).hose.currentBusno := numbers.1
        have more : (alignAll (bridgeSetup path responses hose)).currentBusno ≤
            (bridgeScan path responses behind hose).hose.currentBusno := numbers.2
        rw [last]
        omega
      exact ⟨own ++ bars, _, segment_bridge setUp rfl (setup_current responses path 3 0 _)
        (segment_weaken segment fun _ => from_behind) calm few deepest⟩

theorem slots_segment (path : List Nat) (bus : Nat) :
    ∀ index slots scan, bus % 256 ≤ scan.hose.currentBusno →
      (scanSlots path bus index slots scan).hose.wrapped = false →
      (scanSlots path bus index slots scan).hose.currentBusno < 256 →
      ∃ bars bridges, Segment (From path index) scan.hose
        (scanSlots path bus index slots scan).hose bars bridges
  | _, .empty, scan, _, quiet, _ =>
      ⟨[], [], segment_bars quiet (climbs_refl scan.hose) (List.append_nil _).symm rfl rfl
        (fun _ member => absurd member List.not_mem_nil)
        (fun _ member => absurd member List.not_mem_nil)⟩
  | index, .cons slot node rest, scan, behind, quiet, few => by
      unfold scanSlots at quiet few ⊢
      by_cases left : skipped (bus == scan.hose.firstBusno) slot scan.foundMulti
      · rw [if_pos left] at quiet few ⊢
        obtain ⟨bars, bridges, segment⟩ :=
          slots_segment path bus (index + 1) rest scan behind quiet few
        exact ⟨bars, bridges, segment_weaken segment fun _ later =>
          ⟨later.choose, Nat.le_of_succ_le later.choose_spec.1, later.choose_spec.2⟩⟩
      · rw [if_neg left] at quiet few ⊢
        have done := config_numbers (path ++ [index]) bus node scan.hose behind
        obtain ⟨bars', bridges', two⟩ := slots_segment path bus (index + 1) rest
          ⟨(pciautoConfigDevice (path ++ [index]) bus node scan.hose).1,
            max scan.subBus (pciautoConfigDevice (path ++ [index]) bus node scan.hose).2,
            announces slot scan.foundMulti⟩
          (Nat.le_trans behind done.1) quiet few
        obtain ⟨bars, bridges, one⟩ := config_segment (path ++ [index]) bus node scan.hose behind
          two.quiet (Nat.lt_of_le_of_lt two.numbered few)
        refine ⟨bars ++ bars', bridges ++ bridges',
          segment_weaken (segment_append one two fun _ _ => from_beside) ?_⟩
        rintro other (here | ⟨i, above, there⟩)
        · exact ⟨index, Nat.le_refl _, here⟩
        · exact ⟨i, Nat.le_of_succ_le above, there⟩

end

end UBoot.Pci.BridgeWindows
