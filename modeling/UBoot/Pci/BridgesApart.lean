import UBoot.Pci.Outlines

/-!
The windows of bridges beside each other. Without a region for prefetchable memory every bridge
gets the same window for it, and a window whose limit was taken from a cursor at 0 has
no end; the tree alone says whether either of them meets another window.
-/

namespace UBoot.Pci.BridgesApart

open PciAuto Cursors BridgeWindows Outlines

/-- The cursors since the start of a scan: one is at 0 as long as nothing was asked for. -/
structure Tracks (root hose : PciController) (used : Space → Bool) : Prop where
  climbs : Climbs root hose
  bottom : ∀ space, (lowerOf root space).isSome →
    (lower hose space = 0 ↔ lower root space = 0 ∧ used space = false)

theorem tracks_root (root : PciController) : Tracks root root (fun _ => false) where
  climbs := climbs_refl root
  bottom := fun _ _ => (and_iff_left rfl).symm

section Scan

variable {root hose after : PciController} {used asked : Space → Bool}

theorem tracks_moves (tracks : Tracks root hose used) (moves : Moves asked hose after) :
    Tracks root after (fun space => used space || asked space) where
  climbs := climbs_trans tracks.climbs moves.climbs
  bottom := by
    intro space here
    have there : (lowerOf hose space).isSome := by
      rw [(tracks.climbs space).1]
      exact here
    have before := tracks.bottom space here
    have up := (moves.climbs space).2
    rw [Bool.or_eq_false_iff, ← and_assoc, ← before]
    constructor
    · intro bottom
      refine ⟨by omega, ?_⟩
      by_contra some'
      have more := moves.rises space there (Bool.of_not_eq_false some')
      omega
    · rintro ⟨bottom, nothing⟩
      rw [moves.rests space nothing (by rw [bottom]; exact Nat.dvd_zero _), bottom]

end Scan

/-- A bridge has the windows that its outline says. -/
structure Matches (root : PciController) (bridge : Bridge) (outline : Outline) : Prop where
  path : bridge.path = outline.path
  endless : ∀ space, (lowerOf root space).isSome →
    (Endless bridge space ↔ lower root space = 0 ∧ outline.used space = false)
  whole : ∀ space, (lowerOf root space).isSome → Endless bridge space →
    ∀ address, address < 2 ^ 32 → Decodes bridge space address
  bounded : ∀ space, (lowerOf root space).isSome →
    ∀ address, Decodes bridge space address → address < 2 ^ 32
  holds : ∀ space, (lowerOf root space).isSome → ¬ Endless bridge space →
    ((∃ address, Decodes bridge space address) ↔ outline.behind space = true)
  absent : ∀ space, lowerOf root space = none → window bridge.registers space =
    if space = .prefetch then some (0x10000000, 0x100fffff) else none

/-- The windows for the regions that the controller does not have. -/
theorem window_absent (path : List Nat) {second third : PciController} (bus number subBus : Nat)
    {space : Space} (first : lowerOf (alignAll second) space = none)
    (last : lowerOf (alignAll third) space = none) :
    window (bridgeAt path second third bus number subBus).registers space =
      if space = .prefetch then some (0x10000000, 0x100fffff) else none := by
  cases space with
  | mem => simp [window, bridgeAt, pciautoPrescanSetupBridge, first]
  | prefetch =>
      simp only [window, bridgeAt, pciautoPrescanSetupBridge, first, last, Option.map_none,
        Option.getD_none, Option.isSome_none]
      rfl
  | io => simp [window, bridgeAt, pciautoPrescanSetupBridge, first]

theorem bridge_matches (path : List Nat) {root second third : PciController}
    (bus number subBus : Nat) {own asked : Space → Bool}
    (opened : Tracks root (alignAll second) own)
    (moves : Moves asked (alignAll second) (alignAll third)) :
    Matches root (bridgeAt path second third bus number subBus)
      ⟨path, fun space => own space || asked space, asked⟩ := by
  have closed := tracks_moves opened moves
  -- the two cursors of a region, and the window between them
  have cursors : ∀ space, (lowerOf root space).isSome → ∃ low high,
      lower (alignAll second) space = low ∧ lower (alignAll third) space = high ∧ low ≤ high ∧
        high < 2 ^ 32 ∧
        window (bridgeAt path second third bus number subBus).registers space =
          some (low, if high = 0 then 2 ^ 32 - 1 else high - 1) := by
    intro space here
    have there : (lowerOf (alignAll second) space).isSome := by
      rw [(opened.climbs space).1]
      exact here
    have there' : (lowerOf (alignAll third) space).isSome := by
      rw [(closed.climbs space).1]
      exact here
    obtain ⟨low, first⟩ := Option.isSome_iff_exists.mp there
    obtain ⟨high, last⟩ := Option.isSome_iff_exists.mp there'
    have up := (moves.climbs space).2
    unfold lower at up ⊢
    rw [first, last] at up ⊢
    exact ⟨low.toNat, high.toNat, rfl, rfl, up, high.toNat_lt, by
      rw [bridge_window first last, last_address]⟩
  have endless : ∀ space, (lowerOf root space).isSome →
      (Endless (bridgeAt path second third bus number subBus) space ↔
        lower (alignAll third) space = 0) := by
    intro space here
    obtain ⟨low, high, -, highest, ordered, bound, programmed⟩ := cursors space here
    rw [highest]
    constructor
    · rintro ⟨first, last, same, -, reached⟩
      rw [programmed] at same
      obtain ⟨rfl, rfl⟩ := Prod.mk.inj (Option.some.inj same)
      by_contra other
      rw [if_neg other] at reached
      omega
    · intro zero
      exact ⟨_, _, programmed, by omega, by rw [if_pos zero]⟩
  refine ⟨rfl, ?_, ?_, ?_, ?_, ?_⟩
  · intro space here
    rw [endless space here]
    exact closed.bottom space here
  · intro space here without address small
    obtain ⟨low, high, -, highest, ordered, bound, programmed⟩ := cursors space here
    have zero := (endless space here).mp without
    exact ⟨_, _, programmed, by omega, by rw [if_pos (highest.symm.trans zero)]; omega⟩
  · rintro space here address ⟨first, last, same, -, reached⟩
    obtain ⟨low, high, -, highest, ordered, bound, programmed⟩ := cursors space here
    rw [programmed] at same
    obtain ⟨rfl, rfl⟩ := Prod.mk.inj (Option.some.inj same)
    split at reached <;> omega
  · intro space here ends
    obtain ⟨low, high, lowest, highest, ordered, bound, programmed⟩ := cursors space here
    have positive : high ≠ 0 := fun zero => ends ((endless space here).mpr (highest.trans zero))
    have there : (lowerOf (alignAll second) space).isSome := by
      rw [(opened.climbs space).1]
      exact here
    constructor
    · rintro ⟨address, first, last, same, above, below⟩
      rw [programmed, if_neg positive] at same
      obtain ⟨rfl, rfl⟩ := Prod.mk.inj (Option.some.inj same)
      by_contra nothing
      have still := moves.rests space (Bool.of_not_eq_true nothing) (align_all_multiple second space)
      omega
    · intro some'
      have more := moves.rises space there some'
      exact ⟨low, _, _, programmed, Nat.le_refl _, by rw [if_neg positive]; omega⟩
  · intro space nothing
    have first : lowerOf (alignAll second) space = none := by
      rw [← Option.not_isSome_iff_eq_none, (opened.climbs space).1, nothing]
      exact Bool.false_ne_true
    have last : lowerOf (alignAll third) space = none := by
      rw [← Option.not_isSome_iff_eq_none, (closed.climbs space).1, nothing]
      exact Bool.false_ne_true
    exact window_absent path bus number subBus first last

/-! ### The scan -/

/-- What a part of the scan does, in the terms of the tree. -/
structure Outlined (root before after : PciController) (asked : Space → Bool)
    (outlines : (Space → Bool) → List Outline) : Prop where
  moves : Moves asked before after
  found : ∀ used, Tracks root before used → ∃ bridges,
    after.bridges = before.bridges ++ bridges ∧ List.Forall₂ (Matches root) bridges (outlines used)

theorem outlined_append {root first second third : PciController} {asked asked' : Space → Bool}
    {outlines outlines' : (Space → Bool) → List Outline}
    (one : Outlined root first second asked outlines)
    (two : Outlined root second third asked' outlines') :
    Outlined root first third (fun space => asked space || asked' space)
      (fun used => outlines used ++ outlines' (fun space => used space || asked space)) where
  moves := moves_trans one.moves two.moves
  found := by
    intro used tracks
    obtain ⟨bridges, new, each⟩ := one.found used tracks
    obtain ⟨bridges', new', each'⟩ := two.found _ (tracks_moves tracks one.moves)
    exact ⟨bridges ++ bridges', by rw [new', new, List.append_assoc], List.rel_append each each'⟩

theorem moves_congr {asked asked' : Space → Bool} {before after : PciController}
    (moves : Moves asked before after) (same : ∀ space, asked space = asked' space) :
    Moves asked' before after :=
  (funext same : asked = asked') ▸ moves

/-- A bridge, when its own registers and the bus behind it have been gone through. -/
theorem outlined_bridge {root hose second third : PciController} {path : List Nat}
    {own asked : Space → Bool} {outlines : (Space → Bool) → List Outline} (bus number subBus : Nat)
    (setUp : Moves own hose second) (kept : second.bridges = hose.bridges)
    (calm : (alignAll second).wrapped = false)
    (behind : Outlined root (alignAll second) third asked outlines)
    (quiet : (alignAll third).wrapped = false) :
    Outlined root hose
      (pciautoPostscanSetupBridge third path subBus
        (pciautoPrescanSetupBridge second bus number).2)
      (fun space => own space || asked space)
      (fun used => outlines (fun space => used space || own space) ++
        [⟨path, fun space => used space || own space || asked space, asked⟩]) := by
  have opening : Moves own hose (alignAll second) :=
    moves_congr (moves_trans setUp (moves_align calm)) fun space => Bool.or_false _
  have closing : Moves asked (alignAll second) (alignAll third) :=
    moves_congr (moves_trans behind.moves (moves_align quiet)) fun space => Bool.or_false _
  constructor
  · obtain ⟨climbs, rises, rests⟩ := moves_trans opening closing
    exact ⟨climbs, rises, rests⟩
  · intro used tracks
    have opened := tracks_moves tracks opening
    obtain ⟨bridges, new, each⟩ := behind.found _ opened
    refine ⟨bridges ++ [bridgeAt path second third bus number subBus], ?_, ?_⟩
    · rw [postscan_bridges, new, (align_all_fields second).2.1, kept, List.append_assoc]
    · exact List.rel_append each (.cons (bridge_matches path bus number subBus opened closing) .nil)

mutual

theorem config_outlined (root : PciController) (path : List Nat) (bus : Nat) :
    ∀ node hose, bus % 256 ≤ hose.currentBusno → hose.firstBusno ≤ hose.currentBusno →
      (pciautoConfigDevice path bus node hose).1.wrapped = false →
      (pciautoConfigDevice path bus node hose).1.refused = false →
      Outlined root hose (pciautoConfigDevice path bus node hose).1
        (fun space => nodeAsks (hose.regions .prefetch).isSome space node)
        (fun used => nodeOutlines (hose.regions .prefetch).isSome path node used)
  | .device device, hose, _, _, quiet, large => by
      unfold pciautoConfigDevice at quiet large ⊢
      unfold nodeAsks nodeOutlines
      split
      · exact ⟨moves_refl hose, fun _ _ => ⟨[], (List.append_nil _).symm, .nil⟩⟩
      · next other =>
          rw [if_neg other] at quiet large
          obtain ⟨bars, setUp⟩ := setup_bars device.responses path 7 0 hose quiet
          refine ⟨setup_moves device.responses path 7 0 hose quiet large, fun _ _ => ⟨[], ?_, .nil⟩⟩
          rw [List.append_nil]
          exact setUp.newBridges
  | .bridge responses behind, hose, under, first, quiet, large => by
      have start := setup_number path responses hose
      have stays := bridge_setup_stays path responses hose
      have host : (hose.currentBusno + 1 ==
          (alignAll (bridgeSetup path responses hose)).firstBusno) = false := by
        rw [stays.host, beq_eq_false_iff_ne]
        omega
      rw [(config_bridge path bus responses behind hose).1] at quiet large ⊢
      have calm : (alignAll (bridgeScan path responses behind hose).hose).wrapped = false := quiet
      have room : (alignAll (bridgeScan path responses behind hose).hose).refused = false := large
      have whole := align_all_stays (bridgeScan path responses behind hose).hose
      have scanned := slots_stays path (hose.currentBusno + 1) 0 behind
        ⟨alignAll (bridgeSetup path responses hose), hose.currentBusno + 1, 0⟩
      have aligned := align_all_stays (bridgeSetup path responses hose)
      have inner := slots_outlined root path (hose.currentBusno + 1) 0 behind
        ⟨alignAll (bridgeSetup path responses hose), hose.currentBusno + 1, 0⟩
        (by rw [start]; exact Nat.mod_le _ _)
        (by rw [start, stays.host]; exact Nat.le_succ_of_le first)
        (whole.quiet calm) (whole.large room)
      have before := scanned.quiet (whole.quiet calm)
      have own := setup_moves responses path 3 0 { hose with currentBusno := hose.currentBusno + 1 }
        (aligned.quiet before) (aligned.large (scanned.large (whole.large room)))
      obtain ⟨bars, setUp⟩ := setup_bars responses path 3 0
        { hose with currentBusno := hose.currentBusno + 1 } (aligned.quiet before)
      rw [host, stays.regions] at inner
      unfold nodeAsks nodeOutlines
      exact outlined_bridge _ _ _ ⟨own.climbs, own.rises, own.rests⟩ setUp.newBridges before inner calm

theorem slots_outlined (root : PciController) (path : List Nat) (bus : Nat) :
    ∀ index slots scan, bus % 256 ≤ scan.hose.currentBusno →
      scan.hose.firstBusno ≤ scan.hose.currentBusno →
      (scanSlots path bus index slots scan).hose.wrapped = false →
      (scanSlots path bus index slots scan).hose.refused = false →
      Outlined root scan.hose (scanSlots path bus index slots scan).hose
        (fun space => busAsks (scan.hose.regions .prefetch).isSome space
          (bus == scan.hose.firstBusno) scan.foundMulti slots)
        (fun used => busOutlines (scan.hose.regions .prefetch).isSome path
          (bus == scan.hose.firstBusno) scan.foundMulti index slots used)
  | _, .empty, scan, _, _, _, _ =>
      ⟨moves_refl scan.hose, fun _ _ => ⟨[], (List.append_nil _).symm, .nil⟩⟩
  | index, .cons slot node rest, scan, behind, first, quiet, large => by
      unfold scanSlots at quiet large ⊢
      unfold busAsks busOutlines
      by_cases left : skipped (bus == scan.hose.firstBusno) slot scan.foundMulti
      · rw [if_pos left] at quiet large ⊢
        simp only [if_pos left]
        exact slots_outlined root path bus (index + 1) rest scan behind first quiet large
      · rw [if_neg left] at quiet large ⊢
        simp only [if_neg left]
        have numbers := config_numbers (path ++ [index]) bus node scan.hose behind
        have stays := config_stays (path ++ [index]) bus node scan.hose
        have later := slots_stays path bus (index + 1) rest
          ⟨(pciautoConfigDevice (path ++ [index]) bus node scan.hose).1,
            max scan.subBus (pciautoConfigDevice (path ++ [index]) bus node scan.hose).2,
            announces slot scan.foundMulti⟩
        have one := config_outlined root (path ++ [index]) bus node scan.hose behind first
          (later.quiet quiet) (later.large large)
        have two := slots_outlined root path bus (index + 1) rest
          ⟨(pciautoConfigDevice (path ++ [index]) bus node scan.hose).1,
            max scan.subBus (pciautoConfigDevice (path ++ [index]) bus node scan.hose).2,
            announces slot scan.foundMulti⟩ (Nat.le_trans behind numbers.1)
          (by rw [stays.host]; exact Nat.le_trans first numbers.1) quiet large
        rw [stays.host, stays.regions] at two
        exact outlined_append one two

end

/-- The bus numbers and the windows are as they are to be, and no window of a bridge meets one of
a bridge beside it. -/
structure Sound (after : PciController) : Prop where
  lawful : Lawful after.bars after.bridges
  apart : ∀ one ∈ after.bridges, ∀ other ∈ after.bridges, Beside one.path other.path →
    ∀ space address, ¬ (Decodes one space address ∧ Decodes other space address)

/-- A controller as a board registers it. -/
def boardHose (table : List (UInt32 × PciRegion)) : PciController where
  firstBusno := 0
  currentBusno := 0
  table := table
  regions := fun _ => none
  wrapped := false
  refused := false
  bars := []
  bridges := []

/-- The memory that ar7240_pci.c gives to its controller. -/
def boardTable : List (UInt32 × PciRegion) :=
  [(0x00000100, ⟨0x80000000, 0x02000000, 0⟩), (PCI_REGION_MEM, ⟨0x10000000, 0x08000000, 0⟩)]

/-- Two bridges beside each other with nothing behind them. -/
def twoBridges : Bus :=
  .cons ⟨1, 0, 1⟩ (.bridge (fun _ => 0) .empty) (.cons ⟨2, 0, 1⟩ (.bridge (fun _ => 0) .empty) .empty)

/-- Both decode the addresses from 0x10000000 on as prefetchable memory. -/
theorem two_bridges_meet :
    (pciHoseScan (boardHose boardTable) twoBridges).currentBusno < 256 ∧
      (pciHoseScan (boardHose boardTable) twoBridges).wrapped = false ∧
      (pciHoseScan (boardHose boardTable) twoBridges).refused = false ∧
      ¬ Sound (pciHoseScan (boardHose boardTable) twoBridges) := by
  refine ⟨by decide +kernel, by decide +kernel, by decide +kernel, fun sound => ?_⟩
  have programmed : (pciHoseScan (boardHose boardTable) twoBridges).bridges.map
      (fun bridge => (bridge.path, window bridge.registers .prefetch)) =
        [([0], some (0x10000000, 0x100fffff)), ([1], some (0x10000000, 0x100fffff))] := by
    decide +kernel
  obtain ⟨one, oneIn, this⟩ := List.mem_map.mp
    (programmed ▸ List.mem_cons_self : ([0], some (0x10000000, 0x100fffff)) ∈ _)
  obtain ⟨other, otherIn, that⟩ := List.mem_map.mp
    (programmed ▸ List.mem_cons_of_mem _ List.mem_cons_self :
      ([1], some (0x10000000, 0x100fffff)) ∈ _)
  obtain ⟨place, range⟩ := Prod.mk.inj this
  obtain ⟨place', range'⟩ := Prod.mk.inj that
  have beside : Beside one.path other.path := by
    rw [place, place']
    unfold Beside
    decide
  exact sound.apart one oneIn other otherIn beside .prefetch 0x10000000
    ⟨⟨_, _, range, by decide, by decide⟩, ⟨_, _, range', by decide, by decide⟩⟩

/-- Bridges stand beside each other only when there is a region for prefetchable memory; and when
nothing was asked for from a region at 0 up to the end of one of them, something was asked for up
to the end of the other one, but not behind it. -/
def Fits (hose : PciController) (outlines : List Outline) : Prop :=
  ∀ one ∈ outlines, ∀ other ∈ outlines, Beside one.path other.path →
    (hose.regions .prefetch).isSome ∧
      ∀ space, (hose.regions space).map PciRegion.busStart = some 0 → one.used space = false →
        other.used space = true ∧ other.behind space = false

/-- The bridges that the scan of a tree comes to. -/
def scanOutlines (hose : PciController) (tree : Bus) : List Outline :=
  busOutlines (hose.regions .prefetch).isSome [] true 0 0 tree (fun _ => false)

theorem init_lower (hose : PciController) (space : Space) :
    lowerOf (pciautoConfigInit hose) space =
      ((pciautoConfigInit hose).regions space).map PciRegion.busStart := by
  unfold lowerOf pciautoConfigInit
  dsimp only
  rw [Option.map_map, Option.map_map]
  rfl

theorem forall_left {α β : Type} {related : α → β → Prop} {xs : List α} {ys : List β}
    (each : List.Forall₂ related xs ys) {x : α} (member : x ∈ xs) : ∃ y ∈ ys, related x y := by
  induction each with
  | nil => exact absurd member List.not_mem_nil
  | cons here _ inductive_hypothesis =>
      rcases List.mem_cons.mp member with rfl | later
      · exact ⟨_, List.mem_cons_self, here⟩
      · obtain ⟨y, found, holds⟩ := inductive_hypothesis later
        exact ⟨y, List.mem_cons_of_mem _ found, holds⟩

theorem forall_right {α β : Type} {related : α → β → Prop} {xs : List α} {ys : List β}
    (each : List.Forall₂ related xs ys) {y : β} (member : y ∈ ys) : ∃ x ∈ xs, related x y :=
  forall_left (List.Forall₂.flip each) member

theorem beside_symm {path other : List Nat} (beside : Beside path other) : Beside other path :=
  ⟨beside.2, beside.1⟩

section Pairs

variable {root after : PciController} {bridges : List Bridge} {outlines : List Outline}

theorem fits_of_apart (each : List.Forall₂ (Matches root) bridges outlines)
    (starts : ∀ space, lowerOf root space = (root.regions space).map PciRegion.busStart)
    (apart : ∀ one ∈ bridges, ∀ other ∈ bridges, Beside one.path other.path →
      ∀ space address, ¬ (Decodes one space address ∧ Decodes other space address)) :
    Fits root outlines := by
  intro outline member outline' member' beside
  obtain ⟨one, oneIn, this⟩ := forall_right each member
  obtain ⟨other, otherIn, that⟩ := forall_right each member'
  rw [← this.path, ← that.path] at beside
  have never := apart one oneIn other otherIn beside
  constructor
  · by_contra nothing
    have absent : lowerOf root .prefetch = none := by
      rw [starts, Option.not_isSome_iff_eq_none.mp nothing]
      rfl
    -- both have the window that was to be closed
    exact never .prefetch 0x10000000
      ⟨⟨_, _, this.absent .prefetch absent, Nat.le_refl _, by decide⟩,
        ⟨_, _, that.absent .prefetch absent, Nat.le_refl _, by decide⟩⟩
  · intro space zero unused
    rw [← starts] at zero
    have here : (lowerOf root space).isSome := by rw [zero]; rfl
    have bottom : lower root space = 0 := by
      unfold lower
      rw [zero]
      rfl
    have without : Endless one space := (this.endless space here).mpr ⟨bottom, unused⟩
    have ends : ¬ Endless other space := fun without' => never space _ ⟨without, without'⟩
    constructor
    · by_contra unused'
      exact ends ((that.endless space here).mpr ⟨bottom, Bool.of_not_eq_true unused'⟩)
    · by_contra some'
      obtain ⟨address, decodes⟩ := (that.holds space here ends).mpr (Bool.of_not_eq_false some')
      have small := that.bounded space here address decodes
      exact never space address ⟨this.whole space here without address small, decodes⟩

/-- A bridge whose window has no end leaves room for another one that decodes nothing. -/
theorem endless_apart {one other : Bridge} {outline outline' : Outline} {space : Space}
    (here : (lowerOf root space).isSome)
    (starts : lowerOf root space = (root.regions space).map PciRegion.busStart)
    (this : Matches root one outline) (that : Matches root other outline')
    (fits : ∀ space, (root.regions space).map PciRegion.busStart = some 0 →
      outline.used space = false → outline'.used space = true ∧ outline'.behind space = false)
    (without : Endless one space) (address : Nat) : ¬ Decodes other space address := by
  obtain ⟨bottom, unused⟩ := (this.endless space here).mp without
  obtain ⟨low, first⟩ := Option.isSome_iff_exists.mp here
  have zero : low = 0 := by
    unfold lower at bottom
    rw [first] at bottom
    exact UInt32.toNat.inj bottom
  obtain ⟨used, nothing⟩ := fits space (by rw [← starts, first, zero]) unused
  have ends : ¬ Endless other space := by
    intro without'
    have unused' := ((that.endless space here).mp without').2
    rw [used] at unused'
    exact absurd unused' Bool.true_eq_false_eq_False
  intro decodes
  have some' := (that.holds space here ends).mp ⟨address, decodes⟩
  rw [nothing] at some'
  exact absurd some' Bool.false_ne_true

theorem apart_of_fits (each : List.Forall₂ (Matches root) bridges outlines)
    (starts : ∀ space, lowerOf root space = (root.regions space).map PciRegion.busStart)
    (windows : Windows root after bridges) (fits : Fits root outlines) :
    ∀ one ∈ bridges, ∀ other ∈ bridges, Beside one.path other.path →
      ∀ space address, ¬ (Decodes one space address ∧ Decodes other space address) := by
  rintro one oneIn other otherIn beside space address ⟨decodes, decodes'⟩
  obtain ⟨outline, member, this⟩ := forall_left each oneIn
  obtain ⟨outline', member', that⟩ := forall_left each otherIn
  have beside' : Beside outline.path outline'.path := by
    rw [← this.path, ← that.path]
    exact beside
  have fit := fits outline member outline' member' beside'
  have fit' := fits outline' member' outline member (beside_symm beside')
  by_cases here : (lowerOf root space).isSome
  · by_cases without : Endless one space
    · exact endless_apart here (starts space) this that fit.2 without address decodes'
    by_cases without' : Endless other space
    · exact endless_apart here (starts space) that this fit'.2 without' address decodes
    exact windows.apart one oneIn other otherIn beside space here without without' address
      ⟨decodes, decodes'⟩
  · have absent := Option.not_isSome_iff_eq_none.mp here
    obtain ⟨first, last, programmed, _⟩ := decodes
    rw [this.absent space absent] at programmed
    split at programmed
    · next same =>
        subst same
        rw [starts] at absent
        rw [Option.map_eq_none_iff.mp absent] at fit
        exact absurd fit.1 Bool.false_ne_true
    · cases programmed

end Pairs

/-- Fewer than 256 buses, and no address that is refused or wraps: the bridges are set up as they
are to be when the tree fits the regions, and only then. -/
theorem scan_sound_iff (hose : PciController) (tree : Bus)
    (numbered : hose.firstBusno ≤ hose.currentBusno)
    (few : (pciHoseScan hose tree).currentBusno < 256)
    (quiet : (pciHoseScan hose tree).wrapped = false)
    (large : (pciHoseScan hose tree).refused = false) :
    Sound (pciHoseScan hose tree) ↔
      Fits (pciautoConfigInit hose) (scanOutlines (pciautoConfigInit hose) tree) := by
  obtain ⟨root, same⟩ : ∃ root, root = pciautoConfigInit { hose with
    wrapped := false, refused := false, bars := [], bridges := [] } := ⟨_, rfl⟩
  have scanned : pciHoseScan hose tree =
      (scanSlots [] hose.firstBusno 0 tree ⟨root, hose.firstBusno, 0⟩).hose := by
    rw [same]
    rfl
  have under : hose.firstBusno % 256 ≤ root.currentBusno := by
    rw [same]
    exact Nat.le_trans (Nat.mod_le _ _) numbered
  have first : root.firstBusno = hose.firstBusno := by rw [same]; rfl
  have regions : (pciautoConfigInit hose).regions = root.regions := by rw [same]; rfl
  have starts : ∀ space, lowerOf root space = (root.regions space).map PciRegion.busStart := by
    rw [same]
    exact init_lower _
  rw [scanned] at few quiet large ⊢
  obtain ⟨bars, bridges, segment⟩ := slots_segment [] hose.firstBusno 0 tree
    ⟨root, hose.firstBusno, 0⟩ under quiet few
  have outlined := slots_outlined root [] hose.firstBusno 0 tree ⟨root, hose.firstBusno, 0⟩ under
    (by rw [first, same]; exact numbered) quiet large
  obtain ⟨bridges', new, each⟩ := outlined.found _ (tracks_root root)
  have allBars : (scanSlots [] hose.firstBusno 0 tree ⟨root, hose.firstBusno, 0⟩).hose.bars =
      bars := by
    rw [segment.newBars, same]
    rfl
  have allBridges : (scanSlots [] hose.firstBusno 0 tree
      ⟨root, hose.firstBusno, 0⟩).hose.bridges = bridges := by
    rw [segment.newBridges, same]
    rfl
  have found : bridges' = bridges :=
    List.append_cancel_left (new.symm.trans segment.newBridges)
  have flag : (hose.firstBusno == root.firstBusno) = true := by rw [first, beq_self_eq_true]
  rw [found] at each
  have each : List.Forall₂ (Matches root) bridges (scanOutlines root tree) := by
    unfold scanOutlines
    rw [← flag]
    exact each
  have sameOutlines : scanOutlines (pciautoConfigInit hose) tree = scanOutlines root tree := by
    unfold scanOutlines
    rw [regions]
  rw [sameOutlines]
  unfold Fits
  rw [regions]
  constructor
  · rintro ⟨_, apart⟩
    rw [allBridges] at apart
    exact fits_of_apart each starts apart
  · intro fits
    constructor
    · rw [allBars, allBridges]
      exact segment.lawful
    · rw [allBridges]
      exact apart_of_fits each starts segment.windows fits

theorem network_plain :
    (0x0200 : UInt16) ≠ PCI_CLASS_BRIDGE_PCI ∧ (0x0200 : UInt16) ≠ PCI_CLASS_BRIDGE_CARDBUS := by
  decide

/-- A network device with one address register, for 64 KB of memory. -/
def networkDevice : Device where
  deviceClass := 0x0200
  progIf := 0
  responses := fun bar => if bar = 0 then 0xffff0000 else 0
  plain := network_plain

def networkBus : Bus := .cons ⟨0, 0, 0⟩ (.device networkDevice) .empty

/-- A bridge, and behind it two others with a device each. -/
def nestedBridges : Bus :=
  .cons ⟨1, 0, 1⟩
    (.bridge (fun _ => 0)
      (.cons ⟨0, 0, 1⟩ (.bridge (fun _ => 0) networkBus)
        (.cons ⟨1, 0, 1⟩ (.bridge (fun _ => 0) networkBus) .empty)))
    .empty

/-- The table of the board with a region for prefetchable memory. -/
def prefetchTable : List (UInt32 × PciRegion) :=
  boardTable ++ [(PCI_REGION_MEM ||| PCI_REGION_PREFETCH, ⟨0x18000000, 0x08000000, 0⟩)]

theorem prefetch_fits : Fits (pciautoConfigInit (boardHose prefetchTable))
    (scanOutlines (pciautoConfigInit (boardHose prefetchTable)) nestedBridges) := by
  intro one _ other _ _
  refine ⟨by decide +kernel, fun space zero => ?_⟩
  cases space with
  | mem => exact absurd zero (by decide +kernel)
  | prefetch => exact absurd zero (by decide +kernel)
  | io => exact absurd zero (by decide +kernel)

theorem nested_sound : Sound (pciHoseScan (boardHose prefetchTable) nestedBridges) :=
  (scan_sound_iff (boardHose prefetchTable) nestedBridges (by decide) (by decide +kernel)
    (by decide +kernel) (by decide +kernel)).mpr prefetch_fits

end UBoot.Pci.BridgesApart
