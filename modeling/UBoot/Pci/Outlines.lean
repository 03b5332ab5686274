import UBoot.Pci.BridgeWindows

/-!
What the functions behind a host bridge ask for, read from the tree alone. Of each bridge
that the scan comes to, it says whether something was asked for up to its end, and
whether behind it; this decides which of its windows have an end, and which are empty.
-/

namespace UBoot.Pci.Outlines

open PciAuto Cursors BridgeWindows

/-- The registers from number `bar` on ask for addresses of a space. -/
def registersAsk (prefetch : Bool) (space : Space) (responses : Nat → UInt32) :
    (left bar : Nat) → Bool
  | 0, _ => false
  | left + 1, bar =>
      if responses bar = 0 then registersAsk prefetch space responses left (bar + 1)
      else
        let decoded := decodeBar prefetch (responses bar)
        decide (decoded.1 = space ∧ decoded.2.1 ≠ 0) ||
          if decoded.2.2 then
            match left with
            | 0 => false
            | left + 1 => registersAsk prefetch space responses left (bar + 2)
          else registersAsk prefetch space responses left (bar + 1)

mutual

def nodeAsks (prefetch : Bool) (space : Space) : Node → Bool
  | .device device =>
      if legacyIde device then false else registersAsk prefetch space device.responses 7 0
  | .bridge responses behind =>
      registersAsk prefetch space responses 3 0 || busAsks prefetch space false 0 behind

def busAsks (prefetch : Bool) (space : Space) (host : Bool) (foundMulti : UInt8) : Bus → Bool
  | .empty => false
  | .cons slot node rest =>
      if skipped host slot foundMulti then busAsks prefetch space host foundMulti rest
      else
        nodeAsks prefetch space node ||
          busAsks prefetch space host (announces slot foundMulti) rest

end

/-- A bridge: whether addresses of a space were asked for up to its end, and behind it. -/
structure Outline where
  path : List Nat
  used : Space → Bool
  behind : Space → Bool

mutual

def nodeOutlines (prefetch : Bool) (path : List Nat) : Node → (Space → Bool) → List Outline
  | .device _, _ => []
  | .bridge responses behind, used =>
      let own := fun space => used space || registersAsk prefetch space responses 3 0
      busOutlines prefetch path false 0 0 behind own ++ [{
        path := path
        used := fun space => own space || busAsks prefetch space false 0 behind
        behind := fun space => busAsks prefetch space false 0 behind }]

def busOutlines (prefetch : Bool) (path : List Nat) (host : Bool) (foundMulti : UInt8)
    (index : Nat) : Bus → (Space → Bool) → List Outline
  | .empty, _ => []
  | .cons slot node rest, used =>
      if skipped host slot foundMulti then
        busOutlines prefetch path host foundMulti (index + 1) rest used
      else
        nodeOutlines prefetch (path ++ [index]) node used ++
          busOutlines prefetch path host (announces slot foundMulti) (index + 1) rest
            (fun space => used space || nodeAsks prefetch space node)

end

/-! ### What stays -/

/-- The host bus and the regions stay, and what has gone wrong is not forgotten. -/
structure Stays (before after : PciController) : Prop where
  host : after.firstBusno = before.firstBusno
  regions : ∀ space, (after.regions space).isSome = (before.regions space).isSome
  quiet : after.wrapped = false → before.wrapped = false
  large : after.refused = false → before.refused = false

theorem stays_refl (hose : PciController) : Stays hose hose :=
  ⟨rfl, fun _ => rfl, id, id⟩

theorem stays_trans {first second third : PciController} (one : Stays first second)
    (two : Stays second third) : Stays first third where
  host := two.host.trans one.host
  regions := fun space => (two.regions space).trans (one.regions space)
  quiet := fun calm => one.quiet (two.quiet calm)
  large := fun room => one.large (two.large room)

theorem update_some (regions : Space → Option PciRegion) (space other : Space) {res : PciRegion}
    (here : (regions space).isSome) :
    (Function.update regions space (some res) other).isSome = (regions other).isSome := by
  by_cases same : other = space
  · rw [same, Function.update_self, here]
    rfl
  · rw [Function.update_of_ne same]

theorem align_stays (hose : PciController) (space : Space) :
    Stays hose (regionAlign hose space) := by
  unfold regionAlign
  split
  · exact stays_refl hose
  · next res here =>
      refine ⟨rfl, fun other => ?_, fun calm => ?_, id⟩
      · exact update_some hose.regions space other (by rw [here]; rfl)
      · exact (Bool.or_eq_false_iff.mp calm).1

theorem align_all_stays (hose : PciController) : Stays hose (alignAll hose) :=
  stays_trans (stays_trans (align_stays hose .mem) (align_stays _ .prefetch)) (align_stays _ .io)

theorem allocate_stays {hose next : PciController} {space : Space} {size addr : UInt32}
    (allocated : regionAllocate hose space size = some (addr, next)) : Stays hose next := by
  unfold regionAllocate at allocated
  split at allocated
  · cases allocated
  · next res here =>
      dsimp only at allocated
      split at allocated
      · cases allocated
      · obtain ⟨rfl, rfl⟩ := Prod.mk.inj (Option.some.inj allocated)
        refine ⟨rfl, fun other => ?_, fun calm => ?_, id⟩
        · exact update_some hose.regions space other (by rw [here]; rfl)
        · exact (Bool.or_eq_false_iff.mp calm).1

theorem setup_stays (responses : Nat → UInt32) (path : List Nat) (left bar : Nat)
    (hose : PciController) : Stays hose (setupBars responses path left bar hose) := by
  fun_induction setupBars responses path left bar hose with
  | case1 bar hose => exact stays_refl hose
  | case2 left bar hose zero inductive_hypothesis => exact inductive_hypothesis
  | case3 left bar hose zero decoded refused inductive_hypothesis =>
      obtain ⟨host, regions, quiet, large⟩ := inductive_hypothesis
      exact ⟨host, regions, quiet, fun room => absurd (large room) Bool.true_eq_false_eq_False⟩
  | case4 bar hose zero decoded addr next allocated updated wide =>
      obtain ⟨host, regions, quiet, large⟩ := allocate_stays allocated
      exact ⟨host, regions, quiet, large⟩
  | case5 bar hose zero decoded addr next allocated updated wide left inductive_hypothesis =>
      obtain ⟨host, regions, quiet, large⟩ := inductive_hypothesis
      exact stays_trans (allocate_stays allocated) ⟨host, regions, quiet, large⟩
  | case6 left bar hose zero decoded addr next allocated updated narrow inductive_hypothesis =>
      obtain ⟨host, regions, quiet, large⟩ := inductive_hypothesis
      exact stays_trans (allocate_stays allocated) ⟨host, regions, quiet, large⟩

theorem bridge_setup_stays (path : List Nat) (responses : Nat → UInt32) (hose : PciController) :
    Stays hose (alignAll (bridgeSetup path responses hose)) := by
  obtain ⟨host, regions, quiet, large⟩ :=
    setup_stays responses path 3 0 { hose with currentBusno := hose.currentBusno + 1 }
  exact stays_trans ⟨host, regions, quiet, large⟩ (align_all_stays _)

mutual

theorem config_stays (path : List Nat) (bus : Nat) :
    ∀ node hose, Stays hose (pciautoConfigDevice path bus node hose).1
  | .device device, hose => by
      unfold pciautoConfigDevice
      split
      · exact stays_refl hose
      · exact setup_stays device.responses path 7 0 hose
  | .bridge responses behind, hose => by
      have scanned := slots_stays path (hose.currentBusno + 1) 0 behind
        ⟨alignAll (bridgeSetup path responses hose), hose.currentBusno + 1, 0⟩
      rw [(config_bridge path bus responses behind hose).1]
      obtain ⟨host, regions, quiet, large⟩ :=
        align_all_stays (bridgeScan path responses behind hose).hose
      exact stays_trans (stays_trans (bridge_setup_stays path responses hose) scanned)
        ⟨host, regions, quiet, large⟩

theorem slots_stays (path : List Nat) (bus : Nat) :
    ∀ index slots scan, Stays scan.hose (scanSlots path bus index slots scan).hose
  | _, .empty, scan => stays_refl scan.hose
  | index, .cons slot node rest, scan => by
      unfold scanSlots
      split
      · exact slots_stays path bus (index + 1) rest scan
      · exact stays_trans (config_stays (path ++ [index]) bus node scan.hose)
          (slots_stays path bus (index + 1) rest
            ⟨(pciautoConfigDevice (path ++ [index]) bus node scan.hose).1,
              max scan.subBus (pciautoConfigDevice (path ++ [index]) bus node scan.hose).2,
              announces slot scan.foundMulti⟩)

end

/-! ### What moves the cursors -/

/-- An alignment leaves a multiple of a power of two as it is. -/
theorem align_same {low size : UInt32} {k : Nat} (power : (size - 1).toNat = 2 ^ k - 1) (aligned : 2 ^ k ∣ low.toNat) :
    alignUp low size = low := by
  have positive : 0 < 2 ^ k := Nat.two_pow_pos k
  by_cases zero : low = 0
  · subst zero
    have ones : (0 - 1 : UInt32) ||| (size - 1) = 0 - 1 := by
      apply UInt32.toNat.inj
      rw [UInt32.toNat_or, show (0 - 1 : UInt32).toNat = 2 ^ 32 - 1 from rfl]
      apply Nat.le_antisymm
      · exact Nat.le_of_lt_succ (Nat.or_lt_two_pow (by omega) (size - 1).toNat_lt)
      · exact Nat.left_le_or
    unfold alignUp
    rw [ones]
    rfl
  have nonzero : low.toNat ≠ 0 := fun same => zero (UInt32.toNat.inj same)
  have less : (low - 1).toNat = low.toNat - 1 := by
    rw [last_address, if_neg nonzero]
  obtain ⟨n, multiple⟩ := aligned
  have some' : 0 < n := by
    rw [Nat.pos_iff_ne_zero]
    rintro rfl
    exact nonzero multiple
  -- the bits below the power are ones already
  have form : low.toNat - 1 = 2 ^ k * (n - 1) + (2 ^ k - 1) := by
    obtain ⟨m, rfl⟩ : ∃ m, n = m + 1 := ⟨n - 1, by omega⟩
    rw [multiple, Nat.mul_add, Nat.add_sub_cancel]
    omega
  have kept : (low.toNat - 1) ||| (2 ^ k - 1) = low.toNat - 1 := by
    rw [← Nat.div_add_mod ((low.toNat - 1) ||| (2 ^ k - 1)) (2 ^ k), or_ones, Nat.or_div_two_pow,
      Nat.div_eq_of_lt (Nat.sub_lt positive Nat.one_pos), Nat.or_zero, form,
      Nat.mul_add_div positive, Nat.div_eq_of_lt (Nat.sub_lt positive Nat.one_pos), Nat.add_zero]
  unfold alignUp
  apply UInt32.toNat.inj
  rw [UInt32.toNat_add, UInt32.toNat_or, less, power, kept, show (1 : UInt32).toNat = 1 from rfl,
    Nat.sub_add_cancel (Nat.one_le_iff_ne_zero.mpr nonzero), Nat.mod_eq_of_lt low.toNat_lt]

theorem granularity_same (space : Space) {low : UInt32} (aligned : 2 ^ windowBits space ∣ low.toNat) :
    alignUp low (granularity space) = low := by
  cases space with
  | mem => exact align_same (k := 20) rfl aligned
  | prefetch => exact align_same (k := 20) rfl aligned
  | io => exact align_same (k := 12) rfl aligned

/-- A cursor goes up when something of its space was asked for; otherwise it may only be
aligned. -/
structure Moves (asked : Space → Bool) (before after : PciController) : Prop where
  climbs : Climbs before after
  rises : ∀ space, (lowerOf before space).isSome → asked space = true →
    lower before space < lower after space
  rests : ∀ space, asked space = false → 2 ^ windowBits space ∣ lower before space →
    lower after space = lower before space

theorem moves_refl (hose : PciController) : Moves (fun _ => false) hose hose where
  climbs := climbs_refl hose
  rises := fun _ _ asked => absurd asked Bool.false_ne_true
  rests := fun _ _ _ => rfl

theorem moves_trans {asked asked' : Space → Bool} {first second third : PciController}
    (one : Moves asked first second) (two : Moves asked' second third) :
    Moves (fun space => asked space || asked' space) first third where
  climbs := climbs_trans one.climbs two.climbs
  rises := by
    intro space here either
    have there : (lowerOf second space).isSome := by
      rw [(one.climbs space).1]
      exact here
    rcases Bool.or_eq_true_iff.mp either with left | right
    · exact Nat.lt_of_lt_of_le (one.rises space here left) (two.climbs space).2
    · exact Nat.lt_of_le_of_lt (one.climbs space).2 (two.rises space there right)
  rests := by
    intro space neither aligned
    obtain ⟨left, right⟩ := Bool.or_eq_false_iff.mp neither
    have same := one.rests space left aligned
    rw [two.rests space right (by rw [same]; exact aligned), same]

theorem moves_align {hose : PciController} (quiet : (alignAll hose).wrapped = false) :
    Moves (fun _ => false) hose (alignAll hose) where
  climbs := align_all_climbs quiet
  rises := fun _ _ asked => absurd asked Bool.false_ne_true
  rests := by
    intro space _ aligned
    unfold lower at aligned ⊢
    rw [align_all_lower]
    cases here : lowerOf hose space with
    | none => rfl
    | some low =>
        rw [here] at aligned
        have same : alignUp low (granularity space) = low := granularity_same space aligned
        simp only [Option.map_some, Option.getD_some, same]

theorem allocate_lower {hose next : PciController} {space : Space} {size addr : UInt32}
    (allocated : regionAllocate hose space size = some (addr, next)) (other : Space) :
    lowerOf next other = if other = space then some (addr + size) else lowerOf hose other := by
  unfold regionAllocate at allocated
  split at allocated
  · cases allocated
  · next res here =>
      dsimp only at allocated
      split at allocated
      · cases allocated
      · obtain ⟨rfl, rfl⟩ := Prod.mk.inj (Option.some.inj allocated)
        unfold lowerOf
        dsimp only
        by_cases same : other = space
        · rw [if_pos same, same, Function.update_self]
          rfl
        · rw [if_neg same, Function.update_of_ne same]

theorem moves_allocate {hose next : PciController} {space : Space} {size addr : UInt32}
    (allocated : regionAllocate hose space size = some (addr, next))
    (quiet : next.wrapped = false) :
    Moves (fun other => decide (space = other ∧ size ≠ 0)) hose next := by
  obtain ⟨_, climbs, handed, _⟩ := allocate_handed allocated [] quiet
  obtain ⟨_, above, below, empty⟩ := handed
  refine ⟨climbs, ?_, ?_⟩
  · intro other here asked
    obtain ⟨rfl, some'⟩ := of_decide_eq_true asked
    have positive : 0 < size.toNat := by
      rw [Nat.pos_iff_ne_zero]
      exact fun same => some' (UInt32.toNat.inj same)
    dsimp only at above below
    omega
  · intro other nothing _
    have next_lower := allocate_lower allocated other
    by_cases same : other = space
    · subst same
      have zero : size = 0 := by
        by_contra some'
        exact of_decide_eq_false nothing ⟨rfl, some'⟩
      obtain ⟨bottom, address⟩ := empty zero
      dsimp only at bottom address
      rw [bottom]
      unfold lower
      rw [next_lower, if_pos rfl, address, zero]
      rfl
    · unfold lower
      rw [next_lower, if_neg same]

section Registers

variable {prefetch : Bool} {space : Space} {responses : Nat → UInt32} {left bar : Nat}

theorem registers_none (zero : responses bar = 0) :
    registersAsk prefetch space responses (left + 1) bar =
      registersAsk prefetch space responses left (bar + 1) := by
  cases left <;> exact if_pos zero

/-- What a register with a decoder asks for, and the registers behind it. -/
theorem registers_some (some' : responses bar ≠ 0) :
    registersAsk prefetch space responses (left + 1) bar =
      (decide ((decodeBar prefetch (responses bar)).1 = space ∧
          (decodeBar prefetch (responses bar)).2.1 ≠ 0) ||
        if (decodeBar prefetch (responses bar)).2.2 then
          registersAsk prefetch space responses (left - 1) (bar + 2)
        else registersAsk prefetch space responses left (bar + 1)) := by
  cases left <;> exact if_neg some'

end Registers

/-- One allocation, and the registers behind it. -/
theorem moves_cons {hose next after : PciController} {space : Space} {size addr : UInt32}
    {bars : List Bar} (rest : Bool → Space → Bool)
    (allocated : regionAllocate hose space size = some (addr, next))
    (quiet : next.wrapped = false)
    (behind : Moves (rest (next.regions .prefetch).isSome) { next with bars := bars } after) :
    Moves (fun other => decide (space = other ∧ size ≠ 0) ||
      rest (hose.regions .prefetch).isSome other) hose after := by
  obtain ⟨climbs, rises, rests⟩ := behind
  have later : Moves (rest (next.regions .prefetch).isSome) next after := ⟨climbs, rises, rests⟩
  rw [(allocate_stays allocated).regions .prefetch] at later
  exact moves_trans (moves_allocate allocated quiet) later

theorem setup_moves (responses : Nat → UInt32) (path : List Nat) (left bar : Nat)
    (hose : PciController)
    (quiet : (setupBars responses path left bar hose).wrapped = false)
    (large : (setupBars responses path left bar hose).refused = false) :
    Moves (fun space => registersAsk (hose.regions .prefetch).isSome space responses left bar) hose
      (setupBars responses path left bar hose) := by
  fun_induction setupBars responses path left bar hose with
  | case1 bar hose => exact moves_refl hose
  | case2 left bar hose zero inductive_hypothesis =>
      simp only [registers_none zero]
      exact inductive_hypothesis quiet large
  | case3 left bar hose zero decoded refused inductive_hypothesis =>
      have never := (setup_stays responses path left (bar + 1) { hose with refused := true }).large
        large
      exact absurd never Bool.true_eq_false_eq_False
  | case4 bar hose zero decoded addr next allocated updated wide =>
      have wide : (decodeBar (hose.regions .prefetch).isSome (responses bar)).2.2 = true := wide
      simp only [registers_some zero, if_pos wide]
      obtain ⟨climbs, rises, rests⟩ := moves_trans (moves_allocate allocated quiet) (moves_refl next)
      exact ⟨climbs, rises, rests⟩
  | case5 bar hose zero decoded addr next allocated updated wide left inductive_hypothesis =>
      have wide : (decodeBar (hose.regions .prefetch).isSome (responses bar)).2.2 = true := wide
      simp only [registers_some zero, if_pos wide, Nat.add_sub_cancel]
      have calm := (setup_stays responses path left (bar + 2) updated).quiet quiet
      exact moves_cons (fun prefetch space => registersAsk prefetch space responses left (bar + 2))
        allocated calm (inductive_hypothesis quiet large)
  | case6 left bar hose zero decoded addr next allocated updated narrow inductive_hypothesis =>
      have narrow : ¬ (decodeBar (hose.regions .prefetch).isSome (responses bar)).2.2 = true :=
        narrow
      simp only [registers_some zero, if_neg narrow]
      have calm := (setup_stays responses path left (bar + 1) updated).quiet quiet
      exact moves_cons (fun prefetch space => registersAsk prefetch space responses left (bar + 1))
        allocated calm (inductive_hypothesis quiet large)

end UBoot.Pci.Outlines
