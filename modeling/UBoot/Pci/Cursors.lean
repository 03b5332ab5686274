import UBoot.Pci.PciAuto

/-!
The cursors of the regions. An address comes from its region above everything that
was handed out before, and a bridge decodes what its region gave out between
its two visits.
-/

namespace UBoot.Pci.Cursors

open PciAuto

/-! ### Alignment -/

theorem align_le {lower size : UInt32} (fits : lower = 0 ∨ alignUp lower size ≠ 0) :
    lower.toNat ≤ (alignUp lower size).toNat := by
  rcases fits with rfl | fits
  · exact Nat.zero_le _
  · by_cases zero : lower = 0
    · subst zero
      exact Nat.zero_le _
    have positive : 0 < lower.toNat := by
      rw [Nat.pos_iff_ne_zero]
      exact fun same => zero (UInt32.toNat.inj same)
    have bound := lower.toNat_lt
    have less : (lower - 1).toNat = lower.toNat - 1 := by
      rw [UInt32.toNat_sub_of_le]
      · rfl
      · exact UInt32.le_iff_toNat_le.mpr positive
    have above : lower.toNat - 1 ≤ ((lower - 1) ||| (size - 1)).toNat := by
      rw [UInt32.toNat_or, less]
      exact Nat.left_le_or
    have room : ((lower - 1) ||| (size - 1)).toNat + 1 < 2 ^ 32 := by
      have small := ((lower - 1) ||| (size - 1)).toNat_lt
      by_contra full
      apply fits
      apply UInt32.toNat.inj
      unfold alignUp
      rw [UInt32.toNat_add]
      have last : ((lower - 1) ||| (size - 1)).toNat = 2 ^ 32 - 1 := by omega
      rw [last]
      rfl
    unfold alignUp
    rw [UInt32.toNat_add, show (1 : UInt32).toNat = 1 from rfl, Nat.mod_eq_of_lt room]
    omega

theorem or_ones (a k : Nat) : (a ||| (2 ^ k - 1)) % 2 ^ k = 2 ^ k - 1 := by
  have positive : 0 < 2 ^ k := Nat.two_pow_pos k
  rw [Nat.or_mod_two_pow, Nat.mod_eq_of_lt (Nat.sub_lt positive Nat.one_pos)]
  apply Nat.le_antisymm
  · have bound := Nat.or_lt_two_pow (Nat.mod_lt a positive) (Nat.sub_lt positive Nat.one_pos)
    omega
  · exact Nat.right_le_or

/-- What an alignment to a power of two leaves is a multiple of it. -/
theorem align_multiple (lower size : UInt32) {k : Nat} (small : k ≤ 32)
    (power : (size - 1).toNat = 2 ^ k - 1) : 2 ^ k ∣ (alignUp lower size).toNat := by
  have positive : 0 < 2 ^ k := Nat.two_pow_pos k
  have whole : 2 ^ k ∣ 2 ^ 32 := Nat.pow_dvd_pow 2 small
  have ones : (((lower - 1) ||| (size - 1)).toNat + 1) % 2 ^ k = 0 := by
    rw [UInt32.toNat_or, power, Nat.add_mod, or_ones]
    have sum : 2 ^ k - 1 + 1 % 2 ^ k ≡ 2 ^ k [MOD 2 ^ k] := by
      have step : 2 ^ k - 1 + 1 = 2 ^ k := by omega
      exact ((Nat.mod_modEq 1 (2 ^ k)).add_left _).trans (by rw [step])
    exact Eq.trans (show _ = _ from sum) (Nat.mod_self _)
  unfold alignUp
  rw [UInt32.toNat_add, show (1 : UInt32).toNat = 1 from rfl]
  exact (Nat.dvd_mod_iff whole).mpr (Nat.dvd_of_mod_eq_zero ones)

/-- The bits that the registers of a window hold of an address. -/
def windowBits : Space → Nat
  | .mem => 20
  | .prefetch => 20
  | .io => 12

theorem granularity_multiple (space : Space) (lower : UInt32) :
    2 ^ windowBits space ∣ (alignUp lower (granularity space)).toNat := by
  cases space with
  | mem => exact align_multiple lower 0x100000 (k := 20) (by decide) rfl
  | prefetch => exact align_multiple lower 0x100000 (k := 20) (by decide) rfl
  | io => exact align_multiple lower 0x1000 (k := 12) (by decide) rfl

/-! ### Windows -/

def memWindow (base limit : UInt16) : Nat × Nat :=
  (base.toNat / 16 * 2 ^ 20, limit.toNat / 16 * 2 ^ 20 + (2 ^ 20 - 1))

def ioWindow (base limit : UInt8 × UInt16) : Nat × Nat :=
  (base.2.toNat * 2 ^ 16 + base.1.toNat / 16 * 2 ^ 12,
    limit.2.toNat * 2 ^ 16 + limit.1.toNat / 16 * 2 ^ 12 + (2 ^ 12 - 1))

/-- The addresses that a bridge decodes: the first and the last one, if both registers were
programmed. -/
def window (registers : Registers) : Space → Option (Nat × Nat)
  | .mem => Option.map₂ memWindow registers.memoryBase registers.memoryLimit
  | .prefetch => Option.map₂ memWindow registers.prefMemoryBase registers.prefMemoryLimit
  | .io => Option.map₂ ioWindow registers.ioBase registers.ioLimit

theorem and_high (a mask k : Nat) {bits : Nat} (ones : mask / 2 ^ k = 2 ^ bits - 1)
    (bound : a < 2 ^ (k + bits)) : (a &&& mask) / 2 ^ k = a / 2 ^ k := by
  have small : a / 2 ^ k < 2 ^ bits := by
    rw [Nat.div_lt_iff_lt_mul (Nat.two_pow_pos k), ← Nat.pow_add, Nat.add_comm]
    exact bound
  rw [Nat.and_div_two_pow, ones, Nat.and_two_pow_sub_one_eq_mod, Nat.mod_eq_of_lt small]

theorem memoryBase_value (lower : UInt32) :
    (memoryBase lower).toNat / 16 = lower.toNat / 2 ^ 20 := by
  have bound := lower.toNat_lt
  have high := @and_high lower.toNat 0xfff00000 20 12 rfl bound
  have less : lower.toNat &&& 0xfff00000 < 2 ^ 32 := Nat.lt_of_le_of_lt Nat.and_le_left bound
  have register : (memoryBase lower).toNat = (lower.toNat &&& 0xfff00000) / 2 ^ 16 % 2 ^ 16 := by
    simp only [memoryBase, UInt32.toNat_toUInt16, UInt32.toNat_shiftRight, UInt32.toNat_and,
      Nat.shiftRight_eq_div_pow]
    rfl
  rw [register, ← high]
  omega

theorem memoryLimit_value (lower : UInt32) :
    (memoryLimit lower).toNat / 16 = (lower - 1).toNat / 2 ^ 20 := by
  have bound := (lower - 1).toNat_lt
  have register : (memoryLimit lower).toNat = (lower - 1).toNat / 2 ^ 16 % 2 ^ 16 := by
    simp only [memoryLimit, UInt32.toNat_toUInt16, UInt32.toNat_shiftRight,
      Nat.shiftRight_eq_div_pow]
    rfl
  rw [register]
  omega

theorem ioBase_value (lower : UInt32) :
    (ioBase lower).2.toNat * 2 ^ 16 + (ioBase lower).1.toNat / 16 * 2 ^ 12 =
      lower.toNat / 2 ^ 12 * 2 ^ 12 := by
  have bound := lower.toNat_lt
  have high := @and_high lower.toNat 0xffff0000 16 16 rfl bound
  have low : (lower.toNat &&& 0x0000f000) / 2 ^ 12 = lower.toNat / 2 ^ 12 % 2 ^ 4 := by
    rw [Nat.and_div_two_pow, show 0x0000f000 / 2 ^ 12 = 2 ^ 4 - 1 from rfl,
      Nat.and_two_pow_sub_one_eq_mod]
  have less : lower.toNat &&& 0xf000 ≤ 0xf000 := Nat.and_le_right
  have upper : (ioBase lower).2.toNat = (lower.toNat &&& 0xffff0000) / 2 ^ 16 % 2 ^ 16 := by
    simp only [ioBase, UInt32.toNat_toUInt16, UInt32.toNat_shiftRight, UInt32.toNat_and,
      Nat.shiftRight_eq_div_pow]
    rfl
  have lowest : (ioBase lower).1.toNat = (lower.toNat &&& 0xf000) / 2 ^ 8 % 2 ^ 8 := by
    simp only [ioBase, UInt32.toNat_toUInt8, UInt32.toNat_shiftRight, UInt32.toNat_and,
      Nat.shiftRight_eq_div_pow]
    rfl
  rw [upper, lowest, high]
  omega

/-- The last address in front of a cursor: in front of 0 it is the last one of all. -/
theorem last_address (high : UInt32) :
    (high - 1).toNat = if high.toNat = 0 then 2 ^ 32 - 1 else high.toNat - 1 := by
  split
  · next zero =>
      have same : high = 0 := UInt32.toNat.inj zero
      subst same
      rfl
  · next other =>
      rw [UInt32.toNat_sub_of_le]
      · rfl
      · exact UInt32.le_iff_toNat_le.mpr (Nat.pos_iff_ne_zero.mpr other)

/-- What a cursor programs into a window. -/
theorem window_value (space : Space) {low high : UInt32}
    (aligned : 2 ^ windowBits space ∣ low.toNat) (aligned' : 2 ^ windowBits space ∣ high.toNat) :
    (match space with
      | .io => ioWindow (ioBase low) (ioLimit high)
      | _ => memWindow (memoryBase low) (memoryLimit high)) =
        (low.toNat, (high - 1).toNat) := by
  have last := last_address high
  have bound := high.toNat_lt
  cases space with
  | mem =>
      have aligned : 2 ^ 20 ∣ low.toNat := aligned
      have aligned' : 2 ^ 20 ∣ high.toNat := aligned'
      simp only [memWindow, memoryBase_value, memoryLimit_value, Nat.div_mul_cancel aligned]
      congr 1
      split at last <;> omega
  | prefetch =>
      have aligned : 2 ^ 20 ∣ low.toNat := aligned
      have aligned' : 2 ^ 20 ∣ high.toNat := aligned'
      simp only [memWindow, memoryBase_value, memoryLimit_value, Nat.div_mul_cancel aligned]
      congr 1
      split at last <;> omega
  | io =>
      have aligned : 2 ^ 12 ∣ low.toNat := aligned
      have aligned' : 2 ^ 12 ∣ high.toNat := aligned'
      simp only [ioWindow, ioLimit, ioBase_value, Nat.div_mul_cancel aligned]
      congr 1
      split at last <;> omega

/-! ### What the cursors do -/

def lower (hose : PciController) (space : Space) : Nat := ((lowerOf hose space).getD 0).toNat

/-- The regions stay, and no cursor goes back. -/
def Climbs (before after : PciController) : Prop :=
  ∀ space, (lowerOf after space).isSome = (lowerOf before space).isSome ∧
    lower before space ≤ lower after space

theorem climbs_refl (hose : PciController) : Climbs hose hose :=
  fun _ => ⟨rfl, Nat.le_refl _⟩

theorem climbs_trans {first second third : PciController} (one : Climbs first second)
    (two : Climbs second third) : Climbs first third :=
  fun space => ⟨(two space).1.trans (one space).1, Nat.le_trans (one space).2 (two space).2⟩

theorem align_lower (hose : PciController) (space other : Space) :
    lowerOf (regionAlign hose space) other =
      if other = space then (lowerOf hose space).map (alignUp · (granularity space))
      else lowerOf hose other := by
  unfold regionAlign lowerOf
  cases here : hose.regions space with
  | none =>
      by_cases same : other = space
      · rw [if_pos same, same, here]
        rfl
      · rw [if_neg same]
  | some res =>
      by_cases same : other = space
      · subst same
        simp
      · simp [same]

theorem align_wrapped (hose : PciController) (space : Space) :
    (regionAlign hose space).wrapped = false ↔ hose.wrapped = false ∧
      ∀ low ∈ lowerOf hose space, low = 0 ∨ alignUp low (granularity space) ≠ 0 := by
  unfold regionAlign lowerOf
  cases hose.regions space with
  | none => simp
  | some res => simp [or_iff_not_imp_left]

theorem align_all_lower (hose : PciController) (space : Space) :
    lowerOf (alignAll hose) space =
      (lowerOf hose space).map (alignUp · (granularity space)) := by
  unfold alignAll
  cases space <;> simp [align_lower]

theorem align_all_wrapped (hose : PciController) :
    (alignAll hose).wrapped = false ↔ hose.wrapped = false ∧
      ∀ space, ∀ low ∈ lowerOf hose space, low = 0 ∨ alignUp low (granularity space) ≠ 0 := by
  unfold alignAll
  simp only [align_wrapped, align_lower]
  constructor
  · rintro ⟨⟨⟨quiet, mem⟩, prefetch⟩, io⟩
    refine ⟨quiet, fun space => ?_⟩
    cases space with
    | mem => exact mem
    | prefetch => exact prefetch
    | io => exact io
  · rintro ⟨quiet, all⟩
    exact ⟨⟨⟨quiet, all .mem⟩, all .prefetch⟩, all .io⟩

theorem align_all_climbs {hose : PciController} (quiet : (alignAll hose).wrapped = false) :
    Climbs hose (alignAll hose) := by
  intro space
  have fits := ((align_all_wrapped hose).mp quiet).2 space
  unfold lower
  rw [align_all_lower]
  cases here : lowerOf hose space with
  | none => exact ⟨rfl, Nat.le_refl _⟩
  | some low => exact ⟨rfl, align_le (fits low here)⟩

theorem align_all_multiple (hose : PciController) (space : Space) :
    2 ^ windowBits space ∣ lower (alignAll hose) space := by
  unfold lower
  rw [align_all_lower]
  cases lowerOf hose space with
  | none => exact Nat.dvd_zero _
  | some low => exact granularity_multiple space low

theorem align_fields (hose : PciController) (space : Space) :
    (regionAlign hose space).bars = hose.bars ∧ (regionAlign hose space).bridges = hose.bridges ∧
      (regionAlign hose space).currentBusno = hose.currentBusno := by
  unfold regionAlign
  split <;> exact ⟨rfl, rfl, rfl⟩

theorem align_all_fields (hose : PciController) :
    (alignAll hose).bars = hose.bars ∧ (alignAll hose).bridges = hose.bridges ∧
      (alignAll hose).currentBusno = hose.currentBusno := by
  unfold alignAll
  simp [align_fields]

/-- A bar was handed out between two states of the controller. -/
def HandedOut (before after : PciController) (bar : Bar) : Prop :=
  (lowerOf before bar.space).isSome ∧ lower before bar.space ≤ bar.address.toNat ∧
    bar.address.toNat + bar.size.toNat ≤ lower after bar.space ∧
    (bar.size = 0 → lower before bar.space = 0 ∧ bar.address = 0)

theorem handed_widen {first second third fourth : PciController} {bar : Bar}
    (handed : HandedOut second third bar) (one : Climbs first second) (two : Climbs third fourth) :
    HandedOut first fourth bar := by
  obtain ⟨here, low, high, empty⟩ := handed
  refine ⟨(one bar.space).1 ▸ here, Nat.le_trans (one bar.space).2 low,
    Nat.le_trans high (two bar.space).2, fun zero => ?_⟩
  obtain ⟨bottom, address⟩ := empty zero
  exact ⟨Nat.le_zero.mp (bottom ▸ (one bar.space).2), address⟩

theorem allocate_handed {hose next : PciController} {space : Space} {size addr : UInt32}
    (allocated : regionAllocate hose space size = some (addr, next)) (path : List Nat)
    (quiet : next.wrapped = false) :
    hose.wrapped = false ∧ Climbs hose next ∧ HandedOut hose next ⟨path, space, addr, size⟩ ∧
      next.bars = hose.bars ∧ next.bridges = hose.bridges ∧
      next.currentBusno = hose.currentBusno := by
  unfold regionAllocate at allocated
  cases here : hose.regions space with
  | none =>
      rw [here] at allocated
      cases allocated
  | some res =>
      rw [here] at allocated
      dsimp only at allocated
      split at allocated
      · cases allocated
      · obtain ⟨rfl, rfl⟩ := Prod.mk.inj (Option.some.inj allocated)
        simp only [Bool.or_eq_false_iff, decide_eq_false_iff_not, not_or, not_and_or, not_not,
          not_le] at quiet
        obtain ⟨calm, fits, room⟩ := quiet
        have up : res.busLower.toNat ≤ (alignUp res.busLower size).toNat := align_le fits
        have sum : (alignUp res.busLower size + size).toNat =
            (alignUp res.busLower size).toNat + size.toNat := by
          rw [UInt32.toNat_add, Nat.mod_eq_of_lt room]
        have low : lowerOf hose space = some res.busLower := by
          unfold lowerOf
          rw [here]
          rfl
        refine ⟨calm, fun other => ?_, ?_, rfl, rfl, rfl⟩
        · by_cases same : other = space
          · subst same
            unfold lower
            rw [low]
            simp only [lowerOf, Function.update_self, Option.map_some, Option.isSome_some,
              Option.getD_some]
            exact ⟨trivial, by omega⟩
          · simp only [lower, lowerOf, Function.update_of_ne same]
            exact ⟨trivial, Nat.le_refl _⟩
        · unfold HandedOut lower
          rw [low]
          simp only [lowerOf, Function.update_self, Option.map_some, Option.isSome_some,
            Option.getD_some]
          refine ⟨trivial, up, by omega, fun empty => ?_⟩
          have bottom : alignUp res.busLower size = 0 := by
            have multiple : 2 ^ 32 ∣ (alignUp res.busLower size).toNat :=
              align_multiple res.busLower size (Nat.le_refl 32) (by rw [empty]; rfl)
            exact UInt32.toNat.inj (Nat.eq_zero_of_dvd_of_lt multiple (UInt32.toNat_lt _))
          have start : res.busLower = 0 := fits.resolve_right fun other => other bottom
          exact ⟨by rw [start]; rfl, bottom⟩

end UBoot.Pci.Cursors
