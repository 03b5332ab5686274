import UBoot.Pci.ConfigDevice

/-!
The windows of pci_hose_config_device. A cursor of the code is the exact one modulo 2^32, except
behind a narrow I/O window, whose size is computed with the upper 16 bits set.
-/

namespace UBoot.Pci.ConfigWindows

open PciAuto (alignUp)
open SetupDevice RegionAllocate ConfigDevice

section Spread
variable {isIo : Bool} {relates : List BaseAddress → UInt32 → Nat → Prop} {place : Turn → Nat}
  {good : Turn → Prop}

/-- What a turn does with the cursor of its kind, and which address it takes there. -/
structure Follows (isIo : Bool) (relates : List BaseAddress → UInt32 → Nat → Prop)
    (place : Turn → Nat) (good : Turn → Prop) (all : List BaseAddress) : Prop where
  passes : ∀ bar rest base cursor, bar ∈ all → bar.uses isIo = false →
    relates (bar :: rest) base cursor → relates rest base cursor
  takes : ∀ bar rest base cursor register, bar ∈ all → bar.uses isIo = true →
    relates (bar :: rest) base cursor → roundUp cursor bar.size + bar.size ≤ bar.limit →
      place ⟨register, bar, alignUp base bar.barSize⟩ = roundUp cursor bar.size ∧
        good ⟨register, bar, alignUp base bar.barSize⟩ ∧
        relates rest (alignUp base bar.barSize + bar.barSize) (roundUp cursor bar.size + bar.size)

theorem size_pos {bar : BaseAddress} (uses : bar.uses isIo = true) : 0 < bar.size := by
  cases bar with
  | unused => cases uses
  | io narrow k => exact Nat.two_pow_pos k
  | memory prefetch k => exact Nat.two_pow_pos k
  | wide prefetch k => exact Nat.two_pow_pos k

theorem uses_is {bar : BaseAddress} (uses : bar.uses isIo = true) : bar.isIo = isIo := by
  rw [BaseAddress.uses, Bool.and_eq_true] at uses
  exact eq_of_beq uses.2

/-- The windows of one kind are in the order of the base addresses. -/
theorem turns_spread {all : List BaseAddress} (follows : Follows isIo relates place good all)
    (bars : List BaseAddress) (among : ∀ bar ∈ bars, bar ∈ all) (register : Nat) (io mem : UInt32)
    (cursor : Nat) (start : relates bars (if isIo then io else mem) cursor)
    (fits : Fits isIo cursor bars) :
    (∀ turn ∈ turns register io mem bars, turn.bar.uses isIo = true →
      cursor ≤ place turn ∧ good turn) ∧
    (turns register io mem bars).Pairwise fun one other =>
      one.bar.uses isIo = true → other.bar.uses isIo = true →
        place one + one.bar.size ≤ place other := by
  induction bars generalizing register io mem cursor with
  | nil => exact ⟨fun _ member => absurd member List.not_mem_nil, List.Pairwise.nil⟩
  | cons bar rest inductive_hypothesis =>
      obtain ⟨here, later⟩ := List.forall_mem_cons.mp among
      have same : (if isIo then bar.next true io else bar.next false mem) =
          bar.next isIo (if isIo then io else mem) := by
        cases isIo <;> rfl
      rw [turns, List.forall_mem_cons, List.pairwise_cons]
      rw [Fits] at fits
      by_cases uses : bar.uses isIo = true
      · rw [if_pos uses] at fits
        obtain ⟨placed, well, next⟩ :=
          follows.takes bar rest _ cursor register here uses start fits.1
        have value : bar.value io mem = alignUp (if isIo then io else mem) bar.barSize := by
          rw [BaseAddress.value, uses_is uses]
        have moved : relates rest (if isIo then bar.next true io else bar.next false mem)
            (roundUp cursor bar.size + bar.size) := by
          rw [same, BaseAddress.next, if_pos uses]
          exact next
        obtain ⟨above, spread⟩ := inductive_hypothesis later (register + bar.registers)
          (bar.next true io) (bar.next false mem) _ moved fits.2
        have up := (@round_up_bounds cursor bar.size (size_pos uses)).1
        rw [value]
        refine ⟨⟨fun _ => ⟨placed ▸ up, well⟩, fun turn member used => ?_⟩, fun turn member _ used => ?_,
          spread⟩
        · obtain ⟨behind, fine⟩ := above turn member used
          exact ⟨by omega, fine⟩
        · rw [placed]
          exact (above turn member used).1
      · rw [if_neg uses] at fits
        have moved : relates rest (if isIo then bar.next true io else bar.next false mem) cursor := by
          rw [same, BaseAddress.next, if_neg uses]
          exact follows.passes bar rest _ cursor here (Bool.eq_false_iff.mpr uses) start
        obtain ⟨above, spread⟩ := inductive_hypothesis later (register + bar.registers)
          (bar.next true io) (bar.next false mem) _ moved fits
        exact ⟨⟨fun used => absurd used uses, above⟩, fun turn member used _ => absurd used uses, spread⟩

end Spread

/-! ### Full addresses -/

section Full

/-- The address that the code computes for a window of the full addresses. -/
theorem full_align {k : Nat} {base : UInt32} {cursor : Nat} (small : cursor ≤ 2 ^ 32)
    (value : base.toNat = cursor % 2 ^ 32) (fits : roundUp cursor (2 ^ k) + 2 ^ k ≤ 2 ^ 32) :
    (alignUp base (UInt32.ofNat (2 ^ k))).toNat = roundUp cursor (2 ^ k) ∧
      (alignUp base (UInt32.ofNat (2 ^ k)) + UInt32.ofNat (2 ^ k)).toNat =
        (roundUp cursor (2 ^ k) + 2 ^ k) % 2 ^ 32 := by
  have positive := Nat.two_pow_pos k
  have address : (alignUp base (UInt32.ofNat (2 ^ k))).toNat = roundUp cursor (2 ^ k) := by
    have below : roundUp cursor (2 ^ k) < 2 ^ 32 := by omega
    by_cases short : k < 32
    · rw [← Nat.mod_eq_of_lt below]
      exact align_value small value ⟨k, short⟩
    · -- the window takes all the addresses
      have power : 2 ^ k ≤ 2 ^ 32 := by omega
      have whole : k = 32 := by
        have most := (Nat.pow_le_pow_iff_right Nat.one_lt_two).mp power
        omega
      have none : roundUp cursor (2 ^ k) = 0 := by
        rw [whole] at fits ⊢
        omega
      have ones : (base - 1) ||| (0 - 1) = 0 - 1 := by
        apply UInt32.toNat.inj
        have high := Nat.or_lt_two_pow (base - 1).toNat_lt (show 2 ^ 32 - 1 < 2 ^ 32 by decide)
        have low := @Nat.right_le_or (base - 1).toNat (2 ^ 32 - 1)
        rw [UInt32.toNat_or, show ((0 : UInt32) - 1).toNat = 2 ^ 32 - 1 from rfl]
        omega
      rw [none, whole, alignUp, show UInt32.ofNat (2 ^ 32) = 0 from rfl, ones]
      rfl
  refine ⟨address, ?_⟩
  rw [UInt32.toNat_add, address, UInt32.toNat_ofNat', Nat.add_mod_mod]

/-- The cursor is the exact one, below or at the end of the addresses. -/
def exactly (_ : List BaseAddress) (base : UInt32) (cursor : Nat) : Prop :=
  cursor ≤ 2 ^ 32 ∧ base.toNat = cursor % 2 ^ 32

theorem bar_size_full {bar : BaseAddress} {isIo : Bool} (uses : bar.uses isIo = true)
    (full : bar.isNarrow = false) : ∃ k, bar.size = 2 ^ k ∧ bar.barSize = UInt32.ofNat (2 ^ k) := by
  cases bar with
  | unused => cases uses
  | io narrow k =>
      cases full
      exact ⟨k, rfl, rfl⟩
  | memory prefetch k => exact ⟨k, rfl, rfl⟩
  | wide prefetch k => exact ⟨k, rfl, rfl⟩

theorem full_follows (isIo : Bool) {all : List BaseAddress}
    (full : ∀ bar ∈ all, bar.uses isIo = true → bar.isNarrow = false) :
    Follows isIo exactly Turn.start (fun turn => turn.bar.size ∣ turn.start) all := by
  constructor
  · exact fun _ _ _ _ _ _ relates => relates
  · intro bar rest base cursor register member uses relates fits
    have wide := full bar member uses
    obtain ⟨k, size, barSize⟩ := bar_size_full uses wide
    rw [BaseAddress.limit, wide, size, if_neg Bool.false_ne_true] at fits
    obtain ⟨address, next⟩ := full_align relates.1 relates.2 fits
    have start : Turn.start ⟨register, bar, alignUp base bar.barSize⟩ = roundUp cursor (2 ^ k) := by
      rw [Turn.start, wide, if_neg Bool.false_ne_true, barSize]
      exact address
    refine ⟨by rw [start, size], ?_, ?_⟩
    · rw [start]
      dsimp only
      rw [size]
      exact (round_up_bounds (Nat.two_pow_pos k)).2.2
    · rw [barSize, size]
      exact ⟨fits, next⟩

end Full

/-! ### Devices with a narrow I/O window -/

section Narrow
variable {first : Nat}

theorem round_up_shift {size shift : Nat} (positive : 0 < size) (multiple : size ∣ shift) (place : Nat) :
    roundUp (shift + place) size = shift + roundUp place size := by
  obtain ⟨count, rfl⟩ := multiple
  have sum : size * count + place + size - 1 = (place + size - 1) + size * count := by omega
  rw [roundUp, sum, Nat.add_mul_div_left _ _ positive, Nat.add_mul, ← roundUp, Nat.mul_comm count size]
  exact Nat.add_comm _ _

/-- The cursor is the exact one, moved up by 0xfffe0000 behind a narrow window, or by 0xffff0000 where
the only one of them began at 0. -/
def Moved (first : Nat) (rest : List BaseAddress) (base : UInt32) (cursor : Nat) : Prop :=
  first ≤ cursor ∧ cursor + 512 * rest.length ≤ first + 3072 ∧
    ∃ count, base.toNat = 2 ^ 16 * count + cursor ∧
      (count = 0 ∨ 0 < cursor ∧ (count = 0xfffe ∨ first = 0 ∧ count = 0xffff))

/-- The place of a window, counted modulo 2^16. -/
def folded (first : Nat) (turn : Turn) : Nat := first + (turn.start - first) % 2 ^ 16

structure Lifted (first : Nat) (turn : Turn) : Prop where
  aligned : turn.bar.size ∣ turn.start
  above : first ≤ turn.start
  within : folded first turn + turn.bar.size ≤ first + 2 ^ 16

/-- The address for a narrow window: the upper 16 bits come from the size. -/
theorem narrow_align {k : Nat} (small : k ≤ 8) (base : UInt32) :
    (alignUp base (0xffff0000 + UInt32.ofNat (2 ^ k))).toNat =
      (0xffff0000 + roundUp ((base - 1).toNat % 2 ^ 16 + 1) (2 ^ k)) % 2 ^ 32 := by
  have positive := Nat.two_pow_pos k
  have power : 2 ^ k ≤ 2 ^ 8 := Nat.pow_le_pow_right (by decide) small
  have size : (0xffff0000 + UInt32.ofNat (2 ^ k) - 1).toNat = 2 ^ 16 * 0xffff + (2 ^ k - 1) := by
    have value : (UInt32.ofNat (2 ^ k)).toNat = 2 ^ k := by
      rw [UInt32.toNat_ofNat']
      exact Nat.mod_eq_of_lt (by omega)
    rw [UInt32.toNat_sub, UInt32.toNat_add, value, show (0xffff0000 : UInt32).toNat = 0xffff0000 from rfl,
      show (1 : UInt32).toNat = 1 from rfl]
    omega
  rw [alignUp, UInt32.toNat_add, UInt32.toNat_or, size]
  have bound := (base - 1).toNat_lt
  generalize (base - 1).toNat = last at bound ⊢
  have high : (last ||| (2 ^ 16 * 0xffff + (2 ^ k - 1))) / 2 ^ 16 = 0xffff := by
    have upper := Nat.or_lt_two_pow (show last / 2 ^ 16 < 2 ^ 16 by omega)
      (show 0xffff < 2 ^ 16 by decide)
    have most := @Nat.right_le_or (last / 2 ^ 16) 0xffff
    rw [Nat.or_div_two_pow, show (2 ^ 16 * 0xffff + (2 ^ k - 1)) / 2 ^ 16 = 0xffff by omega]
    omega
  have low : (last ||| (2 ^ 16 * 0xffff + (2 ^ k - 1))) % 2 ^ 16 = last % 2 ^ 16 ||| (2 ^ k - 1) := by
    rw [Nat.or_mod_two_pow, show (2 ^ 16 * 0xffff + (2 ^ k - 1)) % 2 ^ 16 = 2 ^ k - 1 by omega]
  have up := or_low_ones (last % 2 ^ 16) k
  have whole := Nat.div_add_mod (last ||| (2 ^ 16 * 0xffff + (2 ^ k - 1))) (2 ^ 16)
  rw [high, low] at whole
  rw [round_up_succ, ← up, ← whole, show (1 : UInt32).toNat = 1 from rfl, Nat.add_assoc]
  rfl

theorem fits_below {bars : List BaseAddress} {cursor : Nat} (fits : Fits true cursor bars)
    (narrow : bars.any BaseAddress.isNarrow = true) : cursor < 2 ^ 16 := by
  induction bars generalizing cursor with
  | nil => cases narrow
  | cons bar rest inductive_hypothesis =>
      rw [Fits] at fits
      rw [List.any_cons, Bool.or_eq_true] at narrow
      by_cases uses : bar.uses true = true
      · have positive := size_pos uses
        have up := (@round_up_bounds cursor bar.size positive).1
        rw [if_pos uses] at fits
        rcases narrow with here | later
        · rw [BaseAddress.limit, here, if_pos rfl] at fits
          omega
        · have below := inductive_hypothesis fits.2 later
          omega
      · rw [if_neg uses] at fits
        rcases narrow with here | later
        · cases bar <;> simp_all [BaseAddress.isNarrow, BaseAddress.uses, BaseAddress.isIo]
        · exact inductive_hypothesis fits later

/-- The size of an I/O window that keeps to the PCI rules. -/
theorem small_size {k : Nat} (small : k ≤ 8) : 2 ^ k ∣ 2 ^ 16 ∧ 0 < 2 ^ k ∧ 2 ^ k ≤ 256 :=
  ⟨Nat.pow_dvd_pow 2 (by omega), Nat.two_pow_pos k, Nat.pow_le_pow_right (n := 2) (by decide) small⟩

theorem folded_place {turn : Turn} {place count : Nat} (start : turn.start = 2 ^ 16 * count + place)
    (above : first ≤ place) (below : place < first + 2 ^ 16) : folded first turn = place := by
  rw [folded, start]
  omega

theorem lifted_of {turn : Turn} {place count : Nat} (start : turn.start = 2 ^ 16 * count + place)
    (divides : turn.bar.size ∣ 2 ^ 16) (multiple : turn.bar.size ∣ place) (above : first ≤ place)
    (below : place + turn.bar.size ≤ first + 2 ^ 16) (positive : 0 < turn.bar.size) :
    folded first turn = place ∧ Lifted first turn := by
  have same := folded_place start above (by omega)
  refine ⟨same, ?_, by omega, by omega⟩
  rw [start]
  exact Nat.dvd_add (Nat.dvd_mul_right_of_dvd divides count) multiple

/-- A window of the full addresses, in a device that has a narrow one. -/
theorem lifted_align {k cursor count : Nat} {base : UInt32} (small : k ≤ 8)
    (value : base.toNat = 2 ^ 16 * count + cursor)
    (room : 2 ^ 16 * count + (cursor + 511) < 2 ^ 32) :
    (alignUp base (UInt32.ofNat (2 ^ k))).toNat = 2 ^ 16 * count + roundUp cursor (2 ^ k) ∧
      (alignUp base (UInt32.ofNat (2 ^ k)) + UInt32.ofNat (2 ^ k)).toNat =
        2 ^ 16 * count + (roundUp cursor (2 ^ k) + 2 ^ k) := by
  obtain ⟨divides, positive, most⟩ := small_size small
  obtain ⟨up, near, _⟩ := @round_up_bounds cursor (2 ^ k) positive
  have shifted := round_up_shift positive (Nat.dvd_mul_right_of_dvd divides count) cursor
  obtain ⟨address, next⟩ := @full_align k base (2 ^ 16 * count + cursor) (by omega)
    (by rw [value, Nat.mod_eq_of_lt (by omega)]) (by omega)
  rw [shifted] at address next
  exact ⟨address, by rw [next, Nat.mod_eq_of_lt (by omega), Nat.add_assoc]⟩

/-- A narrow window: the address it decodes, and where the next base is. -/
theorem narrow_value {k cursor count : Nat} {base : UInt32} (small : k ≤ 8)
    (value : base.toNat = 2 ^ 16 * count + cursor) (counts : count = 0 ∨ 0 < cursor)
    (fits : roundUp cursor (2 ^ k) + 2 ^ k ≤ 2 ^ 16) :
    (alignUp base (0xffff0000 + UInt32.ofNat (2 ^ k))).toNat % 2 ^ 16 = roundUp cursor (2 ^ k) ∧
      (alignUp base (0xffff0000 + UInt32.ofNat (2 ^ k)) +
          (0xffff0000 + UInt32.ofNat (2 ^ k))).toNat =
        2 ^ 16 * (if cursor = 0 then 0xffff else 0xfffe) + (roundUp cursor (2 ^ k) + 2 ^ k) := by
  obtain ⟨divides, positive, most⟩ := small_size small
  obtain ⟨up, near, _⟩ := @round_up_bounds cursor (2 ^ k) positive
  have bound := base.toNat_lt
  have size : (0xffff0000 + UInt32.ofNat (2 ^ k)).toNat = 0xffff0000 + 2 ^ k := by
    rw [UInt32.toNat_add, UInt32.toNat_ofNat', show (0xffff0000 : UInt32).toNat = 0xffff0000 from rfl]
    omega
  have address := narrow_align small base
  rw [UInt32.toNat_add, size]
  by_cases zero : cursor = 0
  · -- all bits are set below the first address, and the sum is 0
    have none : base = 0 := by
      apply UInt32.toNat.inj
      rw [show (0 : UInt32).toNat = 0 from rfl]
      omega
    have last : ((0 : UInt32) - 1).toNat % 2 ^ 16 + 1 = 2 ^ 16 := rfl
    rw [none, last, round_up_self positive divides] at address
    have start : roundUp cursor (2 ^ k) = 0 := by
      rw [zero]
      exact round_up_self positive (Nat.dvd_zero _)
    rw [none, address, if_pos zero, start]
    omega
  · have before : (base - 1).toNat % 2 ^ 16 + 1 = cursor := by
      rw [UInt32.toNat_sub_of_le]
      · rw [show (1 : UInt32).toNat = 1 from rfl]
        omega
      · rw [UInt32.le_iff_toNat_le, show (1 : UInt32).toNat = 1 from rfl]
        omega
    rw [before] at address
    rw [address, if_neg zero]
    omega

theorem narrow_follows {all : List BaseAddress} (below : first < 2 ^ 16)
    (small : ∀ bar ∈ all, bar.Small) :
    Follows true (Moved first) (folded first) (Lifted first) all := by
  constructor
  · rintro bar rest base cursor _ _ ⟨above, room, value⟩
    rw [List.length_cons] at room
    exact ⟨above, by omega, value⟩
  · rintro bar rest base cursor register member uses ⟨above, room, count, value, counts⟩ fits
    rw [List.length_cons] at room
    have short := small bar member
    cases bar with
    | unused => cases uses
    | memory prefetch k => cases uses
    | wide prefetch k => cases uses
    | io narrow k =>
        obtain ⟨divides, positive, most⟩ := small_size short
        obtain ⟨up, near, multiple⟩ := @round_up_bounds cursor (2 ^ k) positive
        cases narrow with
        | false =>
            obtain ⟨address, next⟩ := lifted_align short value (by omega)
            obtain ⟨same, lifted⟩ := @lifted_of first ⟨register, .io false k, alignUp base _⟩ _ count
              address divides multiple (by omega) (by simp only [BaseAddress.size]; omega) positive
            refine ⟨same, lifted, ?_, ?_, count, next, ?_⟩
            · simp only [BaseAddress.size]
              omega
            · simp only [BaseAddress.size]
              omega
            · simp only [BaseAddress.size]
              omega
        | true =>
            obtain ⟨address, next⟩ := narrow_value short value (by omega) fits
            obtain ⟨same, lifted⟩ := @lifted_of first ⟨register, .io true k, alignUp base _⟩ _ 0
              (address.trans (Nat.zero_add _).symm) divides multiple (by omega)
              (by simp only [BaseAddress.size]; omega) positive
            refine ⟨same, lifted, ?_, ?_, _, next, ?_⟩
            · simp only [BaseAddress.size]
              omega
            · simp only [BaseAddress.size]
              omega
            · simp only [BaseAddress.size]
              by_cases zero : cursor = 0
              · rw [if_pos zero]
                omega
              · rw [if_neg zero]
                omega

end Narrow

/-! ### All windows -/

def Turn.Apart (one other : Turn) : Prop :=
  one.start + one.bar.size ≤ other.start ∨ other.start + other.bar.size ≤ one.start

section Whole
variable (device : Device) {io mem : UInt32}

/-- The windows of one kind are aligned, apart and not below their base. -/
theorem kind_spread (isIo : Bool) (space : EnoughSpace io mem device.bars) :
    (∀ turn ∈ turns 0 io mem device.bars, turn.bar.uses isIo = true →
      turn.bar.size ∣ turn.start ∧ (if isIo then io else mem).toNat ≤ turn.start) ∧
    (turns 0 io mem device.bars).Pairwise fun one other =>
      one.bar.uses isIo = true → other.bar.uses isIo = true → Turn.Apart one other := by
  have fits : Fits isIo (if isIo then io else mem).toNat device.bars := by
    cases isIo
    · exact space.mem
    · exact space.io
  have bound := (if isIo then io else mem).toNat_lt
  by_cases narrow : isIo = true ∧ device.bars.any BaseAddress.isNarrow = true
  · obtain ⟨rfl, narrow⟩ := narrow
    rw [if_pos rfl] at fits ⊢
    have short : device.bars.length ≤ 6 := by
      have six : total device.bars = 6 := device.six
      have least := List.length_le_sum_of_one_le (device.bars.map BaseAddress.registers)
        (by simp [BaseAddress.registers_pos])
      rw [List.length_map] at least
      exact least.trans (Nat.le_of_eq six)
    obtain ⟨placed, spread⟩ := turns_spread
      (narrow_follows (fits_below fits narrow) (device.small narrow)) device.bars (fun _ member => member)
      0 io mem io.toNat ⟨Nat.le_refl _, by omega, 0, by simp, .inl rfl⟩ fits
    constructor
    · intro turn member uses
      obtain ⟨_, lifted⟩ := placed turn member uses
      exact ⟨lifted.aligned, lifted.above⟩
    · refine spread.imp_of_mem fun {one other} first second before uses used => ?_
      have order := before uses used
      have one_lifted := (placed one first uses).2
      have other_lifted := (placed other second used).2
      have one_above := one_lifted.above
      have other_above := other_lifted.above
      have within := other_lifted.within
      unfold folded at order within
      unfold Turn.Apart
      omega
  · obtain ⟨placed, spread⟩ := turns_spread
      (full_follows isIo fun bar member uses => by
        by_contra is_narrow
        rw [Bool.not_eq_false] at is_narrow
        refine narrow ⟨?_, List.any_eq_true.mpr ⟨bar, member, is_narrow⟩⟩
        rw [← uses_is uses]
        cases bar <;> simp_all [BaseAddress.isNarrow, BaseAddress.isIo])
      device.bars (fun _ member => member) 0 io mem (if isIo then io else mem).toNat
      ⟨Nat.le_of_lt bound, (Nat.mod_eq_of_lt bound).symm⟩ fits
    constructor
    · intro turn member uses
      exact (placed turn member uses).symm
    · exact spread.imp fun before uses used => .inl (before uses used)

theorem window_some {turn : Turn} {window : Window} (found : turn.window = some window) :
    turn.bar.uses window.isIo = true ∧ window.start = turn.start ∧ window.size = turn.bar.size := by
  rw [Turn.window] at found
  split at found
  · cases found
  · rename_i implemented
    cases found
    simp [BaseAddress.uses, implemented]

/-- All base addresses get their windows exactly where the last register is none of its own. -/
theorem config_device_iff (pin : UInt8) (oldCommand command : UInt32)
    (space : EnoughSpace io mem device.bars) :
    Configured device.bars io mem
        (pciHoseConfigDevice (responseAt device.bars) pin oldCommand io mem command) ↔
      LastUnused device.bars := by
  constructor
  · intro configured bar last
    by_contra implemented
    obtain ⟨start, address, _⟩ := configured.programmed (5, bar) last implemented
    have missed := last_missed device pin oldCommand io mem command last
    cases bar <;> simp_all [BaseAddress.address]
  · intro unused
    have kinds := fun isIo => kind_spread device isIo space
    constructor
    · intro entry member implemented
      rw [← turns_numbered device.bars 0 io mem] at member
      obtain ⟨turn, among, rfl⟩ := List.mem_map.mp member
      have made := turn_made device io mem unused among implemented
      refine ⟨turn.start, turn_address device pin oldCommand io mem command made implemented, ?_⟩
      have uses : turn.bar.uses turn.bar.isIo = true := by
        simpa [BaseAddress.uses] using implemented
      exact ((kinds turn.bar.isIo).1 turn among uses).1
    · rw [windows_eq device pin oldCommand io mem command unused]
      refine List.Pairwise.filterMap _ ?_ ((kinds true).2.and (kinds false).2)
      rintro one other ⟨both_io, both_mem⟩ window first another second same
      obtain ⟨uses, start, size⟩ := window_some first
      obtain ⟨used, begins, extent⟩ := window_some second
      rw [start, size, begins, extent]
      rw [← same] at used
      cases kind : window.isIo with
      | true => exact both_io (kind ▸ uses) (kind ▸ used)
      | false => exact both_mem (kind ▸ uses) (kind ▸ used)
    · intro window member
      rw [windows_eq device pin oldCommand io mem command unused] at member
      obtain ⟨turn, among, found⟩ := List.mem_filterMap.mp member
      obtain ⟨uses, start, _⟩ := window_some found
      rw [start]
      exact ((kinds window.isIo).1 turn among uses).2

end Whole

/-- A narrow I/O window among windows of all kinds. -/
def mixedDevice : Device where
  bars := [.io true 5, .wide true 20, .memory false 12, .io false 3, .unused]
  sound := by decide
  six := rfl
  small := by decide

theorem mixed_space : EnoughSpace 0x1000 0x80000800 mixedDevice.bars := by
  constructor <;>
    simp [Fits, mixedDevice, BaseAddress.uses, BaseAddress.isIo, BaseAddress.size, BaseAddress.limit,
      BaseAddress.isNarrow, roundUp]

theorem mixed_configured :
    Configured mixedDevice.bars 0x1000 0x80000800
      (pciHoseConfigDevice (responseAt mixedDevice.bars) 1 0 0x1000 0x80000800 7) :=
  (config_device_iff mixedDevice 1 0 7 mixed_space).mpr (by simp [LastUnused, mixedDevice, numbered,
    BaseAddress.registers])

def sixWindows : Device where
  bars := List.replicate 6 (.memory false 12)
  sound := by decide
  six := rfl
  small := by decide

/-- The sixth base address is never written, whatever space there is. -/
theorem sixth_missed : EnoughSpace 0x1000 0x80000000 sixWindows.bars ∧
    ¬ Configured sixWindows.bars 0x1000 0x80000000
      (pciHoseConfigDevice (responseAt sixWindows.bars) 1 0 0x1000 0x80000000 7) := by
  constructor
  · constructor <;>
      simp [Fits, sixWindows, BaseAddress.uses, BaseAddress.isIo, BaseAddress.size, BaseAddress.limit,
        BaseAddress.isNarrow, roundUp]
  · intro configured
    have last : (5, .memory false 12) ∈ numbered 0 sixWindows.bars := by decide
    obtain ⟨start, address, _⟩ := configured.programmed _ last (by decide)
    have missed := last_missed sixWindows 1 0 0x1000 0x80000000 7 last
    rw [BaseAddress.address, missed] at address
    cases address

end UBoot.Pci.ConfigWindows
