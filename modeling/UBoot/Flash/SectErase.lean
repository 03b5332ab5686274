import UBoot.Flash.SectRanges

/-!
Which sectors flash_sect_erase erases. The loop over the banks is followed from
the first address of the range: each bank that starts where the one before it
ended is taken, and the address that no bank holds is where the planning stops.
-/

namespace UBoot.Flash.SectErase

open Lib.Strings SectRanges

section Banks

/-- Some erase call covers the address. -/
def Erases (calls : List (FlashInfo × Int × Int)) (addr : Nat) : Prop :=
  ∃ call ∈ calls, ∃ k : Nat, call.2.1 ≤ k ∧ (k : Int) ≤ call.2.2 ∧
    call.1.start k ≤ addr ∧ addr ≤ call.1.sectorEnd k

def SectorStart (banks : List FlashInfo) (addr : Nat) : Prop :=
  ∃ info ∈ banks, info.known = true ∧ info.IsStart addr

def SectorEnd (banks : List FlashInfo) (addr : Nat) : Prop :=
  ∃ info ∈ banks, info.known = true ∧ info.IsEnd addr

/-- The first address from `addr` on that no bank holds, where the banks are passed in table
order and each one continues where the one before it ended. -/
def coveredFrom : List FlashInfo → Nat → Nat
  | [], addr => addr
  | info :: rest, addr =>
      coveredFrom rest (if info.Holds addr then info.bEnd + 1 else addr)

/-- A bank that ends at the top of the address space comes before one that begins at zero. -/
def WrapsToStart : List FlashInfo → Prop
  | [] => False
  | info :: rest =>
      (info.known = true ∧ info.bEnd = 2 ^ 32 - 1 ∧
        ∃ low ∈ rest, low.known = true ∧ low.start 0 = 0) ∨ WrapsToStart rest

/-- Geometry facts about the banks the loop has still to visit. -/
structure Laid (banks : List FlashInfo) : Prop where
  wellFormed : ∀ info ∈ banks, info.known = true → info.WellFormed
  apart : banks.Pairwise fun left right =>
    left.known = true → right.known = true → left.Apart right

/-- The running address is never in the middle of a bank that is still to come. -/
def Clean (banks : List FlashInfo) (addr : Nat) : Prop :=
  ∀ info ∈ banks, info.Holds addr → info.IsStart addr

theorem laid_tail {info : FlashInfo} {rest : List FlashInfo} (laid : Laid (info :: rest)) :
    Laid rest :=
  ⟨fun other member => laid.wellFormed other (List.mem_cons_of_mem info member),
    (List.pairwise_cons.mp laid.apart).2⟩

theorem clean_tail {info : FlashInfo} {rest : List FlashInfo} {addr : Nat}
    (clean : Clean (info :: rest) addr) : Clean rest addr :=
  fun other member => clean other (List.mem_cons_of_mem info member)

theorem sector_end_tail {info : FlashInfo} {rest : List FlashInfo} {addr : Nat}
    (stop : SectorEnd (info :: rest) addr) (notHere : ¬ (info.known = true ∧ info.IsEnd addr)) :
    SectorEnd rest addr := by
  obtain ⟨other, member, identified, ends⟩ := stop
  rcases List.mem_cons.mp member with here | later
  · rw [here] at identified ends
    exact absurd ⟨identified, ends⟩ notHere
  · exact ⟨other, later, identified, ends⟩

/-- Two banks of one geometry lie on different sides of each other. -/
theorem apart_ends {info other : FlashInfo} {rest : List FlashInfo} (laid : Laid (info :: rest))
    (member : other ∈ rest) (left : info.known = true) (right : other.known = true) :
    info.bEnd < other.start 0 ∨ other.bEnd < info.start 0 := by
  have leftEnd := b_end_eq (laid.wellFormed info List.mem_cons_self left)
  have rightEnd := b_end_eq (laid.wellFormed other (List.mem_cons_of_mem info member) right)
  have apart := (List.pairwise_cons.mp laid.apart).1 other member left right
  unfold FlashInfo.Apart at apart
  omega

theorem not_held_twice {info other : FlashInfo} {rest : List FlashInfo} {addr : Nat}
    (laid : Laid (info :: rest)) (member : other ∈ rest) (held : info.Holds addr) :
    ¬ other.Holds addr := by
  intro also
  have apart := apart_ends laid member held.1 also.1
  have first := held.2
  have second := also.2
  omega

/-- After a whole bank the loop stands at a bank start or outside the later banks. -/
theorem clean_after_bank {info : FlashInfo} {rest : List FlashInfo} (laid : Laid (info :: rest))
    (identified : info.known = true) : Clean rest (info.bEnd + 1) := by
  intro other member held
  have valid := laid.wellFormed other (List.mem_cons_of_mem info member) held.1
  have apart := apart_ends laid member identified held.1
  have inside := held.2
  have extent := start_le_b_end (laid.wellFormed info List.mem_cons_self identified)
  have same : other.start 0 = info.bEnd + 1 := by omega
  rw [← same]
  exact zero_is_start valid

theorem covered_from_ge (banks : List FlashInfo) (addr : Nat) : addr ≤ coveredFrom banks addr := by
  induction banks generalizing addr with
  | nil => exact Nat.le_refl addr
  | cons info rest ih =>
      have tail := ih (if info.Holds addr then info.bEnd + 1 else addr)
      unfold coveredFrom
      split at tail
      · rename_i held
        have inside := held.2.2
        rw [if_pos held]
        omega
      · rename_i free
        rw [if_neg free]
        exact tail

theorem covered_from_le (banks : List FlashInfo) (addr bound : Nat) (below : addr ≤ bound)
    (ends : ∀ info ∈ banks, info.known = true → info.bEnd < bound) :
    coveredFrom banks addr ≤ bound := by
  induction banks generalizing addr with
  | nil => exact below
  | cons info rest ih =>
      apply ih
      · split
        · rename_i held
          exact ends info List.mem_cons_self held.1
        · exact below
      · exact fun other member => ends other (List.mem_cons_of_mem info member)

theorem covered_from_held {info : FlashInfo} {rest : List FlashInfo} {addr : Nat}
    (held : info.Holds addr) : coveredFrom (info :: rest) addr = coveredFrom rest (info.bEnd + 1) := by
  rw [coveredFrom, if_pos held]

theorem covered_from_free {info : FlashInfo} {rest : List FlashInfo} {addr : Nat}
    (free : ¬ info.Holds addr) : coveredFrom (info :: rest) addr = coveredFrom rest addr := by
  rw [coveredFrom, if_neg free]

theorem clean_of_start {banks : List FlashInfo} {addr : Nat} (laid : Laid banks)
    (start : SectorStart banks addr) : Clean banks addr := by
  induction banks with
  | nil => exact fun other member => absurd member List.not_mem_nil
  | cons info rest ih =>
      obtain ⟨origin, found, identified, begins⟩ := start
      have originHolds := start_holds (laid.wellFormed origin found identified) identified begins
      intro other member held
      rcases List.mem_cons.mp found with here | later
      · rcases List.mem_cons.mp member with same | tail
        · rw [same, ← here]
          exact begins
        · rw [here] at originHolds
          exact absurd held (not_held_twice laid tail originHolds)
      · rcases List.mem_cons.mp member with same | tail
        · rw [same] at held
          exact absurd originHolds (not_held_twice laid later held)
        · exact ih (laid_tail laid) ⟨origin, later, identified, begins⟩ other tail held

end Banks

/-! What flash_fill_sect_ranges plans: the return code, the number of sectors and the erase calls
that the ranges it leaves behind stand for. -/

structure Plan where
  rcode : Nat
  count : Int
  calls : List (FlashInfo × Int × Int)

def planOf (banks : List FlashInfo) (addrFirst addrLast : Nat) : Plan :=
  let filled := flashFillSectRanges banks addrFirst addrLast
  ⟨filled.rcode, filled.count, eraseCalls banks filled.ranges⟩

theorem erase_calls_none (banks : List FlashInfo) : eraseCalls banks (noRanges banks) = [] := by
  induction banks with
  | nil => rfl
  | cons info rest ih => simpa [eraseCalls, noRanges] using ih

theorem flash_sect_erase_eq (banks : List FlashInfo) (addrFirst addrLast : Nat) :
    flashSectErase banks addrFirst addrLast =
      if (planOf banks addrFirst addrLast).count ≠ 0 ∧ (planOf banks addrFirst addrLast).rcode = 0
      then ⟨0, (planOf banks addrFirst addrLast).calls⟩
      else if (planOf banks addrFirst addrLast).rcode = 0 then ⟨1, []⟩
      else ⟨(planOf banks addrFirst addrLast).rcode, []⟩ := rfl

section Plans
variable {info : FlashInfo} {rest : List FlashInfo} {addrFirst addrLast : Nat}

theorem plan_done {banks : List FlashInfo} (done : ¬ addrFirst ≤ addrLast) :
    planOf banks addrFirst addrLast = ⟨0, 0, []⟩ := by
  cases banks with
  | nil => rfl
  | cons info rest =>
      simp only [planOf, flashFillSectRanges, done, if_false, erase_calls_none]

theorem plan_skip (ordered : addrFirst ≤ addrLast)
    (step : bankStep info addrFirst addrLast = .skip) :
    planOf (info :: rest) addrFirst addrLast = planOf rest addrFirst addrLast := by
  simp [planOf, flashFillSectRanges, ordered, step, eraseCalls]

theorem plan_take (ordered : addrFirst ≤ addrLast) {s t next : Nat}
    (step : bankStep info addrFirst addrLast = .take s t next) :
    planOf (info :: rest) addrFirst addrLast =
      ⟨(planOf rest next addrLast).rcode, (planOf rest next addrLast).count + (t - s + 1),
        (info, (s : Int), (t : Int)) :: (planOf rest next addrLast).calls⟩ := by
  simp [planOf, flashFillSectRanges, ordered, step, eraseCalls]

theorem plan_fail (ordered : addrFirst ≤ addrLast) {sFirst sLast : Int}
    (step : bankStep info addrFirst addrLast = .fail sFirst sLast) :
    (planOf (info :: rest) addrFirst addrLast).rcode = 1 := by
  simp [planOf, flashFillSectRanges, ordered, step]

variable (laid : Laid (info :: rest)) (ordered : addrFirst ≤ addrLast) (ulong : addrLast < 2 ^ 32)
include laid ordered ulong

/-- One bank of the loop over the banks: the range ends here, the rest of the bank is taken, the
range is refused, or the bank takes no part. -/
theorem plan_cases :
    (info.known = true ∧ ∃ s t : Nat, s ≤ t ∧ t < info.sectorCount ∧ info.start s = addrFirst ∧
      info.sectorEnd t = addrLast ∧ planOf (info :: rest) addrFirst addrLast =
        ⟨(planOf rest (toUlong (addrLast + 1)) addrLast).rcode,
          (planOf rest (toUlong (addrLast + 1)) addrLast).count + (t - s + 1),
          (info, (s : Int), (t : Int)) ::
            (planOf rest (toUlong (addrLast + 1)) addrLast).calls⟩) ∨
    (info.known = true ∧ ∃ s t : Nat, s ≤ t ∧ t < info.sectorCount ∧ info.start s = addrFirst ∧
      info.sectorEnd t = info.bEnd ∧ info.bEnd < addrLast ∧
      planOf (info :: rest) addrFirst addrLast =
        ⟨(planOf rest (info.bEnd + 1) addrLast).rcode,
          (planOf rest (info.bEnd + 1) addrLast).count + (t - s + 1),
          (info, (s : Int), (t : Int)) :: (planOf rest (info.bEnd + 1) addrLast).calls⟩) ∨
    (info.known = true ∧ (planOf (info :: rest) addrFirst addrLast).rcode = 1 ∧
      (info.IsStart addrFirst → ¬ info.IsEnd addrLast ∧ addrLast < info.bEnd) ∧
      (¬ info.IsStart addrFirst →
        info.IsEnd addrLast ∨ info.start 0 ≤ addrFirst ∧ addrFirst < info.bEnd)) ∨
    (planOf (info :: rest) addrFirst addrLast = planOf rest addrFirst addrLast ∧
      (info.known = true → ¬ info.IsStart addrFirst ∧ ¬ info.IsEnd addrLast)) := by
  cases identified : info.known with
  | false =>
      have step : bankStep info addrFirst addrLast = .skip := by simp [bankStep, identified]
      exact Or.inr (Or.inr (Or.inr ⟨plan_skip ordered step,
        fun same => absurd same Bool.false_ne_true⟩))
  | true =>
      have valid := laid.wellFormed info List.mem_cons_self identified
      have positive := valid.hasSector
      rcases bank_step_cases valid ordered identified ulong with
        ⟨s, t, order, sector, begins, ends, step⟩ | ⟨s, sector, begins, past, step⟩ |
        ⟨sFirst, sLast, step, atStart, offStart⟩ | ⟨step, notStart, notEnd, outside⟩
      · exact Or.inl ⟨rfl, s, t, order, sector, begins, ends, plan_take ordered step⟩
      · exact Or.inr (Or.inl ⟨rfl, s, info.sectorCount - 1, by omega, by omega, begins,
          sector_end_last valid, past, plan_take ordered step⟩)
      · exact Or.inr (Or.inr (Or.inl ⟨rfl, plan_fail ordered step, atStart, offStart⟩))
      · exact Or.inr (Or.inr (Or.inr ⟨plan_skip ordered step, fun _ => ⟨notStart, notEnd⟩⟩))

end Plans

theorem erases_nil (addr : Nat) : ¬ Erases [] addr :=
  fun ⟨_, member, _⟩ => absurd member List.not_mem_nil

theorem erases_cons {info : FlashInfo} (valid : info.WellFormed) {s t : Nat}
    (order : s ≤ t) (sector : t < info.sectorCount) (calls : List (FlashInfo × Int × Int))
    (addr : Nat) :
    Erases ((info, (s : Int), (t : Int)) :: calls) addr ↔
      (info.start s ≤ addr ∧ addr ≤ info.sectorEnd t) ∨ Erases calls addr := by
  rw [← sector_run_union valid s t addr order sector]
  constructor
  · rintro ⟨call, member, k, above, below, inside⟩
    rcases List.mem_cons.mp member with here | later
    · rw [here] at above below inside
      exact Or.inl ⟨k, by simpa using above, by simpa using below, inside⟩
    · exact Or.inr ⟨call, later, k, above, below, inside⟩
  · rintro (⟨k, above, below, inside⟩ | ⟨call, later, k, above, below, inside⟩)
    · exact ⟨_, List.mem_cons_self, k, by simpa using above, by simpa using below, inside⟩
    · exact ⟨call, List.mem_cons_of_mem _ later, k, above, below, inside⟩

section Loop
variable {banks : List FlashInfo} {addrFirst addrLast : Nat} (laid : Laid banks)
  (ulong : addrLast < 2 ^ 32)
include laid ulong

theorem plan_count_nonneg : 0 ≤ (planOf banks addrFirst addrLast).count ∨
    (planOf banks addrFirst addrLast).rcode ≠ 0 := by
  induction banks generalizing addrFirst with
  | nil => exact Or.inl (Int.le_refl 0)
  | cons info rest ih =>
      have tail := laid_tail laid
      by_cases ordered : addrFirst ≤ addrLast
      · rcases plan_cases laid ordered ulong with
          ⟨_, s, t, order, _, _, _, same⟩ | ⟨_, s, t, order, _, _, _, _, same⟩ |
          ⟨_, refused, _⟩ | ⟨same, _⟩
        · rw [same]
          exact (ih tail).imp_left fun counted => by
            simp only
            omega
        · rw [same]
          exact (ih tail).imp_left fun counted => by
            simp only
            omega
        · exact Or.inr (by omega)
        · rw [same]
          exact ih tail
      · rw [plan_done ordered]
        exact Or.inl (Int.le_refl 0)

/-- A range that does not begin at a sector start plans nothing or is refused. -/
theorem plan_off_start (off : ¬ SectorStart banks addrFirst) :
    (planOf banks addrFirst addrLast).rcode ≠ 0 ∨
      (planOf banks addrFirst addrLast).count = 0 ∧
      (planOf banks addrFirst addrLast).calls = [] := by
  induction banks with
  | nil => exact Or.inr ⟨rfl, rfl⟩
  | cons info rest ih =>
      by_cases ordered : addrFirst ≤ addrLast
      · have notHere : ∀ s, info.known = true → s < info.sectorCount → info.start s ≠ addrFirst :=
          fun s identified sector begins =>
            off ⟨info, List.mem_cons_self, identified, s, sector, begins⟩
        rcases plan_cases laid ordered ulong with
          ⟨identified, s, t, order, sector, begins, _⟩ |
          ⟨identified, s, t, order, sector, begins, _⟩ | ⟨_, refused, _⟩ | ⟨same, _⟩
        · exact absurd begins (notHere s identified (by omega))
        · exact absurd begins (notHere s identified (by omega))
        · exact Or.inl (by omega)
        · rw [same]
          exact ih (laid_tail laid) fun ⟨other, member, start⟩ =>
            off ⟨other, List.mem_cons_of_mem info member, start⟩
      · rw [plan_done ordered]
        exact Or.inr ⟨rfl, rfl⟩

/-- A range whose end is no sector end is accepted exactly when the banks run out first. -/
theorem plan_off_end_rcode (ordered : addrFirst ≤ addrLast) (clean : Clean banks addrFirst)
    (off : ¬ SectorEnd banks addrLast) :
    (planOf banks addrFirst addrLast).rcode = 0 ↔ coveredFrom banks addrFirst ≤ addrLast := by
  induction banks generalizing addrFirst with
  | nil => exact iff_of_true rfl ordered
  | cons info rest ih =>
      have offRest : ¬ SectorEnd rest addrLast := fun ⟨other, member, stop⟩ =>
        off ⟨other, List.mem_cons_of_mem info member, stop⟩
      have notHere : info.known = true → ¬ info.IsEnd addrLast := fun identified stop =>
        off ⟨info, List.mem_cons_self, identified, stop⟩
      rcases plan_cases laid ordered ulong with
        ⟨identified, s, t, order, sector, begins, ends, _⟩ |
        ⟨identified, s, t, order, sector, begins, ends, past, same⟩ |
        ⟨identified, refused, atStart, offStart⟩ | ⟨same, passes⟩
      · exact absurd ⟨t, sector, ends⟩ (notHere identified)
      · have valid := laid.wellFormed info List.mem_cons_self identified
        have held := start_holds valid identified ⟨s, by omega, begins⟩
        rw [same, covered_from_held held]
        exact ih (laid_tail laid) (by omega) (clean_after_bank laid identified) offRest
      · have held : info.Holds addrFirst ∧ addrLast < info.bEnd := by
          by_cases start : info.IsStart addrFirst
          · have valid := laid.wellFormed info List.mem_cons_self identified
            exact ⟨start_holds valid identified start, (atStart start).2⟩
          · rcases offStart start with stop | inside
            · exact absurd stop (notHere identified)
            · exact absurd (clean info List.mem_cons_self ⟨identified, inside.1, by omega⟩) start
        have beyond := covered_from_ge rest (info.bEnd + 1)
        rw [covered_from_held held.1]
        omega
      · have free : ¬ info.Holds addrFirst := fun held =>
          (passes held.1).1 (clean info List.mem_cons_self held)
        rw [same, covered_from_free free]
        exact ih (laid_tail laid) ordered (clean_tail clean) offRest

/-- No planned sector reaches the address at which the banks run out. -/
theorem plan_off_end_below (ordered : addrFirst ≤ addrLast) (clean : Clean banks addrFirst)
    (off : ¬ SectorEnd banks addrLast) (addr : Nat)
    (erased : Erases (planOf banks addrFirst addrLast).calls addr)
    (accepted : (planOf banks addrFirst addrLast).rcode = 0) :
    addr < coveredFrom banks addrFirst := by
  induction banks generalizing addrFirst with
  | nil => exact absurd erased (erases_nil addr)
  | cons info rest ih =>
      have offRest : ¬ SectorEnd rest addrLast := fun ⟨other, member, stop⟩ =>
        off ⟨other, List.mem_cons_of_mem info member, stop⟩
      rcases plan_cases laid ordered ulong with
        ⟨identified, s, t, order, sector, begins, ends, _⟩ |
        ⟨identified, s, t, order, sector, begins, ends, past, same⟩ |
        ⟨identified, refused, atStart, offStart⟩ | ⟨same, passes⟩
      · exact absurd ⟨info, List.mem_cons_self, identified, t, sector, ends⟩ off
      · have valid := laid.wellFormed info List.mem_cons_self identified
        have held := start_holds valid identified ⟨s, by omega, begins⟩
        have beyond := covered_from_ge rest (info.bEnd + 1)
        rw [same] at erased accepted
        rw [covered_from_held held]
        rcases (erases_cons valid order sector _ addr).mp erased with here | later
        · omega
        · exact ih (laid_tail laid) (by omega) (clean_after_bank laid identified) offRest later
            accepted
      · omega
      · have free : ¬ info.Holds addrFirst := fun held =>
          (passes held.1).1 (clean info List.mem_cons_self held)
        rw [same] at erased accepted
        rw [covered_from_free free]
        exact ih (laid_tail laid) ordered (clean_tail clean) offRest erased accepted

/-- An accepted range that begins at a sector start erases that sector. -/
theorem plan_takes_start (ordered : addrFirst ≤ addrLast) (start : SectorStart banks addrFirst)
    (accepted : (planOf banks addrFirst addrLast).rcode = 0) :
    0 < (planOf banks addrFirst addrLast).count ∧
      Erases (planOf banks addrFirst addrLast).calls addrFirst := by
  induction banks with
  | nil =>
      obtain ⟨info, member, _⟩ := start
      exact absurd member List.not_mem_nil
  | cons info rest ih =>
      have tail := laid_tail laid
      rcases plan_cases laid ordered ulong with
        ⟨identified, s, t, order, sector, begins, ends, same⟩ |
        ⟨identified, s, t, order, sector, begins, ends, past, same⟩ |
        ⟨identified, refused, _⟩ | ⟨same, passes⟩
      · have valid := laid.wellFormed info List.mem_cons_self identified
        rw [same] at accepted ⊢
        have counted := (plan_count_nonneg tail ulong).resolve_right (not_not.mpr accepted)
        exact ⟨by simp only; omega,
          (erases_cons valid order sector _ _).mpr (Or.inl (by omega))⟩
      · have valid := laid.wellFormed info List.mem_cons_self identified
        rw [same] at accepted ⊢
        have counted := (plan_count_nonneg tail ulong).resolve_right (not_not.mpr accepted)
        have inside := start_holds valid identified ⟨s, by omega, begins⟩
        have extent := inside.2.2
        exact ⟨by simp only; omega,
          (erases_cons valid order sector _ _).mpr (Or.inl (by omega))⟩
      · omega
      · rw [same] at accepted ⊢
        refine ih tail ?_ accepted
        obtain ⟨other, member, identified, begins⟩ := start
        rcases List.mem_cons.mp member with here | later
        · rw [here] at identified begins
          exact absurd begins (passes identified).1
        · exact ⟨other, later, identified, begins⟩

theorem plan_calls_inside (accepted : (planOf banks addrFirst addrLast).rcode = 0) :
    ∀ call ∈ (planOf banks addrFirst addrLast).calls,
      call.1 ∈ banks ∧ call.2.2 < call.1.sectorCount := by
  induction banks generalizing addrFirst with
  | nil => exact fun call member => absurd member List.not_mem_nil
  | cons info rest ih =>
      have tail := laid_tail laid
      by_cases ordered : addrFirst ≤ addrLast
      · have later : ∀ next, (planOf rest next addrLast).rcode = 0 →
            ∀ call ∈ (planOf rest next addrLast).calls,
              call.1 ∈ info :: rest ∧ call.2.2 < call.1.sectorCount :=
          fun next passed call member =>
            (ih tail passed call member).imp_left (List.mem_cons_of_mem info)
        rcases plan_cases laid ordered ulong with
          ⟨_, s, t, _, sector, _, _, same⟩ | ⟨_, s, t, _, sector, _, _, _, same⟩ |
          ⟨_, refused, _⟩ | ⟨same, _⟩
        · rw [same] at accepted ⊢
          exact List.forall_mem_cons.mpr
            ⟨⟨List.mem_cons_self, Int.ofNat_lt.mpr sector⟩, later _ accepted⟩
        · rw [same] at accepted ⊢
          exact List.forall_mem_cons.mpr
            ⟨⟨List.mem_cons_self, Int.ofNat_lt.mpr sector⟩, later _ accepted⟩
        · omega
        · rw [same] at accepted ⊢
          exact later _ accepted
      · rw [plan_done ordered]
        exact fun call member => absurd member List.not_mem_nil

/-- A range that ends with a sector and whose end is not carried to a bank at zero is planned
exactly or refused. -/
theorem plan_on_end (ordered : addrFirst ≤ addrLast) (stop : SectorEnd banks addrLast)
    (stays : addrLast < 2 ^ 32 - 1 ∨ ¬ WrapsToStart banks) :
    (planOf banks addrFirst addrLast).rcode ≠ 0 ∨
      0 < (planOf banks addrFirst addrLast).count ∧
      ∀ addr, Erases (planOf banks addrFirst addrLast).calls addr ↔
        addrFirst ≤ addr ∧ addr ≤ addrLast := by
  induction banks generalizing addrFirst with
  | nil =>
      obtain ⟨info, member, _⟩ := stop
      exact absurd member List.not_mem_nil
  | cons info rest ih =>
      have tail := laid_tail laid
      have staysRest : addrLast < 2 ^ 32 - 1 ∨ ¬ WrapsToStart rest :=
        stays.imp_right fun stay wraps => stay (Or.inr wraps)
      rcases plan_cases laid ordered ulong with
        ⟨identified, s, t, order, sector, begins, ends, same⟩ |
        ⟨identified, s, t, order, sector, begins, ends, past, same⟩ |
        ⟨identified, refused, _⟩ | ⟨same, passes⟩
      -- Both ends lie in this bank: the walk is over, unless the next address is zero.
      · have valid := laid.wellFormed info List.mem_cons_self identified
        have finished : (planOf rest (toUlong (addrLast + 1)) addrLast).rcode ≠ 0 ∨
            (planOf rest (toUlong (addrLast + 1)) addrLast).count = 0 ∧
            (planOf rest (toUlong (addrLast + 1)) addrLast).calls = [] := by
          by_cases top : addrLast < 2 ^ 32 - 1
          · have done : ¬ toUlong (addrLast + 1) ≤ addrLast := by
              unfold toUlong
              omega
            rw [plan_done done]
            exact Or.inr ⟨rfl, rfl⟩
          · have zero : toUlong (addrLast + 1) = 0 := by
              unfold toUlong
              omega
            refine plan_off_start tail ulong ?_
            rintro ⟨low, member, known, u, below, base⟩
            refine (stays.resolve_left top) (Or.inl ⟨identified, ?_, low, member, known, ?_⟩)
            · have reach := sector_end_le_b_end valid sector
              have limit := b_end_eq valid
              have mapped := valid.mapped
              omega
            · have first := start_zero_le (laid.wellFormed low (List.mem_cons_of_mem info member)
                known) below
              omega
        rw [same]
        refine finished.imp_right fun ⟨counted, unplanned⟩ => ⟨by simp only; omega, fun addr => ?_⟩
        rw [unplanned, erases_cons valid order sector, begins, ends]
        exact or_iff_left (erases_nil addr)
      -- The range goes on behind this bank.
      · have valid := laid.wellFormed info List.mem_cons_self identified
        have extent := (start_holds valid identified ⟨s, by omega, begins⟩).2
        have later := sector_end_tail stop fun ⟨_, here⟩ => by
          have reach := (end_holds valid identified here).2
          omega
        rw [same]
        refine (ih tail (by omega) later staysRest).imp_right fun ⟨counted, exact_⟩ =>
          ⟨by simp only; omega, fun addr => ?_⟩
        rw [erases_cons valid order sector, begins, ends, exact_ addr]
        omega
      · exact Or.inl (by omega)
      · rw [same]
        exact ih tail ordered (sector_end_tail stop fun ⟨identified, here⟩ => (passes identified).2 here)
          staysRest

/-- A range that ends with a sector is refused when the banks run out before its end. -/
theorem plan_on_end_gap (ordered : addrFirst ≤ addrLast) (clean : Clean banks addrFirst)
    (stop : SectorEnd banks addrLast) (gap : coveredFrom banks addrFirst ≤ addrLast) :
    (planOf banks addrFirst addrLast).rcode ≠ 0 := by
  induction banks generalizing addrFirst with
  | nil =>
      obtain ⟨info, member, _⟩ := stop
      exact absurd member List.not_mem_nil
  | cons info rest ih =>
      have tail := laid_tail laid
      rcases plan_cases laid ordered ulong with
        ⟨identified, s, t, order, sector, begins, ends, same⟩ |
        ⟨identified, s, t, order, sector, begins, ends, past, same⟩ |
        ⟨identified, refused, _⟩ | ⟨same, passes⟩
      · have valid := laid.wellFormed info List.mem_cons_self identified
        have held := start_holds valid identified ⟨s, by omega, begins⟩
        have reach := sector_end_le_b_end valid sector
        have beyond := covered_from_ge rest (info.bEnd + 1)
        rw [covered_from_held held] at gap
        omega
      · have valid := laid.wellFormed info List.mem_cons_self identified
        have held := start_holds valid identified ⟨s, by omega, begins⟩
        have later := sector_end_tail stop fun ⟨_, here⟩ => by
          have reach := (end_holds valid identified here).2
          omega
        rw [covered_from_held held] at gap
        rw [same]
        exact ih tail (by omega) (clean_after_bank laid identified) later gap
      · omega
      · have free : ¬ info.Holds addrFirst := fun held =>
          (passes held.1).1 (clean info List.mem_cons_self held)
        rw [covered_from_free free] at gap
        rw [same]
        exact ih tail ordered (clean_tail clean)
          (sector_end_tail stop fun ⟨identified, here⟩ => (passes identified).2 here) gap

end Loop

/-! The end of the address space: after a bank that ends at 2^32 - 1 the running address is zero
again, and the loop goes on with a later bank that begins there. -/

section Top
variable {banks : List FlashInfo}

theorem below_top {info : FlashInfo} {rest : List FlashInfo} (laid : Laid (info :: rest))
    (identified : info.known = true) (high : info.bEnd = 2 ^ 32 - 1) :
    ∀ other ∈ rest, other.known = true → other.bEnd < 2 ^ 32 - 1 := by
  intro other member known
  have apart := apart_ends laid member identified known
  have low := start_le_b_end (laid.wellFormed info List.mem_cons_self identified)
  have valid := laid.wellFormed other (List.mem_cons_of_mem info member) known
  have extent := b_end_eq valid
  have mapped := valid.mapped
  have begins := start_le_b_end valid
  omega

theorem wraps_has_low (wraps : WrapsToStart banks) :
    ∃ low ∈ banks, low.known = true ∧ low.start 0 = 0 := by
  induction banks with
  | nil => exact wraps.elim
  | cons info rest ih =>
      rcases wraps with ⟨_, _, low, member, facts⟩ | later
      · exact ⟨low, List.mem_cons_of_mem info member, facts⟩
      · obtain ⟨low, member, facts⟩ := ih later
        exact ⟨low, List.mem_cons_of_mem info member, facts⟩

theorem wraps_has_high (wraps : WrapsToStart banks) :
    ∃ high ∈ banks, high.known = true ∧ high.bEnd = 2 ^ 32 - 1 := by
  induction banks with
  | nil => exact wraps.elim
  | cons info rest ih =>
      rcases wraps with ⟨identified, high, _⟩ | later
      · exact ⟨info, List.mem_cons_self, identified, high⟩
      · obtain ⟨high, member, facts⟩ := ih later
        exact ⟨high, List.mem_cons_of_mem info member, facts⟩

/-- A range that begins at zero never reaches the bank before the one that begins there. -/
theorem covered_from_zero (laid : Laid banks) (wraps : WrapsToStart banks) :
    coveredFrom banks 0 ≤ 2 ^ 32 - 1 := by
  induction banks with
  | nil => exact wraps.elim
  | cons info rest ih =>
      have free : ¬ info.Holds 0 := by
        obtain ⟨low, member, known, base⟩ : ∃ low ∈ rest, low.known = true ∧ low.start 0 = 0 :=
          wraps.elim (fun here => here.2.2) wraps_has_low
        have holds : low.Holds 0 := ⟨known, by omega, Nat.zero_le _⟩
        exact fun held => not_held_twice laid member held holds
      rw [covered_from_free free]
      rcases wraps with ⟨identified, high, _⟩ | later
      · exact covered_from_le rest 0 _ (by decide) (below_top laid identified high)
      · exact ih (laid_tail laid) later

/-- The banks after the top one: the plan begins again at zero and is accepted. -/
theorem plan_from_zero (laid : Laid banks) {low : FlashInfo} (member : low ∈ banks)
    (known : low.known = true) (base : low.start 0 = 0)
    (below : ∀ info ∈ banks, info.known = true → info.bEnd < 2 ^ 32 - 1) :
    (planOf banks 0 (2 ^ 32 - 1)).rcode = 0 ∧ 0 < (planOf banks 0 (2 ^ 32 - 1)).count ∧
      Erases (planOf banks 0 (2 ^ 32 - 1)).calls 0 := by
  have start : SectorStart banks 0 :=
    ⟨low, member, known, 0, (laid.wellFormed low member known).hasSector, base⟩
  have off : ¬ SectorEnd banks (2 ^ 32 - 1) := by
    rintro ⟨info, found, identified, stop⟩
    have reach := (end_holds (laid.wellFormed info found identified) identified stop).2
    have limit := below info found identified
    omega
  have accepted := (plan_off_end_rcode laid (by decide) (by decide) (clean_of_start laid start)
    off).mpr (covered_from_le banks 0 _ (by decide) below)
  exact ⟨accepted, plan_takes_start laid (by decide) (by decide) start accepted⟩

/-- A range up to the end of the address space also erases from address zero on. -/
theorem plan_wraps (laid : Laid banks) (wraps : WrapsToStart banks) {addrFirst : Nat}
    (ordered : addrFirst ≤ 2 ^ 32 - 1) (clean : Clean banks addrFirst)
    (covered : 2 ^ 32 - 1 < coveredFrom banks addrFirst) :
    (planOf banks addrFirst (2 ^ 32 - 1)).rcode = 0 ∧
      0 < (planOf banks addrFirst (2 ^ 32 - 1)).count ∧
      Erases (planOf banks addrFirst (2 ^ 32 - 1)).calls 0 := by
  induction banks generalizing addrFirst with
  | nil => exact wraps.elim
  | cons info rest ih =>
      have tail := laid_tail laid
      -- The top bank comes first or later; when it comes first, no later bank reaches the top.
      have stuck : info.known = true → info.bEnd = 2 ^ 32 - 1 → ¬ info.Holds addrFirst → False := by
        intro identified high free
        have limit := covered_from_le rest addrFirst _ ordered (below_top laid identified high)
        rw [covered_from_free free] at covered
        omega
      rcases plan_cases laid ordered (by decide) with
        ⟨identified, s, t, order, sector, begins, ends, same⟩ |
        ⟨identified, s, t, order, sector, begins, ends, past, same⟩ |
        ⟨identified, refused, atStart, offStart⟩ | ⟨same, passes⟩
      · have valid := laid.wellFormed info List.mem_cons_self identified
        have reach := sector_end_le_b_end valid sector
        have limit := b_end_eq valid
        have mapped := valid.mapped
        have below := below_top laid identified (by omega)
        rcases wraps with ⟨_, _, low, member, known, base⟩ | later
        · have zero : toUlong ((2 ^ 32 - 1 : Nat) + 1) = 0 := by decide
          obtain ⟨accepted, counted, erased⟩ := plan_from_zero tail member known base below
          rw [same, zero]
          exact ⟨accepted, by simp only; omega,
            (erases_cons valid order sector _ 0).mpr (Or.inr erased)⟩
        · obtain ⟨high, member, known, top⟩ := wraps_has_high later
          have limit := below high member known
          omega
      · have valid := laid.wellFormed info List.mem_cons_self identified
        have held := start_holds valid identified ⟨s, by omega, begins⟩
        rw [covered_from_held held] at covered
        rcases wraps with ⟨_, high, _⟩ | later
        · omega
        · obtain ⟨accepted, counted, erased⟩ :=
            ih tail later (by omega) (clean_after_bank laid identified) covered
          rw [same]
          exact ⟨accepted, by simp only; omega,
            (erases_cons valid order sector _ 0).mpr (Or.inr erased)⟩
      · have valid := laid.wellFormed info List.mem_cons_self identified
        have limit := b_end_eq valid
        have mapped := valid.mapped
        by_cases start : info.IsStart addrFirst
        · have early := (atStart start).2
          omega
        · have free : ¬ info.Holds addrFirst := fun held =>
            start (clean info List.mem_cons_self held)
          rcases offStart start with stop | inside
          · have reach := (end_holds valid identified stop).2
            exact (stuck identified (by omega) free).elim
          · exact absurd ⟨identified, inside.1, by omega⟩ free
      · have free : ¬ info.Holds addrFirst := fun held =>
          (passes held.1).1 (clean info List.mem_cons_self held)
        rcases wraps with ⟨identified, high, _⟩ | later
        · exact (stuck identified high free).elim
        · rw [covered_from_free free] at covered
          rw [same]
          exact ih tail later ordered (clean_tail clean) covered

end Top

/-! The outcome of flash_sect_erase. -/

/-- The range is erased exactly and zero returned, or nothing is erased and the return code is
not zero; the second when no bank holds the last address. -/
def ErasesExactly (banks : List FlashInfo) (addrFirst addrLast : Nat) : Prop :=
  let result := flashSectErase banks addrFirst addrLast
  ((result.rcode = 0 ∧ ∀ addr, Erases result.calls addr ↔ addrFirst ≤ addr ∧ addr ≤ addrLast) ∨
    (result.rcode ≠ 0 ∧ result.calls = [])) ∧
  ((∀ info ∈ banks, ¬ info.Holds addrLast) → result.rcode ≠ 0)

/-- The range begins with a sector, does not end with one, and the banks that continue each other
from its first address are used up at or before its last. -/
def Overruns (banks : List FlashInfo) (addrFirst addrLast : Nat) : Prop :=
  SectorStart banks addrFirst ∧ ¬ SectorEnd banks addrLast ∧
    coveredFrom banks addrFirst ≤ addrLast

/-- The range is all of a run of banks up to the end of the address space, and a later bank of
the table begins at address zero. -/
def RestartsAtZero (banks : List FlashInfo) (addrFirst addrLast : Nat) : Prop :=
  SectorStart banks addrFirst ∧ addrLast = 2 ^ 32 - 1 ∧ addrLast < coveredFrom banks addrFirst ∧
    WrapsToStart banks

section Outcome
variable {banks : List FlashInfo} {addrFirst addrLast : Nat}

theorem outcome_refused
    (refused : (planOf banks addrFirst addrLast).rcode ≠ 0 ∨
      (planOf banks addrFirst addrLast).count = 0) :
    ErasesExactly banks addrFirst addrLast := by
  have nothing : (flashSectErase banks addrFirst addrLast).rcode ≠ 0 ∧
      (flashSectErase banks addrFirst addrLast).calls = [] := by
    rw [flash_sect_erase_eq, if_neg fun both => refused.elim (· both.2) both.1]
    split
    · exact ⟨Nat.one_ne_zero, rfl⟩
    · exact ⟨‹_›, rfl⟩
  exact ⟨Or.inr nothing, fun _ => nothing.1⟩

theorem outcome_accepted (accepted : (planOf banks addrFirst addrLast).rcode = 0)
    (counted : 0 < (planOf banks addrFirst addrLast).count) :
    flashSectErase banks addrFirst addrLast = ⟨0, (planOf banks addrFirst addrLast).calls⟩ := by
  rw [flash_sect_erase_eq, if_pos ⟨by omega, accepted⟩]

theorem exact_of_accepted (exactly : ErasesExactly banks addrFirst addrLast)
    (accepted : (planOf banks addrFirst addrLast).rcode = 0)
    (counted : 0 < (planOf banks addrFirst addrLast).count) (addr : Nat) :
    Erases (planOf banks addrFirst addrLast).calls addr ↔ addrFirst ≤ addr ∧ addr ≤ addrLast := by
  unfold ErasesExactly at exactly
  rw [outcome_accepted accepted counted] at exactly
  rcases exactly.1 with ⟨_, union⟩ | ⟨refused, _⟩
  · exact union addr
  · exact absurd rfl refused

end Outcome

theorem sect_erase_inside {banks : List FlashInfo} (laid : Laid banks) {addrFirst addrLast : Nat}
    (ulong : addrLast < 2 ^ 32) :
    ∀ call ∈ (flashSectErase banks addrFirst addrLast).calls,
      call.1 ∈ banks ∧ call.2.2 < call.1.sectorCount := by
  rw [flash_sect_erase_eq]
  split
  · rename_i planned
    exact plan_calls_inside laid ulong planned.2
  · split <;> exact fun call member => absurd member List.not_mem_nil

/-- flash_sect_erase keeps its word on every range but two kinds: one that runs past the end of
the last bank it covers, and one up to the end of the address space when a later bank begins at
zero. -/
theorem flash_sect_erase_exact_iff (geometry : Geometry) (addrFirst addrLast : Nat)
    (ordered : addrFirst ≤ addrLast) (ulong : addrLast < 2 ^ 32) :
    ErasesExactly geometry.banks addrFirst addrLast ↔
      ¬ Overruns geometry.banks addrFirst addrLast ∧
      ¬ RestartsAtZero geometry.banks addrFirst addrLast := by
  have laid : Laid geometry.banks := ⟨geometry.wellFormed, geometry.apart⟩
  constructor
  -- An exact erase has no overrun and no restart.
  · intro exactly
    constructor
    · rintro ⟨start, off, overrun⟩
      have clean := clean_of_start laid start
      have accepted := (plan_off_end_rcode laid ulong ordered clean off).mpr overrun
      have taken := plan_takes_start laid ulong ordered start accepted
      have erased := (exact_of_accepted exactly accepted taken.1 addrLast).mpr
        ⟨ordered, Nat.le_refl _⟩
      have below := plan_off_end_below laid ulong ordered clean off addrLast erased accepted
      omega
    · rintro ⟨start, top, covered, wraps⟩
      subst top
      have wrapped := plan_wraps laid wraps ordered (clean_of_start laid start) covered
      have zero := ((exact_of_accepted exactly wrapped.1 wrapped.2.1 0).mp wrapped.2.2).1
      have limit := covered_from_zero laid wraps
      have first : addrFirst = 0 := by omega
      rw [first] at covered
      omega
  · rintro ⟨noOverrun, noRestart⟩
    -- A range that does not start at a sector is refused, and so is one that ends between sectors.
    by_cases start : SectorStart geometry.banks addrFirst
    · have clean := clean_of_start laid start
      by_cases stop : SectorEnd geometry.banks addrLast
      · have planned : (planOf geometry.banks addrFirst addrLast).rcode ≠ 0 ∨
            0 < (planOf geometry.banks addrFirst addrLast).count ∧
            ∀ addr, Erases (planOf geometry.banks addrFirst addrLast).calls addr ↔
              addrFirst ≤ addr ∧ addr ≤ addrLast := by
          by_cases stays : addrLast < 2 ^ 32 - 1 ∨ ¬ WrapsToStart geometry.banks
          · exact plan_on_end laid ulong ordered stop stays
          · obtain ⟨top, wraps⟩ := not_or.mp stays
            have gap : ¬ addrLast < coveredFrom geometry.banks addrFirst := fun covered =>
              noRestart ⟨start, by omega, covered, not_not.mp wraps⟩
            exact Or.inl (plan_on_end_gap laid ulong ordered clean stop (by omega))
        by_cases refused : (planOf geometry.banks addrFirst addrLast).rcode ≠ 0
        · exact outcome_refused (Or.inl refused)
        · obtain ⟨counted, union⟩ := planned.resolve_left refused
          have outcome := outcome_accepted (not_not.mp refused) counted
          obtain ⟨holder, member, identified, ends⟩ := stop
          have held := end_holds (laid.wellFormed holder member identified) identified ends
          refine ⟨Or.inl ⟨?_, ?_⟩, fun outside => absurd held (outside holder member)⟩
          · rw [outcome]
          · rw [outcome]
            exact union
      · have gap : ¬ coveredFrom geometry.banks addrFirst ≤ addrLast := fun overrun =>
          noOverrun ⟨start, stop, overrun⟩
        exact outcome_refused (Or.inl fun accepted =>
          gap ((plan_off_end_rcode laid ulong ordered clean stop).mp accepted))
    · exact outcome_refused ((plan_off_start laid ulong start).imp_right And.left)

def boardGeometry : Geometry where
  banks := [flashGetGeom]
  wellFormed := by
    intro info member _
    rw [List.mem_singleton.mp member]
    exact flash_get_geom_well_formed _
  apart := List.pairwise_singleton _ _

/-- The last sector of the board's flash. -/
theorem flash_sect_erase_last_sector :
    (0x9f3f0000 ≤ 0x9f3fffff ∧ 0x9f3fffff < 2 ^ 32) ∧
    (ErasesExactly boardGeometry.banks 0x9f3f0000 0x9f3fffff ↔
      ¬ Overruns boardGeometry.banks 0x9f3f0000 0x9f3fffff ∧
      ¬ RestartsAtZero boardGeometry.banks 0x9f3f0000 0x9f3fffff) :=
  ⟨by decide, flash_sect_erase_exact_iff boardGeometry 0x9f3f0000 0x9f3fffff (by decide)
    (by decide)⟩

/-- A range that ends a megabyte past the chip erases the last sector and returns zero. -/
theorem flash_sect_erase_past_bank : ¬ ErasesExactly boardGeometry.banks 0x9f3f0000 0x9f4fffff := by
  rintro ⟨_, refusesOutside⟩
  have outside : ∀ info ∈ boardGeometry.banks, ¬ info.Holds 0x9f4fffff := by decide
  have accepted : (flashSectErase boardGeometry.banks 0x9f3f0000 0x9f4fffff).rcode = 0 := by
    decide +kernel
  exact refusesOutside outside accepted

end UBoot.Flash.SectErase
