import UBoot.Flash.Protection

/-!
Ranges that erase and protect are given as an address and a length. addr_spec rounds the last
address up to the end of its sector; the sum and the address behind the last bank are computed
modulo 2^32.
-/

namespace UBoot.Flash.AddrSpec

open Lib.Strings SectRanges SectErase FlashCommands Protection

/-- A geometry in which only chips that have been identified have sectors. -/
structure FlashGeometry extends Geometry where
  unidentified : ∀ info ∈ banks, info.known = false → info.sectorCount = 0

/-- The last address of the sector that holds an address, if there is one. -/
def SectorTo (banks : List FlashInfo) (addr last : Nat) : Prop :=
  ∃ info ∈ banks, info.known = true ∧ ∃ s < info.sectorCount,
    info.start s ≤ addr ∧ addr ≤ info.sectorEnd s ∧ info.sectorEnd s = last

/-! ### The sector of an address -/

section Sectors
variable {banks : List FlashInfo}

theorem held_unique (laid : Laid banks) {info other : FlashInfo} {addr : Nat}
    (member : info ∈ banks) (found : other ∈ banks) (held : info.Holds addr)
    (also : other.Holds addr) : info = other := by
  induction banks with
  | nil => exact absurd member List.not_mem_nil
  | cons first rest ih =>
      rcases List.mem_cons.mp member with rfl | later
      · rcases List.mem_cons.mp found with same | behind
        · exact same.symm
        · exact absurd also (not_held_twice laid behind held)
      · rcases List.mem_cons.mp found with rfl | behind
        · exact absurd held (not_held_twice laid later also)
        · exact ih (laid_tail laid) later behind

theorem sector_holds {info : FlashInfo} (valid : info.WellFormed) (known : info.known = true)
    {s addr : Nat} (sector : s < info.sectorCount) (low : info.start s ≤ addr)
    (high : addr ≤ info.sectorEnd s) : info.Holds addr :=
  ⟨known, Nat.le_trans (start_zero_le valid sector) low,
    Nat.le_trans high (sector_end_le_b_end valid sector)⟩

theorem sector_unique {info : FlashInfo} (valid : info.WellFormed) {s t addr : Nat}
    (sector : s < info.sectorCount) (other : t < info.sectorCount) (low : info.start s ≤ addr)
    (high : addr ≤ info.sectorEnd s) (above : info.start t ≤ addr) (below : addr ≤ info.sectorEnd t) :
    s = t := by
  rcases Nat.lt_trichotomy s t with less | same | more
  · have apart := sector_end_lt_start valid less other
    omega
  · exact same
  · have apart := sector_end_lt_start valid more sector
    omega

theorem sector_to_unique (laid : Laid banks) {addr last other : Nat}
    (one : SectorTo banks addr last) (two : SectorTo banks addr other) : last = other := by
  obtain ⟨info, member, known, s, sector, low, high, rfl⟩ := one
  obtain ⟨bank, found, identified, t, inside, above, below, rfl⟩ := two
  have valid := laid.wellFormed info member known
  have same : info = bank := held_unique laid member found
    (sector_holds valid known sector low high)
    (sector_holds (laid.wellFormed bank found identified) identified inside above below)
  subst same
  rw [sector_unique valid sector inside low high above below]

theorem spec_end_eq {info : FlashInfo} (valid : info.WellFormed) (s : Nat) :
    addrSpecSectorEnd info s = info.sectorEnd s := by
  unfold addrSpecSectorEnd FlashInfo.sectorEnd
  rw [s_end_eq valid]
  by_cases last : s + 1 = info.sectorCount
  · rw [if_pos last, if_pos (by omega)]
  · rw [if_neg last, if_neg (by omega)]

/-- The search over the table finds the end of the sector. -/
theorem round_to_sector_iff (geometry : FlashGeometry) {addr last : Nat} :
    roundToSector geometry.banks addr = some last ↔ SectorTo geometry.banks addr last := by
  have laid : Laid geometry.banks := ⟨geometry.wellFormed, geometry.apart⟩
  have sound : ∀ last, roundToSector geometry.banks addr = some last →
      SectorTo geometry.banks addr last := by
    intro last rounded
    obtain ⟨info, member, found⟩ := List.exists_of_findSome?_eq_some rounded
    obtain ⟨s, inside, ends⟩ := List.exists_of_findSome?_eq_some found
    have sector := List.mem_range.mp inside
    have known : info.known = true := by
      by_contra unknown
      have none' := geometry.unidentified info member (Bool.eq_false_iff.mpr unknown)
      omega
    have valid := geometry.wellFormed info member known
    rw [spec_end_eq valid] at ends
    split at ends
    · rename_i holds
      exact ⟨info, member, known, s, sector, holds.2, holds.1, Option.some.inj ends⟩
    · cases ends
  constructor
  · exact sound last
  · intro there
    cases rounded : roundToSector geometry.banks addr with
    | some other => rw [sector_to_unique laid there (sound other rounded)]
    | none =>
        obtain ⟨info, member, known, s, sector, low, high, -⟩ := there
        have missed := List.findSome?_eq_none_iff.mp
          (List.findSome?_eq_none_iff.mp rounded info member) s (List.mem_range.mpr sector)
        rw [spec_end_eq (geometry.wellFormed info member known), if_pos ⟨high, low⟩] at missed
        cases missed

end Sectors

/-! ### A range that the banks cover -/

section Covered
variable {banks : List FlashInfo}

/-- Every address in front of the one where the banks run out is held by one of them. -/
theorem covered_held (laid : Laid banks) {addr place : Nat} (ahead : addr ≤ place)
    (covered : place < coveredFrom banks addr) : ∃ info ∈ banks, info.Holds place := by
  induction banks generalizing addr with
  | nil => exact absurd covered (Nat.not_lt.mpr ahead)
  | cons info rest ih =>
      by_cases held : info.Holds addr
      · by_cases here : place ≤ info.bEnd
        · exact ⟨info, List.mem_cons_self, held.1, Nat.le_trans held.2.1 ahead, here⟩
        · rw [covered_from_held held] at covered
          obtain ⟨other, member, holds⟩ := ih (laid_tail laid) (by omega) covered
          exact ⟨other, List.mem_cons_of_mem _ member, holds⟩
      · rw [covered_from_free held] at covered
        obtain ⟨other, member, holds⟩ := ih (laid_tail laid) ahead covered
        exact ⟨other, List.mem_cons_of_mem _ member, holds⟩

/-- A range that the banks cover and that ends with a sector is accepted. -/
theorem plan_covered (laid : Laid banks) {addrFirst addrLast : Nat} (ulong : addrLast < 2 ^ 32)
    (ordered : addrFirst ≤ addrLast) (clean : Clean banks addrFirst)
    (stop : SectorEnd banks addrLast) (covered : addrLast < coveredFrom banks addrFirst) :
    (planOf banks addrFirst addrLast).rcode = 0 := by
  induction banks generalizing addrFirst with
  | nil =>
      obtain ⟨info, member, _⟩ := stop
      exact absurd member List.not_mem_nil
  | cons info rest ih =>
      have tail := laid_tail laid
      have elsewhere : ∀ other ∈ rest, other.Holds addrLast → ¬ info.Holds addrLast :=
        fun other member held also => not_held_twice laid member also held
      rcases plan_cases laid ordered ulong with
        ⟨identified, s, t, order, sector, begins, ends, same⟩ |
        ⟨identified, s, t, order, sector, begins, ends, past, same⟩ |
        ⟨identified, refused, atStart, offStart⟩ | ⟨same, passes⟩
      · have valid := laid.wellFormed info List.mem_cons_self identified
        rw [same]
        by_cases top : addrLast < 2 ^ 32 - 1
        · have done : ¬ toUlong (addrLast + 1) ≤ addrLast := by
            unfold toUlong
            omega
          rw [plan_done done]
        · -- the banks behind the top one are planned from zero on, and end below the top
          have last : addrLast = 2 ^ 32 - 1 := by omega
          have zero : toUlong (addrLast + 1) = 0 := by
            unfold toUlong
            omega
          have high : info.bEnd = 2 ^ 32 - 1 := by
            have reach := sector_end_le_b_end valid sector
            have limit := b_end_eq valid
            have mapped := valid.mapped
            omega
          have below := below_top laid identified high
          rw [zero, last]
          refine (plan_off_end_rcode tail (by decide) (by decide) ?_ ?_).mpr
            (covered_from_le rest 0 _ (by decide) below)
          · intro other member held
            have first : other.start 0 = 0 := Nat.le_zero.mp held.2.1
            rw [← first]
            exact zero_is_start (tail.wellFormed other member held.1)
          · rintro ⟨other, member, known, ends'⟩
            have reach := (end_holds (tail.wellFormed other member known) known ends').2.2
            have limit := below other member known
            omega
      · have valid := laid.wellFormed info List.mem_cons_self identified
        have held := start_holds valid identified ⟨s, by omega, begins⟩
        rw [covered_from_held held] at covered
        rw [same]
        refine ih tail (by omega) (clean_after_bank laid identified) (sector_end_tail stop ?_) covered
        rintro ⟨-, here⟩
        have reach := (end_holds valid identified here).2.2
        omega
      · have valid := laid.wellFormed info List.mem_cons_self identified
        by_cases start : info.IsStart addrFirst
        · obtain ⟨notEnd, early⟩ := atStart start
          have holds := start_holds valid identified start
          obtain ⟨other, member, known, ends'⟩ := sector_end_tail stop fun here => notEnd here.2
          exact absurd ⟨identified, by have low := holds.2.1; omega, by omega⟩
            (elsewhere other member (end_holds (tail.wellFormed other member known) known ends'))
        · have free : ¬ info.Holds addrFirst := fun held =>
            start (clean info List.mem_cons_self held)
          rcases offStart start with here | inside
          · rw [covered_from_free free] at covered
            obtain ⟨other, member, held⟩ := covered_held tail ordered covered
            exact absurd (end_holds valid identified here) (elsewhere other member held)
          · exact absurd ⟨identified, inside.1, by omega⟩ free
      · have free : ¬ info.Holds addrFirst := fun held =>
          (passes held.1).1 (clean info List.mem_cons_self held)
        rw [covered_from_free free] at covered
        rw [same]
        exact ih tail ordered (clean_tail clean)
          (sector_end_tail stop fun ⟨identified, here⟩ => (passes identified).2 here) covered

end Covered

/-! ### The commands -/

/-- The range of an address and a length: the address is a sector's first one, the length is not
zero and does not pass the end of the addresses, and the last address is that of the sector in
which the range ends. -/
structure EndsAt (banks : List FlashInfo) (first len last : Nat) : Prop where
  start : SectorStart banks first
  some_len : 0 < len
  word : first + len ≤ 2 ^ 32
  rounded : SectorTo banks (first + len - 1) last

/-- Either the range is erased, or there is none and nothing is. -/
def ErasesAsked (banks : List FlashInfo) (first len : Nat) (result : SectErase) : Prop :=
  (∃ last, EndsAt banks first len last ∧ first ≤ last ∧ result.rcode = 0 ∧
    ∀ addr, Erases result.calls addr ↔ first ≤ addr ∧ addr ≤ last) ∨
  result.rcode ≠ 0 ∧ result.calls = []

/-- The flag is set for the sectors in the range, and for no others. -/
def protectWithin (banks : List FlashInfo) (p : UInt8) (first last : Nat) : List FlashInfo :=
  banks.map fun info =>
    { info with
      protect := fun i =>
        if i < info.sectorCount ∧ info.known = true ∧ first ≤ info.start i ∧ info.sectorEnd i ≤ last
        then p else info.protect i }

def ProtectsAsked (banks : List FlashInfo) (p : UInt8) (first len : Nat) (result : Option Protect) :
    Prop :=
  ∃ after, result = some after ∧
    ((∃ last, EndsAt banks first len last ∧ first ≤ last ∧ after.rcode = 0 ∧
      after.banks = protectWithin banks p first last) ∨ after.rcode ≠ 0 ∧ after.banks = banks)

/-- The words of a command that are taken for an address and a length. -/
structure AddrLen where
  arg1 : CString
  arg2 : CString
  lenText : List UInt8
  plus : arg2.bytes = 43 :: lenText
  notAll : arg1.bytes ≠ ascii "all"
  notBank : arg1.bytes ≠ ascii "bank"
  notSpec : 58 ∉ arg1.bytes

namespace AddrLen

def first (words : AddrLen) : Nat := (simpleStrtoul words.arg1.bytes 16).value

def len (words : AddrLen) : Nat := (simpleStrtoul words.lenText 16).value

def readable (words : AddrLen) : Bool :=
  !(simpleStrtoul words.arg1.bytes 16).malformed words.arg1.bytes &&
    !(simpleStrtoul words.lenText 16).malformed words.lenText

end AddrLen

/-- erase and protect do what they are asked for. -/
structure Operates (banks : List FlashInfo) (words : AddrLen) : Prop where
  erase : ∀ name, ErasesAsked banks words.first words.len
    (doFlerase banks [name, words.arg1, words.arg2])
  unprotect : ∀ name mode : CString, mode.bytes = ascii "off" →
    ProtectsAsked banks 0 words.first words.len (doProtect banks [name, mode, words.arg1, words.arg2])
  protect : ∀ name mode : CString, mode.bytes = ascii "on" →
    ProtectsAsked banks 1 words.first words.len (doProtect banks [name, mode, words.arg1, words.arg2])

/-- The last address, which is computed modulo 2^32, is in a sector at the top of the address space,
the banks cover everything from the first address to the top, and the length is zero or a later
bank begins at address zero. -/
structure PassesTop (banks : List FlashInfo) (words : AddrLen) : Prop where
  readable : words.readable = true
  start : SectorStart banks words.first
  below : words.first < 2 ^ 32 - 1
  top : SectorTo banks (toUlong ((words.first : Int) + words.len - 1)) (2 ^ 32 - 1)
  covered : 2 ^ 32 - 1 < coveredFrom banks words.first
  passes : 0 < words.len → WrapsToStart banks

section Words
variable {banks : List FlashInfo} {words : AddrLen}

/-- What the commands hand on. -/
def rangeOf (banks : List FlashInfo) (words : AddrLen) : Option (Nat × Nat) :=
  if words.readable = true then
    (roundToSector banks (toUlong ((words.first : Int) + words.len - 1))).bind fun last =>
      if words.first < last then some (words.first, last) else none
  else none

theorem addr_spec_eq : addrSpec banks words.arg1.bytes words.arg2.bytes =
    if words.readable = true then
      (roundToSector banks (toUlong ((words.first : Int) + words.len - 1))).map (words.first, ·)
    else none := by
  unfold addrSpec AddrLen.readable AddrLen.first AddrLen.len
  rw [words.plus]
  dsimp only
  cases (simpleStrtoul words.arg1.bytes 16).malformed words.arg1.bytes with
  | true => rfl
  | false =>
      change (if (simpleStrtoul words.lenText 16).malformed words.lenText = true then _ else _) = _
      cases (simpleStrtoul words.lenText 16).malformed words.lenText with
      | true => rfl
      | false => rfl

/-- Only a range whose last address lies above its first one is handed on. -/
theorem range_eq : rangeOf banks words =
    (addrSpec banks words.arg1.bytes words.arg2.bytes).bind fun range =>
      if range.2 ≤ range.1 then none else some range := by
  rw [addr_spec_eq, rangeOf]
  cases words.readable with
  | false => rfl
  | true =>
      rw [if_pos rfl, if_pos rfl]
      cases roundToSector banks (toUlong ((words.first : Int) + words.len - 1)) with
      | none => rfl
      | some last =>
          rw [Option.map_some, Option.bind_some, Option.bind_some]
          by_cases ordered : words.first < last
          · rw [if_pos ordered, if_neg (Nat.not_le.mpr ordered)]
          · rw [if_neg ordered, if_pos (Nat.not_lt.mp ordered)]

/-- The address is no bank and sector specification. -/
theorem plain_address : abbrevSpec banks words.arg1.bytes = .notSpec := by
  rw [abbrevSpec, cut_at_none words.notSpec]

theorem erase_eq (name : CString) : doFlerase banks [name, words.arg1, words.arg2] =
    match rangeOf banks words with
    | some (first, last) => flashSectErase banks first last
    | none => ⟨1, []⟩ := by
  rw [range_eq]
  unfold doFlerase
  dsimp only
  rw [if_neg words.notAll]
  simp only [plain_address, if_neg words.notBank]
  cases addrSpec banks words.arg1.bytes words.arg2.bytes with
  | none => rfl
  | some range =>
      rw [Option.bind_some]
      dsimp only
      split <;> rfl

theorem protect_eq (p : UInt8) : doProtectTarget banks p words.arg1.bytes [words.arg2] =
    match rangeOf banks words with
    | some (first, last) => some (flashSectProtect banks p first last)
    | none => some ⟨1, banks⟩ := by
  rw [range_eq]
  unfold doProtectTarget
  rw [if_neg words.notAll]
  simp only [plain_address, if_neg words.notBank]
  cases addrSpec banks words.arg1.bytes words.arg2.bytes with
  | none => rfl
  | some range =>
      rw [Option.bind_some]
      dsimp only
      split <;> rfl

end Words

/-! ### What is planned -/

section Planned
variable {banks : List FlashInfo} {first last : Nat}

/-- The range is planned exactly, or nothing is planned. -/
def Planned (banks : List FlashInfo) (first last : Nat) : Prop :=
  (planOf banks first last).rcode = 0 ∧ 0 < (planOf banks first last).count ∧
    ∀ addr, Erases (planOf banks first last).calls addr ↔ first ≤ addr ∧ addr ≤ last

def Unplanned (banks : List FlashInfo) (first last : Nat) : Prop :=
  (planOf banks first last).rcode ≠ 0 ∨ (planOf banks first last).count = 0

theorem planned_or_not (laid : Laid banks) (ulong : last < 2 ^ 32) (ordered : first ≤ last)
    (stop : SectorEnd banks last) (stays : ¬ RestartsAtZero banks first last) :
    Unplanned banks first last ∨ SectorStart banks first ∧ Planned banks first last := by
  by_cases start : SectorStart banks first
  · by_cases below : last < 2 ^ 32 - 1 ∨ ¬ WrapsToStart banks
    · rcases plan_on_end laid ulong ordered stop below with refused | ⟨counted, exactly⟩
      · exact Or.inl (Or.inl refused)
      · by_cases accepted : (planOf banks first last).rcode = 0
        · exact Or.inr ⟨start, accepted, counted, exactly⟩
        · exact Or.inl (Or.inl accepted)
    · obtain ⟨top, wraps⟩ := not_or.mp below
      have gap : coveredFrom banks first ≤ last := by
        by_contra covered
        exact stays ⟨start, by omega, Nat.not_le.mp covered, not_not.mp wraps⟩
      exact Or.inl (Or.inl (plan_on_end_gap laid ulong ordered (clean_of_start laid start) stop gap))
  · exact Or.inl ((plan_off_start laid ulong start).imp_right And.left)

theorem erase_unplanned (unplanned : Unplanned banks first last) :
    (flashSectErase banks first last).rcode ≠ 0 ∧ (flashSectErase banks first last).calls = [] := by
  rw [flash_sect_erase_eq, if_neg fun both => unplanned.elim (· both.2) both.1]
  split_ifs with accepted
  · exact ⟨Nat.one_ne_zero, rfl⟩
  · exact ⟨accepted, rfl⟩

theorem protect_unplanned (unplanned : Unplanned banks first last) (p : UInt8) :
    (flashSectProtect banks p first last).rcode ≠ 0 ∧
      (flashSectProtect banks p first last).banks = banks := by
  change ((flashFillSectRanges banks first last).rcode ≠ 0 ∨
    (flashFillSectRanges banks first last).count = 0) at unplanned
  unfold flashSectProtect
  dsimp only
  rw [if_neg fun both => unplanned.elim (· both.2) both.1]
  split_ifs with accepted
  · exact ⟨Nat.one_ne_zero, rfl⟩
  · exact ⟨accepted, rfl⟩

theorem fill_length (banks : List FlashInfo) : ∀ first last,
    (flashFillSectRanges banks first last).ranges.length = banks.length := by
  induction banks with
  | nil => exact fun _ _ => rfl
  | cons info rest ih =>
      intro first last
      rw [flashFillSectRanges]
      split_ifs
      · split
        · exact congrArg (· + 1) (ih _ _)
        · exact congrArg (· + 1) (ih _ _)
        · exact congrArg (· + 1) (List.length_map _)
      · exact List.length_map _

/-- Two banks of the table that hold one address are one. -/
theorem held_index (laid : Laid banks) {m n : Nat} (left : m < banks.length) (right : n < banks.length)
    {addr : Nat} (held : banks[m].Holds addr) (also : banks[n].Holds addr) : m = n := by
  have apart : ∀ m n (left : m < banks.length) (right : n < banks.length), m < n →
      banks[m].Holds addr → ¬ banks[n].Holds addr := by
    intro m n left right order held also
    have sides := List.pairwise_iff_getElem.mp laid.apart m n left right order held.1 also.1
    have one := b_end_eq (laid.wellFormed _ (List.getElem_mem left) held.1)
    have two := b_end_eq (laid.wellFormed _ (List.getElem_mem right) also.1)
    have first := held.2
    have second := also.2
    unfold FlashInfo.Apart at sides
    omega
  rcases Nat.lt_trichotomy m n with less | same | more
  · exact absurd also (apart m n left right less held)
  · exact same
  · exact absurd held (apart n m right left more also)

/-- The sectors of the planned range are those whose flag is set. -/
theorem protect_planned (geometry : FlashGeometry) (ulong : last < 2 ^ 32)
    (planned : Planned geometry.banks first last) (p : UInt8) :
    flashSectProtect geometry.banks p first last =
      ⟨0, protectWithin geometry.banks p first last⟩ := by
  have laid : Laid geometry.banks := ⟨geometry.wellFormed, geometry.apart⟩
  obtain ⟨accepted, counted, exactly⟩ := planned
  have inside := plan_calls_inside laid ulong accepted
  have length := fill_length geometry.banks first last
  change (flashFillSectRanges geometry.banks first last).rcode = 0 at accepted
  change 0 < (flashFillSectRanges geometry.banks first last).count at counted
  change ∀ addr, Erases (eraseCalls geometry.banks
    (flashFillSectRanges geometry.banks first last).ranges) addr ↔ _ at exactly
  change ∀ call ∈ eraseCalls geometry.banks
    (flashFillSectRanges geometry.banks first last).ranges, _ at inside
  unfold flashSectProtect protectWithin
  dsimp only
  rw [if_pos ⟨by omega, accepted⟩]
  congr 1
  generalize (flashFillSectRanges geometry.banks first last).ranges = ranges at *
  -- a call belongs to one place of the table
  have called : ∀ n (left : n < geometry.banks.length) (right : n < ranges.length),
      0 ≤ ranges[n].1 → (geometry.banks[n], ranges[n]) ∈ eraseCalls geometry.banks ranges := by
    intro n left right taken
    refine List.mem_filter.mpr ⟨?_, decide_eq_true taken⟩
    exact List.mem_iff_getElem.mpr ⟨n, by rw [List.length_zip]; omega, List.getElem_zip⟩
  have sectors : ∀ n (left : n < geometry.banks.length) (right : n < ranges.length) (i : Nat),
      (geometry.banks[n].known = true ∧ 0 ≤ ranges[n].1 ∧ ranges[n].1 ≤ i ∧ i ≤ ranges[n].2) ↔
        i < geometry.banks[n].sectorCount ∧ geometry.banks[n].known = true ∧
          first ≤ geometry.banks[n].start i ∧ geometry.banks[n].sectorEnd i ≤ last := by
    intro n left right i
    constructor
    · rintro ⟨known, taken, low, high⟩
      have member := called n left right taken
      have bound := (inside _ member).2
      have sector : i < geometry.banks[n].sectorCount := by
        dsimp only at bound
        omega
      have extent := start_le_sector_end
        (geometry.wellFormed _ (List.getElem_mem left) known) sector
      have begins := (exactly (geometry.banks[n].start i)).mp
        ⟨_, member, i, low, high, Nat.le_refl _, extent⟩
      have ends := (exactly (geometry.banks[n].sectorEnd i)).mp
        ⟨_, member, i, low, high, extent, Nat.le_refl _⟩
      exact ⟨sector, known, begins.1, ends.2⟩
    · rintro ⟨sector, known, begins, ends⟩
      have valid := geometry.wellFormed _ (List.getElem_mem left) known
      have extent := start_le_sector_end valid sector
      obtain ⟨call, member, k, low, high, above, below⟩ :=
        (exactly (geometry.banks[n].start i)).mpr ⟨begins, Nat.le_trans extent ends⟩
      obtain ⟨listed, bound⟩ := inside call member
      obtain ⟨zipped, taken⟩ := List.mem_filter.mp member
      obtain ⟨m, short, same⟩ := List.mem_iff_getElem.mp zipped
      rw [List.length_zip] at short
      rw [List.getElem_zip] at same
      subst same
      have place : k < geometry.banks[m].sectorCount := by
        dsimp only at high bound
        omega
      have identified : geometry.banks[m].known = true := by
        by_contra unknown
        have none' := geometry.unidentified _ listed (Bool.eq_false_iff.mpr unknown)
        dsimp only at none'
        omega
      have index : m = n := held_index laid (by omega) left
        (sector_holds (geometry.wellFormed _ listed identified) identified place above below)
        (sector_holds valid known sector (Nat.le_refl _) extent)
      subst index
      have number := sector_unique valid place sector above below (Nat.le_refl _) extent
      subst number
      exact ⟨known, of_decide_eq_true taken, low, high⟩
  apply List.ext_getElem
  · rw [List.length_zipWith, List.length_map]
    omega
  · intro n left right
    rw [List.length_map] at right
    rw [List.getElem_zipWith, List.getElem_map]
    have here := sectors n right (by omega)
    by_cases touched : geometry.banks[n].known = true ∧ 0 ≤ ranges[n].1 ∧ ranges[n].1 ≤ ranges[n].2
    · rw [if_pos touched, protectRange]
      congr 1
      funext i
      exact if_congr ⟨fun bounds => (here i).mp ⟨touched.1, touched.2.1, bounds⟩,
        fun held => ((here i).mpr held).2.2⟩ rfl rfl
    · rw [if_neg touched]
      have same : geometry.banks[n].protect = fun i => if i < geometry.banks[n].sectorCount ∧
          geometry.banks[n].known = true ∧ first ≤ geometry.banks[n].start i ∧
          geometry.banks[n].sectorEnd i ≤ last then p else geometry.banks[n].protect i := by
        funext i
        rw [if_neg]
        intro held
        obtain ⟨known, taken, low, high⟩ := (here i).mpr held
        exact touched ⟨known, taken, by omega⟩
      rw [← same]

end Planned

section Law
variable {geometry : FlashGeometry} {words : AddrLen}

theorem sector_to_end {banks : List FlashInfo} (laid : Laid banks) {addr last : Nat}
    (there : SectorTo banks addr last) : SectorEnd banks last ∧ addr ≤ last ∧ last < 2 ^ 32 := by
  obtain ⟨info, member, known, s, sector, -, high, rfl⟩ := there
  have valid := laid.wellFormed info member known
  have reach := sector_end_le_b_end valid sector
  have limit := b_end_eq valid
  have mapped := valid.mapped
  exact ⟨⟨info, member, known, s, sector, rfl⟩, high, by omega⟩

/-- An address in front of the first one, in a sector that ends behind it, is not in front of a
sector's first address. -/
theorem sector_start_behind {banks : List FlashInfo} (laid : Laid banks) {first addr last : Nat}
    (start : SectorStart banks first) (there : SectorTo banks addr last) (before : addr < first) :
    last < first := by
  by_contra behind
  obtain ⟨info, member, known, s, sector, low, high, rfl⟩ := there
  obtain ⟨other, found, identified, t, place, rfl⟩ := start
  have valid := laid.wellFormed info member known
  have validOther := laid.wellFormed other found identified
  have extent := start_le_sector_end validOther place
  have same : info = other := held_unique laid member found
    (sector_holds valid known sector (by omega) (Nat.not_lt.mp behind))
    (sector_holds validOther identified place (Nat.le_refl _) extent)
  subst same
  have number := sector_unique valid sector place (by omega) (Nat.not_lt.mp behind) (Nat.le_refl _)
    extent
  subst number
  omega

/-- What is handed on is a range that can be asked for, or nothing is planned for it. -/
theorem range_planned (stays : ¬ PassesTop geometry.banks words) {first last : Nat}
    (handed : rangeOf geometry.banks words = some (first, last)) :
    Unplanned geometry.banks first last ∨
      EndsAt geometry.banks words.first words.len last ∧ first = words.first ∧ first ≤ last ∧
        last < 2 ^ 32 ∧ Planned geometry.banks first last := by
  have laid : Laid geometry.banks := ⟨geometry.wellFormed, geometry.apart⟩
  have small := simple_strtoul_lt words.arg1.bytes 16
  have short := simple_strtoul_lt words.lenText 16
  change words.first < 2 ^ 32 at small
  change words.len < 2 ^ 32 at short
  unfold rangeOf at handed
  split_ifs at handed with readable
  obtain ⟨end', rounded, handed⟩ := Option.bind_eq_some_iff.mp handed
  split_ifs at handed with ordered
  cases handed
  have there := (round_to_sector_iff geometry).mp rounded
  obtain ⟨stop, above, ulong⟩ := sector_to_end laid there
  have restart : ¬ RestartsAtZero geometry.banks words.first last := by
    rintro ⟨start, top, covered, wraps⟩
    subst top
    exact stays ⟨readable, start, ordered, there, covered, fun _ => wraps⟩
  rcases planned_or_not laid ulong (Nat.le_of_lt ordered) stop restart with
    unplanned | ⟨start, planned⟩
  · exact Or.inl unplanned
  · right
    -- the sum does not wrap, as the first address would be in the middle of a sector
    have exactSum : 0 < words.len ∧ words.first + words.len ≤ 2 ^ 32 := by
      by_contra wraps
      by_cases zero : words.first = 0 ∧ words.len = 0
      · have top : last = 2 ^ 32 - 1 := by
          rw [zero.1, zero.2] at above
          change 2 ^ 32 - 1 ≤ last at above
          omega
        subst top
        have covered : 2 ^ 32 - 1 < coveredFrom geometry.banks words.first := by
          by_contra gap
          exact plan_on_end_gap laid ulong (Nat.le_of_lt ordered) (clean_of_start laid start) stop
            (Nat.not_lt.mp gap) planned.1
        exact stays ⟨readable, start, ordered, there, covered, fun some_len => by omega⟩
      · have before : toUlong ((words.first : Int) + words.len - 1) < words.first := by
          unfold toUlong
          omega
        have behind := sector_start_behind laid start there before
        omega
    have sum : toUlong ((words.first : Int) + words.len - 1) = words.first + words.len - 1 := by
      unfold toUlong
      omega
    rw [sum] at there
    exact ⟨⟨start, exactSum.1, exactSum.2, there⟩, rfl, Nat.le_of_lt ordered, ulong, planned⟩

theorem protects_asked (stays : ¬ PassesTop geometry.banks words) (p : UInt8) :
    ProtectsAsked geometry.banks p words.first words.len
      (doProtectTarget geometry.banks p words.arg1.bytes [words.arg2]) := by
  rw [protect_eq]
  cases handed : rangeOf geometry.banks words with
  | none => exact ⟨_, rfl, Or.inr ⟨Nat.one_ne_zero, rfl⟩⟩
  | some range =>
      obtain ⟨first, last⟩ := range
      refine ⟨_, rfl, ?_⟩
      rcases range_planned stays handed with unplanned | ⟨asked, rfl, ordered, ulong, planned⟩
      · exact Or.inr (protect_unplanned unplanned p)
      · rw [protect_planned geometry ulong planned]
        exact Or.inl ⟨last, asked, ordered, rfl, rfl⟩

theorem erases_asked (stays : ¬ PassesTop geometry.banks words) (name : CString) :
    ErasesAsked geometry.banks words.first words.len
      (doFlerase geometry.banks [name, words.arg1, words.arg2]) := by
  rw [erase_eq]
  cases handed : rangeOf geometry.banks words with
  | none => exact Or.inr ⟨Nat.one_ne_zero, rfl⟩
  | some range =>
      obtain ⟨first, last⟩ := range
      rcases range_planned stays handed with unplanned | ⟨asked, rfl, ordered, -, planned⟩
      · exact Or.inr (erase_unplanned unplanned)
      · dsimp only
        rw [outcome_accepted planned.1 planned.2.1]
        exact Or.inl ⟨last, asked, ordered, rfl, planned.2.2⟩

/-- At the top of the address space more is erased than is asked for. -/
theorem passes_top_erases (passes : PassesTop geometry.banks words) (name : CString) :
    ¬ ErasesAsked geometry.banks words.first words.len
      (doFlerase geometry.banks [name, words.arg1, words.arg2]) := by
  have laid : Laid geometry.banks := ⟨geometry.wellFormed, geometry.apart⟩
  have clean := clean_of_start laid passes.start
  have ordered := Nat.le_of_lt passes.below
  obtain ⟨stop, -, ulong⟩ := sector_to_end laid passes.top
  have handed : rangeOf geometry.banks words = some (words.first, 2 ^ 32 - 1) := by
    rw [rangeOf, if_pos passes.readable, (round_to_sector_iff geometry).mpr passes.top,
      Option.bind_some, if_pos passes.below]
  have accepted : (planOf geometry.banks words.first (2 ^ 32 - 1)).rcode = 0 :=
    plan_covered laid ulong ordered clean stop passes.covered
  have counted := (plan_takes_start laid ulong ordered passes.start accepted).1
  rw [erase_eq, handed]
  dsimp only
  rw [outcome_accepted accepted counted]
  rintro (⟨last, asked, -, -, exactly⟩ | ⟨refused, -⟩)
  · have wraps := passes.passes asked.some_len
    obtain ⟨-, -, zero⟩ := plan_wraps laid wraps ordered clean passes.covered
    have covered := passes.covered
    rw [Nat.le_zero.mp ((exactly 0).mp zero).1] at covered
    exact absurd covered (Nat.not_lt.mpr (covered_from_zero laid wraps))
  · exact refused rfl

end Law

theorem on_not_off : ascii "on" ≠ ascii "off" := by decide

/-- erase and protect keep to the range that an address and a length ask for, or refuse it, exactly
when the range does not go on from the top of the address space. -/
theorem addr_len_operates_iff (geometry : FlashGeometry) (words : AddrLen) :
    Operates geometry.banks words ↔ ¬ PassesTop geometry.banks words := by
  constructor
  · intro operates passes
    exact passes_top_erases passes words.arg1 (operates.erase words.arg1)
  · intro stays
    refine ⟨erases_asked stays, ?_, ?_⟩
    · intro name mode off
      rw [doProtect, if_pos off]
      exact protects_asked stays 0
    · intro name mode set
      rw [doProtect, if_neg (by rw [set]; exact on_not_off), if_pos set]
      exact protects_asked stays 1

/-- A bank of one sector of 16 MiB. -/
def oneSector (base : Nat) : FlashInfo where
  size := 0x1000000
  sectorCount := 1
  flashId := flashM25p64
  start := fun i => base + i * 0x1000000
  protect := fun _ => 0

theorem one_sector_well_formed {base : Nat} (mapped : base + 0x1000000 ≤ 2 ^ 32) :
    (oneSector base).WellFormed where
  hasSector := Nat.one_pos
  shortIndex := (by decide : 1 ≤ 2 ^ 15)
  ascending := by
    intro i j order below
    have last : j < 1 := below
    omega
  lastInside := by
    change base + (1 - 1) * 0x1000000 < base + 0 * 0x1000000 + 0x1000000
    omega
  mapped := by
    change base + 0 * 0x1000000 + 0x1000000 ≤ 2 ^ 32
    omega

/-- A bank at the top of the address space, and behind it in the table one at zero. -/
def topAndZero : List FlashInfo := [oneSector 0xff000000, oneSector 0]

theorem top_and_zero_well_formed : ∀ info ∈ topAndZero, info.known = true → info.WellFormed := by
  intro info member _
  rcases List.mem_cons.mp member with rfl | member
  · exact one_sector_well_formed (by decide)
  · rw [List.mem_singleton.mp member]
    exact one_sector_well_formed (by decide)

theorem top_and_zero_apart : topAndZero.Pairwise fun left right =>
    left.known = true → right.known = true → left.Apart right := by
  refine List.pairwise_pair.mpr fun _ _ => Or.inr ?_
  decide

theorem top_and_zero_known : ∀ info ∈ topAndZero, info.known = false → info.sectorCount = 0 := by
  intro info member unknown
  rcases List.mem_cons.mp member with rfl | member
  · cases unknown
  · rw [List.mem_singleton.mp member] at unknown
    cases unknown

def twoBanks : FlashGeometry where
  banks := topAndZero
  wellFormed := top_and_zero_well_formed
  apart := top_and_zero_apart
  unidentified := top_and_zero_known

theorem top_address_terminated : 0 ∉ ascii "ff000000" := by decide

theorem top_length_terminated : 0 ∉ ascii "+1000000" := by decide

theorem top_length_plus : ascii "+1000000" = 43 :: ascii "1000000" := by decide

theorem top_address_plain :
    ascii "ff000000" ≠ ascii "all" ∧ ascii "ff000000" ≠ ascii "bank" ∧ 58 ∉ ascii "ff000000" := by
  decide

/-- `ff000000 +1000000`, which is all of the first bank. -/
def topWords : AddrLen where
  arg1 := ⟨ascii "ff000000", top_address_terminated⟩
  arg2 := ⟨ascii "+1000000", top_length_terminated⟩
  lenText := ascii "1000000"
  plus := top_length_plus
  notAll := top_address_plain.1
  notBank := top_address_plain.2.1
  notSpec := top_address_plain.2.2

/-- The bank at zero is erased too. -/
theorem zero_bank_erased : ¬ Operates twoBanks.banks topWords := by
  intro operates
  have first : topWords.first = 0xff000000 := by decide +kernel
  have top : oneSector 0xff000000 ∈ twoBanks.banks := List.mem_cons_self
  refine @passes_top_erases twoBanks topWords ⟨by decide +kernel, ?_, ?_, ?_, ?_, ?_⟩ topWords.arg1
    (operates.erase topWords.arg1)
  · rw [first]
    exact ⟨_, top, rfl, 0, Nat.one_pos, rfl⟩
  · rw [first]
    decide
  · exact ⟨_, top, rfl, 0, Nat.one_pos, by decide +kernel, by decide +kernel, by decide +kernel⟩
  · rw [first]
    decide +kernel
  · exact fun _ => Or.inl ⟨rfl, by decide +kernel, oneSector 0,
      List.mem_cons_self, rfl, rfl⟩

end UBoot.Flash.AddrSpec
