import UBoot.Flash.SectErase
import UBoot.Flash.FlashWrite

/-!
What flash_write hands to write_buff, against the range it was given. The two
ends of the range are looked up in the bank table, and the scan and the write
loop both walk the part of the table between the two banks found; nothing looks
at the addresses in between. write_buff is taken at its word here: a call writes
its bytes.
-/

namespace UBoot.Flash.WriteRange

open Lib.Strings SectRanges SectErase FlashWrite

/-- The offset of the source byte that the calls leave at an address. -/
def written : List WriteCall → Nat → Option Nat
  | [], _ => none
  | call :: rest, address =>
      match written rest address with
      | some offset => some offset
      | none =>
          if call.addr ≤ address ∧ address < call.addr + call.len then
            some (call.offset + (address - call.addr))
          else none

def InFlash (banks : List FlashInfo) (address : Nat) : Prop :=
  ∃ info ∈ banks, info.Holds address

/-- A protected sector of bank number `bank` holds the address. -/
def ProtectedIn (banks : List FlashInfo) (bank sect address : Nat) : Prop :=
  ∃ info, banks[bank]? = some info ∧ info.known = true ∧ sect < info.sectorCount ∧
    info.protect sect ≠ 0 ∧ info.start sect ≤ address ∧ address ≤ info.sectorEnd sect

def InRange (addr cnt address : Nat) : Prop := addr ≤ address ∧ address < addr + cnt

instance (addr cnt address : Nat) : Decidable (InRange addr cnt address) :=
  inferInstanceAs (Decidable (_ ∧ _))

structure Complete (banks : List FlashInfo) (addr cnt : Nat) (calls : List WriteCall) : Prop where
  bytes : ∀ address,
    written calls address = if InRange addr cnt address then some (address - addr) else none
  inside : ∀ address, InRange addr cnt address → InFlash banks address
  unprotected : ∀ address, InRange addr cnt address →
    ∀ bank sect, ¬ ProtectedIn banks bank sect address

/-- What flash_write promises. -/
structure KeepsWord (banks : List FlashInfo) (addr cnt : Nat) : Prop where
  success : (flashWrite banks addr cnt).rcode = errOk →
    Complete banks addr cnt (flashWrite banks addr cnt).calls
  refusal : (flashWrite banks addr cnt).rcode = errInval ∨
      (flashWrite banks addr cnt).rcode = errProtected → (flashWrite banks addr cnt).calls = []

/-- The part of the table that the scan and the write loop walk. -/
def between (banks : List FlashInfo) (first last : Nat) : List FlashInfo :=
  (banks.drop first).take (last + 1 - first)

def scanHits (banks : List FlashInfo) (first last addr cnt : Nat) : Bool :=
  (between banks first last).any fun info => hitsProtected info addr (toUlong (addr + cnt - 1))

/-- The scan does not see the sector: its bank stands elsewhere in the table, or the sector ends
at the end of the address space, where e_addr is zero. -/
def Overlooked (banks : List FlashInfo) (first last bank sect : Nat) : Prop :=
  bank < first ∨ last < bank ∨
    ∃ info, banks[bank]? = some info ∧ sect + 1 = info.sectorCount ∧
      info.start 0 + info.size = 2 ^ 32

/-- The range is one that the check of its two ends is enough for. -/
structure Served (banks : List FlashInfo) (first last addr cnt : Nat) : Prop where
  noWrap : addr + cnt ≤ 2 ^ 32
  tableOrder : first ≤ last
  noHole : ∀ address, InRange addr cnt address → InFlash banks address
  seen : ∀ address, InRange addr cnt address → ∀ bank sect, ProtectedIn banks bank sect address →
    ¬ Overlooked banks first last bank sect

/-- A range that flash_write does not refuse is one that it can serve. -/
def Sound (banks : List FlashInfo) (addr cnt : Nat) : Prop :=
  ∀ first last, cnt ≠ 0 → addr2info banks addr = some first →
    addr2info banks (toUlong (addr + cnt - 1)) = some last →
    scanHits banks first last addr cnt = false → Served banks first last addr cnt

section Outcomes
variable {banks : List FlashInfo} {addr cnt : Nat}

/-- flash_write refuses, or writes what the walk gives. -/
theorem flash_write_cases (banks : List FlashInfo) (addr cnt : Nat) :
    cnt = 0 ∧ flashWrite banks addr cnt = ⟨errOk, []⟩ ∨
    cnt ≠ 0 ∧ (addr2info banks addr = none ∨
      addr2info banks (toUlong (addr + cnt - 1)) = none) ∧
        flashWrite banks addr cnt = ⟨errInval, []⟩ ∨
    cnt ≠ 0 ∧ ∃ first last, addr2info banks addr = some first ∧
      addr2info banks (toUlong (addr + cnt - 1)) = some last ∧
      (scanHits banks first last addr cnt = true ∧
          flashWrite banks addr cnt = ⟨errProtected, []⟩ ∨
        scanHits banks first last addr cnt = false ∧
          flashWrite banks addr cnt = ⟨errOk, writeBanks (between banks first last) 0 addr cnt⟩) := by
  by_cases zero : cnt = 0
  · exact Or.inl ⟨zero, by rw [flashWrite, if_pos zero]⟩
  · right
    cases begins : addr2info banks addr with
    | none => exact Or.inl ⟨zero, Or.inl rfl, by simp only [flashWrite, zero, if_false, begins]⟩
    | some first =>
        cases ends : addr2info banks (toUlong (addr + cnt - 1)) with
        | none =>
            exact Or.inl ⟨zero, Or.inr rfl, by simp only [flashWrite, zero, if_false, begins, ends]⟩
        | some last =>
            refine Or.inr ⟨zero, first, last, rfl, rfl, ?_⟩
            have walked : flashWrite banks addr cnt =
                if scanHits banks first last addr cnt then ⟨errProtected, []⟩
                else ⟨errOk, writeBanks (between banks first last) 0 addr cnt⟩ := by
              simp only [flashWrite, zero, if_false, begins, ends]
              rfl
            cases hits : scanHits banks first last addr cnt with
            | true => exact Or.inl ⟨rfl, by rw [walked, if_pos hits]⟩
            | false =>
                have passed : ¬ scanHits banks first last addr cnt = true := by
                  rw [hits]
                  decide
                exact Or.inr ⟨rfl, by rw [walked, if_neg passed]⟩

/-- A refusal comes before the first call of write_buff. -/
theorem refusal_writes_nothing (banks : List FlashInfo) (addr cnt : Nat)
    (refused : (flashWrite banks addr cnt).rcode ≠ errOk) :
    (flashWrite banks addr cnt).calls = [] := by
  rcases flash_write_cases banks addr cnt with
    ⟨_, result⟩ | ⟨_, _, result⟩ | ⟨_, first, last, _, _, ⟨_, result⟩ | ⟨_, result⟩⟩
  · rw [result]
  · rw [result]
  · rw [result]
  · rw [result] at refused
    exact absurd rfl refused

theorem complete_nothing (banks : List FlashInfo) (addr : Nat) : Complete banks addr 0 [] := by
  have empty : ∀ address, ¬ InRange addr 0 address := by
    rintro address ⟨above, below⟩
    omega
  refine ⟨fun address => ?_, fun address within => absurd within (empty address),
    fun address within => absurd within (empty address)⟩
  rw [if_neg (empty address)]
  rfl

end Outcomes

section Walk

theorem write_banks_zero (banks : List FlashInfo) (offset addr : Nat) :
    writeBanks banks offset addr 0 = [] := by
  cases banks with
  | nil => rfl
  | cons info rest => rw [writeBanks, if_neg (Nat.lt_irrefl 0)]

def room (info : FlashInfo) (addr : Nat) : Nat := toUlong (info.start 0 + info.size - addr)

theorem write_banks_next (info : FlashInfo) (rest : List FlashInfo) {offset addr cnt : Nat}
    (more : 0 < cnt) :
    writeBanks (info :: rest) offset addr cnt =
      ⟨info, offset, addr, min (room info addr) cnt⟩ ::
        writeBanks rest (toUlong (offset + min (room info addr) cnt : Nat))
          (toUlong (addr + min (room info addr) cnt : Nat)) (cnt - min (room info addr) cnt) := by
  have len : (if room info addr > cnt then cnt else room info addr) = min (room info addr) cnt := by
    split <;> omega
  rw [writeBanks, if_pos more, Nat.cast_add, Nat.cast_add, ← len]
  rfl

theorem to_ulong_small {n : Nat} (small : n < 2 ^ 32) : toUlong (n : Int) = n := by
  unfold toUlong
  omega

/-- One call after another, the walk writes the range from its start. -/
theorem written_next {info : FlashInfo} {offset addr len cnt : Nat} {rest : List WriteCall}
    (short : len ≤ cnt)
    (later : ∀ address, written rest address =
      if InRange (addr + len) (cnt - len) address then some (offset + len + (address - (addr + len)))
      else none) (address : Nat) :
    written (⟨info, offset, addr, len⟩ :: rest) address =
      if InRange addr cnt address then some (offset + (address - addr)) else none := by
  rw [written, later address]
  by_cases behind : InRange (addr + len) (cnt - len) address
  · obtain ⟨above, below⟩ := behind
    have within : InRange addr cnt address := ⟨by omega, by omega⟩
    rw [if_pos ⟨above, below⟩, if_pos within]
    exact congrArg some (by omega)
  · rw [if_neg behind]
    simp only
    by_cases here : addr ≤ address ∧ address < addr + len
    · have within : InRange addr cnt address := ⟨here.1, by omega⟩
      rw [if_pos here, if_pos within]
    · have outside : ¬ InRange addr cnt address := by
        rintro ⟨above, below⟩
        exact behind ⟨by omega, by omega⟩
      rw [if_neg here, if_neg outside]

theorem written_none (offset addr address : Nat) :
    written [] address = if InRange addr 0 address then some (offset + (address - addr)) else none := by
  have empty : ¬ InRange addr 0 address := by
    rintro ⟨above, below⟩
    omega
  rw [if_neg empty]
  rfl

/-- Without a wrap, a walk that ends in the bank of the last address writes the whole range,
whatever the banks before that one are. -/
theorem write_banks_written (front : List FlashInfo) {info : FlashInfo} (valid : info.WellFormed)
    {offset addr cnt : Nat} (noWrap : addr + cnt ≤ 2 ^ 32) (source : offset + cnt ≤ 2 ^ 32)
    (reaches : addr + cnt ≤ info.start 0 + info.size)
    (away : 0 < addr ∨ info.start 0 + info.size < 2 ^ 32 ∨ ∃ head ∈ front.head?, 0 < room head addr)
    (address : Nat) :
    written (writeBanks (front ++ [info]) offset addr cnt) address =
      if InRange addr cnt address then some (offset + (address - addr)) else none := by
  induction front generalizing offset addr cnt address with
  | nil =>
      rcases Nat.eq_zero_or_pos cnt with zero | more
      · subst zero
        rw [write_banks_zero]
        exact written_none offset addr address
      · have mapped := valid.mapped
        have enough : min (room info addr) cnt = cnt := by
          -- The last bank takes the rest of the bytes.
          rcases away with above | below | ⟨head, member, _⟩
          · unfold room toUlong
            omega
          · unfold room toUlong
            omega
          · cases member
        rw [List.nil_append, write_banks_next info [] more, enough, Nat.sub_self, write_banks_zero]
        apply written_next (Nat.le_refl cnt)
        intro other
        rw [Nat.sub_self]
        exact written_none (offset + cnt) (addr + cnt) other
  | cons head front ih =>
      rcases Nat.eq_zero_or_pos cnt with zero | more
      · subst zero
        rw [write_banks_zero]
        exact written_none offset addr address
      · have short : min (room head addr) cnt ≤ cnt := Nat.min_le_right _ _
        have moves : 0 < addr + min (room head addr) cnt ∨ info.start 0 + info.size < 2 ^ 32 := by
          rcases away with above | below | ⟨first, member, wide⟩
          · exact Or.inl (Nat.add_pos_left above _)
          · exact Or.inr below
          · cases member
            exact Or.inl (Nat.add_pos_right addr (Nat.lt_min.mpr ⟨wide, more⟩))
        rw [List.cons_append, write_banks_next head (front ++ [info]) more]
        generalize min (room head addr) cnt = len at *
        apply written_next short
        intro other
        by_cases done : len = cnt
        · rw [done, Nat.sub_self, write_banks_zero]
          exact written_none (offset + cnt) (addr + cnt) other
        · have target : toUlong ((addr + len : Nat) : Int) = addr + len := to_ulong_small (by omega)
          have bytes : toUlong ((offset + len : Nat) : Int) = offset + len :=
            to_ulong_small (by omega)
          rw [target, bytes]
          exact ih (by omega) (by omega) (by omega) (moves.imp_right Or.inl) other

end Walk

section Scan
variable {banks : List FlashInfo} {first last addr cnt : Nat}

theorem addr2info_holds {bank : Nat} (found : addr2info banks addr = some bank) :
    ∃ info, banks[bank]? = some info ∧ info.Holds addr := by
  obtain ⟨inside, holds, _⟩ := List.findIdx?_eq_some_iff_getElem.mp found
  refine ⟨banks[bank], List.getElem?_eq_getElem inside, ?_⟩
  simpa [FlashInfo.Holds, and_assoc] using holds

theorem between_backwards (backwards : last < first) : between banks first last = [] := by
  rw [between, Nat.sub_eq_zero_of_le backwards, List.take_zero]

/-- The walk ends in the bank of the last address. -/
theorem between_last {info : FlashInfo} (order : first ≤ last) (found : banks[last]? = some info) :
    between banks first last = (banks.drop first).take (last - first) ++ [info] := by
  have shift : first + (last - first) = last := Nat.add_sub_cancel' order
  have here : (banks.drop first)[last - first]? = some info := by
    rw [List.getElem?_drop, shift]
    exact found
  rw [between, Nat.sub_add_comm order, List.take_add_one, here]
  rfl

theorem mem_between {bank : Nat} {info : FlashInfo} (found : banks[bank]? = some info)
    (above : first ≤ bank) (below : bank ≤ last) : info ∈ between banks first last := by
  have here : (between banks first last)[bank - first]? = some info := by
    rw [between, List.getElem?_take_of_lt (by omega), List.getElem?_drop, Nat.add_sub_cancel' above]
    exact found
  exact List.mem_of_getElem? here

/-- e_addr is the address behind the sector, unless that is the end of the address space. -/
theorem e_addr_eq {info : FlashInfo} (valid : info.WellFormed) {sect : Nat}
    (inside : sect < info.sectorCount)
    (below : sect + 1 = info.sectorCount → info.start 0 + info.size < 2 ^ 32) :
    eAddr info sect = info.sectorEnd sect + 1 := by
  have last := s_end_eq valid
  by_cases next : sect + 1 < info.sectorCount
  · rw [eAddr, if_neg (by omega), sector_end_next valid next]
  · have top : sect + 1 = info.sectorCount := by omega
    have stop := sector_end_last valid
    have whole := b_end_eq valid
    have room := below top
    have index : sect = info.sectorCount - 1 := by omega
    rw [eAddr, if_pos (by omega), index, stop, whole]
    exact to_ulong_small room

/-- A protected sector of the range is seen unless the scan overlooks it. -/
theorem scan_sees (valid : ∀ info ∈ banks, info.known = true → info.WellFormed)
    {bank sect address : Nat} (noWrap : addr + cnt ≤ 2 ^ 32) (within : InRange addr cnt address)
    (flagged : ProtectedIn banks bank sect address)
    (visible : ¬ Overlooked banks first last bank sect) : scanHits banks first last addr cnt = true := by
  obtain ⟨info, found, identified, inside, protect, above, below⟩ := flagged
  have wellFormed := valid info (List.mem_of_getElem? found) identified
  have front : first ≤ bank := Nat.le_of_not_lt fun early => visible (Or.inl early)
  have back : bank ≤ last := Nat.le_of_not_lt fun late => visible (Or.inr (Or.inl late))
  have stop : eAddr info sect = info.sectorEnd sect + 1 := by
    apply e_addr_eq wellFormed inside
    intro top
    apply Nat.lt_of_le_of_ne wellFormed.mapped
    intro ends
    exact visible (Or.inr (Or.inr ⟨info, found, top, ends⟩))
  have final : toUlong (addr + cnt - 1) = addr + cnt - 1 := by
    obtain ⟨low, high⟩ := within
    unfold toUlong
    omega
  rw [scanHits, List.any_eq_true]
  refine ⟨info, mem_between found front back, ?_⟩
  rw [hitsProtected, List.any_eq_true]
  refine ⟨sect, List.mem_range.mpr inside, ?_⟩
  have low := within.1
  have high := within.2
  have starts : info.start sect ≤ toUlong (addr + cnt - 1) := by
    rw [final]
    omega
  have ends : addr < eAddr info sect := by
    rw [stop]
    omega
  simp [starts, ends, protect]

end Scan

section Contract
variable {addr cnt : Nat}

theorem in_flash_ulong {banks : List FlashInfo} {address : Nat} (inside : InFlash banks address) :
    address < 2 ^ 32 := by
  obtain ⟨info, _, _, _, below⟩ := inside
  exact Nat.lt_of_le_of_lt below (to_ulong_lt _)

/-- A range that the walk completes has passed every test of Served. -/
theorem served_of_complete {banks : List FlashInfo} {first last : Nat} (ulong : addr < 2 ^ 32)
    (more : cnt ≠ 0)
    (complete : Complete banks addr cnt (writeBanks (between banks first last) 0 addr cnt)) :
    Served banks first last addr cnt := by
  constructor
  · by_contra wraps
    have top : InRange addr cnt (2 ^ 32) := ⟨Nat.le_of_lt ulong, Nat.lt_of_not_le wraps⟩
    exact absurd (in_flash_ulong (complete.inside _ top)) (Nat.lt_irrefl _)
  · by_contra backwards
    have start : InRange addr cnt addr := ⟨Nat.le_refl _, Nat.lt_add_of_pos_right (Nat.pos_of_ne_zero more)⟩
    have bytes := complete.bytes addr
    rw [between_backwards (Nat.lt_of_not_le backwards), if_pos start] at bytes
    cases bytes
  · exact complete.inside
  · intro address within bank sect flagged _
    exact complete.unprotected address within bank sect flagged

theorem complete_of_served (geometry : Geometry) {first last : Nat}
    (sizes : ∀ info ∈ geometry.banks, info.size < 2 ^ 32) (more : cnt ≠ 0)
    (begins : addr2info geometry.banks addr = some first)
    (ends : addr2info geometry.banks (toUlong (addr + cnt - 1)) = some last)
    (passed : scanHits geometry.banks first last addr cnt = false)
    (served : Served geometry.banks first last addr cnt) :
    Complete geometry.banks addr cnt (writeBanks (between geometry.banks first last) 0 addr cnt) := by
  have noWrap := served.noWrap
  obtain ⟨head, headFound, headHolds⟩ := addr2info_holds begins
  obtain ⟨info, found, holds⟩ := addr2info_holds ends
  have valid := geometry.wellFormed info (List.mem_of_getElem? found) holds.1
  have stop := b_end_eq valid
  have final : toUlong (addr + cnt - 1) = addr + cnt - 1 := by
    unfold toUlong
    omega
  rw [final] at holds
  have reach := holds.2.2
  constructor
  · intro address
    rw [between_last served.tableOrder found]
    rw [← Nat.zero_add (address - addr)]
    refine write_banks_written ((geometry.banks.drop first).take (last - first)) valid noWrap
      (by omega) (by omega) ?_ address
    · rcases Nat.eq_or_lt_of_le served.tableOrder with same | before
      · have one : info = head := by
          rw [← same, headFound] at found
          exact (Option.some.inj found).symm
        have size := sizes info (List.mem_of_getElem? found)
        have low := headHolds.2.1
        rw [← one] at low
        by_cases zero : addr = 0
        · exact Or.inr (Or.inl (by omega))
        · exact Or.inl (Nat.pos_of_ne_zero zero)
      · refine Or.inr (Or.inr ⟨head, ?_, ?_⟩)
        · rw [List.head?_take, if_neg (by omega), List.head?_drop]
          exact headFound
        · have size := sizes head (List.mem_of_getElem? headFound)
          have headEnd := b_end_eq (geometry.wellFormed head (List.mem_of_getElem? headFound)
            headHolds.1)
          have low := headHolds.2.1
          have high := headHolds.2.2
          unfold room toUlong
          omega
  · exact served.noHole
  · intro address within bank sect flagged
    have seen := scan_sees geometry.wellFormed noWrap within flagged
      (served.seen address within bank sect flagged)
    rw [passed] at seen
    cases seen

/-- flash_write keeps its word on exactly the ranges it refuses or can serve. -/
theorem flash_write_keeps_word_iff (geometry : Geometry)
    (sizes : ∀ info ∈ geometry.banks, info.size < 2 ^ 32) (addr cnt : Nat) (ulong : addr < 2 ^ 32) :
    KeepsWord geometry.banks addr cnt ↔ Sound geometry.banks addr cnt := by
  constructor
  · intro keeps first last more begins ends passed
    have walked : flashWrite geometry.banks addr cnt =
        ⟨errOk, writeBanks (between geometry.banks first last) 0 addr cnt⟩ := by
      rcases flash_write_cases geometry.banks addr cnt with
        ⟨zero, _⟩ | ⟨_, nowhere | nowhere, _⟩ |
          ⟨_, first', last', begins', ends', ⟨hit, _⟩ | ⟨_, result⟩⟩
      · exact absurd zero more
      · rw [begins] at nowhere
        cases nowhere
      · rw [ends] at nowhere
        cases nowhere
      · cases begins.symm.trans begins'
        cases ends.symm.trans ends'
        rw [passed] at hit
        cases hit
      · cases begins.symm.trans begins'
        cases ends.symm.trans ends'
        exact result
    have complete := keeps.success (by rw [walked])
    rw [walked] at complete
    exact served_of_complete ulong more complete
  · intro sound
    constructor
    · rcases flash_write_cases geometry.banks addr cnt with
        ⟨zero, result⟩ | ⟨_, _, result⟩ |
          ⟨more, first, last, begins, ends, ⟨_, result⟩ | ⟨passed, result⟩⟩
      · intro _
        rw [result, zero]
        exact complete_nothing geometry.banks addr
      · rw [result]
        intro impossible
        cases impossible
      · rw [result]
        intro impossible
        cases impossible
      · intro _
        rw [result]
        exact complete_of_served geometry sizes more begins ends passed
          (sound first last more begins ends passed)
    · rintro (refused | refused)
      · exact refusal_writes_nothing geometry.banks addr cnt (by rw [refused]; decide)
      · exact refusal_writes_nothing geometry.banks addr cnt (by rw [refused]; decide)

/-- The first sixteen bytes of the board's flash. -/
theorem flash_write_first_bytes :
    (∀ info ∈ boardGeometry.banks, info.size < 2 ^ 32) ∧ 0x9f000000 < 2 ^ 32 ∧
      (KeepsWord boardGeometry.banks 0x9f000000 16 ↔ Sound boardGeometry.banks 0x9f000000 16) :=
  ⟨by decide, by decide,
    flash_write_keeps_word_iff boardGeometry (by decide) 0x9f000000 16 (by decide)⟩

/-- A count that wraps around the address space back into the bank: flash_write returns ERR_OK
behind the two bytes that are left of the bank. -/
theorem flash_write_wrapped_count : ¬ KeepsWord boardGeometry.banks 0x9f3ffffe 0xffc00003 := by
  intro keeps
  have accepted : (flashWrite boardGeometry.banks 0x9f3ffffe 0xffc00003).rcode = errOk := by
    decide +kernel
  obtain ⟨info, member, held⟩ := (keeps.success accepted).inside 0x9f400000 (by decide)
  revert held
  revert info
  decide +kernel

end Contract

end UBoot.Flash.WriteRange
