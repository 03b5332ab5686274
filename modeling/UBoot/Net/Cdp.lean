import UBoot.Library.Loop
import UBoot.Net.NetReceive

/-!
CDPHandler of net/net.c: the type-length-value fields of an announcement. `tlen` is an unsigned
short, and the machine is big endian. `reads` and `elements` note the bytes that the handler looked
at and the elements that it took out of the fields, each with the end of its field.
-/

namespace UBoot.Net.Cdp

open Library.Memory Library.Loop NetReceive

def cdpNativeVlanTlv : Nat := 0x000a

def cdpApplianceVlanTlv : Nat := 0x000e

def cdpSnapHdr : List UInt8 := [0xaa, 0xaa, 0x03, 0x00, 0x00, 0x0c, 0x20, 0x00]

/-! ### The checksum -/

/-- The loop over the words; what is left of the buffer, the sum and the bytes read. -/
def sumWords (mem : Buffer) : (len : Nat) → (buff result : Nat) → Nat × Nat × Nat × List Nat
  | len + 2, buff, result =>
      let result := result + be16 mem buff
      let rest := sumWords mem len (buff + 2)
        (if 2 ^ 31 ≤ result then result % 65536 + result / 65536 else result)
      (rest.1, rest.2.1, rest.2.2.1, buff :: (buff + 1) :: rest.2.2.2)
  | len, buff, result => (len, buff, result, [])

def foldCarries (result : Nat) : Nat :=
  if result < 65536 then result else foldCarries (result % 65536 + result / 65536)
termination_by result

/-- The sum of a buffer that is not empty, and the bytes read. -/
def sumBytes (mem : Buffer) (buff len : Nat) : Nat × List Nat :=
  let odd := buff % 2 = 1
  let words :=
    if odd then sumWords mem (len - 1) (buff + 1) ((mem buff).toNat * 256)
    else sumWords mem len buff 0
  let first := if odd then [buff] else []
  let place := words.2.1
  -- the last byte is sign extended
  let leftover := if 128 ≤ (mem place).toNat then (mem place).toNat + 65280 else (mem place).toNat
  let whole := words.2.2.1
  let result :=
    foldCarries (if words.1 = 0 then whole else whole / 65536 * 65536 + (whole + leftover) % 65536)
  (if odd then result / 256 % 256 + result % 256 * 256 else result,
    first ++ words.2.2.2 ++ if words.1 = 0 then [] else [place])

def addCarry (result : Nat) : Nat := result % 65536 + result / 65536

/-- CDP_compute_csum with its `ushort` length, and the bytes read. -/
def cdpComputeCsum (mem : Buffer) (buff len : Nat) : Nat × List Nat :=
  let sum := if 0 < len % 65536 then sumBytes mem buff (len % 65536) else (0, [])
  (65535 - addCarry (addCarry (addCarry sum.1)) % 65536, sum.2)

/-! ### The handler -/

structure Element where
  place : Nat
  size : Nat
  bound : Nat

structure CdpLoop where
  pkt : Nat
  len : Nat
  vlan : Nat
  nvlan : Nat
  reads : List Nat
  elements : List Element

inductive Verdict where
  | pktShort
  | ignored
  | accepted
  deriving DecidableEq

structure CdpEnd where
  verdict : Verdict
  loop : CdpLoop

def bytesAt (place count : Nat) : List Nat := (List.range count).map fun i => place + i

def CdpLoop.read (loop : CdpLoop) (place count : Nat) : CdpLoop :=
  { loop with reads := loop.reads ++ bytesAt place count }

def CdpLoop.take (loop : CdpLoop) (place size bound : Nat) : CdpLoop :=
  { loop.read place size with elements := loop.elements ++ [⟨place, size, bound⟩] }

/-- The elements of an appliance VLAN field that ends at `bound`; with the configured type, or
without one. -/
def applianceLoop (mem : Buffer) (vlanType : Option UInt8) (bound : Nat) :
    (tlen t : Nat) → CdpLoop → CdpLoop × Bool
  | 0, _, loop => (loop, true)
  | tlen + 3, t, loop =>
      let taken := loop.take t 3 bound
      let vlan :=
        match vlanType with
        | some type => if mem t = type then be16 mem (t + 1) else loop.vlan
        | none => be16 mem (t + 1)
      applianceLoop mem vlanType bound tlen (t + 3) { taken with vlan := vlan }
  | _, _, loop => (loop, false)

/-- One turn of the loop over the fields. -/
def cdpStep (mem : Buffer) (vlanType : Option UInt8) (loop : CdpLoop) : CdpLoop ⊕ CdpEnd :=
  if loop.len = 0 then .inr ⟨.accepted, loop⟩
  else if loop.len < 4 then .inr ⟨.pktShort, loop⟩
  else
    let type := be16 mem loop.pkt
    let tlen := be16 mem (loop.pkt + 2)
    let header := loop.read loop.pkt 4
    if loop.len < tlen then .inr ⟨.pktShort, header⟩
    else
      let bound := loop.pkt + tlen
      let next := { header with pkt := bound, len := loop.len - tlen }
      let ss := loop.pkt + 4
      -- tlen -= 4
      let left := (tlen + 65532) % 65536
      if type = cdpNativeVlanTlv then .inl { next.take ss 2 bound with nvlan := be16 mem ss }
      else if type = cdpApplianceVlanTlv then
        match applianceLoop mem vlanType bound left ss next with
        | (next, true) => .inl next
        | (next, false) => .inr ⟨.pktShort, next⟩
      else .inl next

/-- CDPHandler up to its loop. -/
def cdpStart (mem : Buffer) (pkt len : Nat) : CdpLoop ⊕ CdpEnd :=
  let loop : CdpLoop := ⟨pkt, len, 0xffff, 0xffff, [], []⟩
  if len < 8 + 4 then .inr ⟨.pktShort, loop⟩
  else
    let snap := loop.read pkt 8
    if slice mem pkt 8 ≠ cdpSnapHdr then .inr ⟨.ignored, snap⟩
    else
      let version := snap.read (pkt + 8) 2
      if mem (pkt + 8) < 2 ∨ mem (pkt + 9) = 0 then .inr ⟨.ignored, version⟩
      else
        let csum := cdpComputeCsum mem (pkt + 8) (len - 8)
        let summed := { version with reads := version.reads ++ csum.2 }
        if csum.1 ≠ 0 then .inr ⟨.ignored, summed⟩
        else .inl { summed with pkt := pkt + 12, len := len - 12 }

/-! ### What the handler must not do -/

section Packet
variable (mem : Buffer) (vlanType : Option UInt8) (pkt len : Nat)

/-- The log behind a turn. -/
def logged (turn : CdpLoop ⊕ CdpEnd) : CdpLoop := turn.elim id CdpEnd.loop

/-- The loop comes to this state. -/
def Comes (loop : CdpLoop) : Prop :=
  ∃ first, cdpStart mem pkt len = .inl first ∧ Reaches (cdpStep mem vlanType) first loop

structure CdpContained : Prop where
  terminates : ∀ first, cdpStart mem pkt len = .inl first →
    ∃ result, Ends (cdpStep mem vlanType) first result
  startReads : ∀ place ∈ (logged (cdpStart mem pkt len)).reads, pkt ≤ place ∧ place < pkt + len
  reads : ∀ loop, Comes mem vlanType pkt len loop →
    ∀ place ∈ (logged (cdpStep mem vlanType loop)).reads, pkt ≤ place ∧ place < pkt + len
  turns : ∀ loop next, Comes mem vlanType pkt len loop →
    cdpStep mem vlanType loop = .inl next → next.len + 4 ≤ loop.len
  elements : ∀ loop, Comes mem vlanType pkt len loop →
    ∀ element ∈ (logged (cdpStep mem vlanType loop)).elements,
      element.place + element.size ≤ element.bound

/-- An announcement by its header. -/
def Announced : Prop :=
  12 ≤ len ∧ slice mem pkt 8 = cdpSnapHdr ∧ ¬ (mem (pkt + 8) < 2 ∨ mem (pkt + 9) = 0) ∧
    (cdpComputeCsum mem (pkt + 8) (len - 8)).1 = 0

/-- A field and what is left of the packet from there on. The elements of an appliance VLAN field
fill it, or nothing behind it counts. -/
inductive FieldAt : (place left : Nat) → Prop where
  | first : Announced mem pkt len → FieldAt (pkt + 12) (len - 12)
  | next {place left : Nat} : FieldAt place left → 4 ≤ left → be16 mem (place + 2) ≤ left →
      (be16 mem place = cdpApplianceVlanTlv → (be16 mem (place + 2) - 4) % 3 = 0) →
      FieldAt (place + be16 mem (place + 2)) (left - be16 mem (place + 2))

/-- Every field has room for its header, and one with a native VLAN for that. -/
def WellSized : Prop :=
  ∀ place left, FieldAt mem pkt len place left → 4 ≤ left → be16 mem (place + 2) ≤ left →
    4 ≤ be16 mem (place + 2) ∧
      (be16 mem place = cdpNativeVlanTlv → 6 ≤ be16 mem (place + 2))

end Packet

/-! ### The bytes of the checksum -/

theorem mem_bytes_at {place count other : Nat} :
    other ∈ bytesAt place count ↔ place ≤ other ∧ other < place + count := by
  unfold bytesAt
  rw [List.mem_map]
  constructor
  · rintro ⟨i, member, rfl⟩
    have := List.mem_range.mp member
    omega
  · rintro ⟨above, below⟩
    exact ⟨other - place, List.mem_range.mpr (by omega), by omega⟩

/-- The words and what is left of them. -/
theorem sum_words_inside (mem : Buffer) (len buff result : Nat) :
    (sumWords mem len buff result).1 + (sumWords mem len buff result).2.1 = len + buff ∧
      buff ≤ (sumWords mem len buff result).2.1 ∧
      ∀ place ∈ (sumWords mem len buff result).2.2.2,
        buff ≤ place ∧ place < (sumWords mem len buff result).2.1 := by
  fun_induction sumWords mem len buff result with
  | case1 len buff result sum rest inductive_hypothesis =>
      have total : rest.1 + rest.2.1 = len + (buff + 2) := inductive_hypothesis.1
      have above : buff + 2 ≤ rest.2.1 := inductive_hypothesis.2.1
      have inside : ∀ place ∈ rest.2.2.2, buff + 2 ≤ place ∧ place < rest.2.1 :=
        inductive_hypothesis.2.2
      dsimp only
      refine ⟨by omega, by omega, ?_⟩
      intro place member
      rcases List.mem_cons.mp member with rfl | later
      · omega
      rcases List.mem_cons.mp later with rfl | last
      · omega
      · have := inside place last
        omega
  | case2 len buff result short =>
      exact ⟨rfl, Nat.le_refl _, fun place member => absurd member List.not_mem_nil⟩

theorem sum_bytes_inside (mem : Buffer) {buff len : Nat} (some_bytes : 0 < len) :
    ∀ place ∈ (sumBytes mem buff len).2, buff ≤ place ∧ place < buff + len := by
  have inside {words : Nat × Nat × Nat × List Nat} {first : List Nat} {place : Nat}
      (total : words.1 + words.2.1 ≤ buff + len) (above : buff ≤ words.2.1)
      (front : ∀ place ∈ first, place = buff)
      (middle : ∀ place ∈ words.2.2.2, buff ≤ place ∧ place < words.2.1)
      (member : place ∈ first ++ words.2.2.2 ++ if words.1 = 0 then [] else [words.2.1]) :
      buff ≤ place ∧ place < buff + len := by
    rcases List.mem_append.mp member with early | last
    · rcases List.mem_append.mp early with start | summed
      · have := front place start
        omega
      · have := middle place summed
        omega
    · split at last
      · exact absurd last List.not_mem_nil
      · rw [List.mem_singleton.mp last]
        omega
  intro place member
  unfold sumBytes at member
  dsimp only at member
  by_cases odd : buff % 2 = 1
  · rw [if_pos odd, if_pos odd] at member
    obtain ⟨total, above, middle⟩ :=
      sum_words_inside mem (len - 1) (buff + 1) ((mem buff).toNat * 256)
    refine inside (by omega) (by omega) (fun place same => List.mem_singleton.mp same) ?_ member
    intro place summed
    have := middle place summed
    omega
  · rw [if_neg odd, if_neg odd] at member
    obtain ⟨total, above, middle⟩ := sum_words_inside mem len buff 0
    exact inside (by omega) above (fun place none_read => absurd none_read List.not_mem_nil)
      middle member

theorem csum_inside (mem : Buffer) (buff len : Nat) :
    ∀ place ∈ (cdpComputeCsum mem buff len).2, buff ≤ place ∧ place < buff + len := by
  intro place member
  unfold cdpComputeCsum at member
  dsimp only at member
  split at member
  · next some_bytes =>
      have := sum_bytes_inside mem some_bytes place member
      have := Nat.mod_le len 65536
      omega
  · exact absurd member List.not_mem_nil

/-! ### One turn -/

/-- Elements were taken between two places, out of a field that ends at `bound`. -/
structure Taken (start stop bound : Nat) (loop after : CdpLoop) : Prop where
  pkt : after.pkt = loop.pkt
  len : after.len = loop.len
  reads : ∀ place ∈ after.reads, place ∈ loop.reads ∨ start ≤ place ∧ place < stop
  elements : ∀ element ∈ after.elements,
    element ∈ loop.elements ∨ element.place + element.size ≤ stop ∧ element.bound = bound
  kept : ∀ element ∈ loop.elements, element ∈ after.elements

theorem taken_refl (start stop bound : Nat) (loop : CdpLoop) : Taken start stop bound loop loop :=
  ⟨rfl, rfl, fun _ => .inl, fun _ => .inl, fun _ => id⟩

theorem taken_one (start size bound : Nat) (loop : CdpLoop) :
    Taken start (start + size) bound loop (loop.take start size bound) := by
  refine ⟨rfl, rfl, ?_, ?_, fun _ => List.mem_append_left _⟩
  · intro place member
    rcases List.mem_append.mp member with before | here
    · exact .inl before
    · exact .inr (mem_bytes_at.mp here)
  · intro element member
    rcases List.mem_append.mp member with before | here
    · exact .inl before
    · rw [List.mem_singleton.mp here]
      exact .inr ⟨Nat.le_refl _, rfl⟩

theorem taken_trans {start middle stop bound : Nat} {loop next after : CdpLoop}
    (ordered : start ≤ middle ∧ middle ≤ stop) (one : Taken start middle bound loop next)
    (more : Taken middle stop bound next after) : Taken start stop bound loop after := by
  refine ⟨more.pkt.trans one.pkt, more.len.trans one.len, ?_, ?_,
    fun element member => more.kept element (one.kept element member)⟩
  · intro place member
    rcases more.reads place member with before | here
    · rcases one.reads place before with early | here
      · exact .inl early
      · exact .inr (by omega)
    · exact .inr (by omega)
  · intro element member
    rcases more.elements element member with before | here
    · rcases one.elements element before with early | here
      · exact .inl early
      · exact .inr ⟨by omega, here.2⟩
    · exact .inr here

theorem appliance_taken (mem : Buffer) (vlanType : Option UInt8) (bound tlen t : Nat)
    (loop : CdpLoop) :
    Taken t (t + tlen) bound loop (applianceLoop mem vlanType bound tlen t loop).1 := by
  fun_induction applianceLoop mem vlanType bound tlen t loop with
  | case1 t loop => exact taken_refl _ _ _ _
  | case2 tlen t loop taken vlan inductive_hypothesis =>
      have one : Taken t (t + 3) bound loop { taken with vlan := vlan } := by
        have read := taken_one t 3 bound loop
        exact ⟨rfl, rfl, read.reads, read.elements, read.kept⟩
      rw [Nat.add_right_comm t 3 tlen, Nat.add_assoc t tlen 3] at inductive_hypothesis
      exact taken_trans (by omega) one inductive_hypothesis
  | case3 => exact taken_refl _ _ _ _

/-- The loop comes through where the elements fill the field. -/
theorem appliance_fills (mem : Buffer) (vlanType : Option UInt8) (bound tlen t : Nat)
    (loop : CdpLoop) :
    (applianceLoop mem vlanType bound tlen t loop).2 = true ↔ tlen % 3 = 0 := by
  fun_induction applianceLoop mem vlanType bound tlen t loop with
  | case1 => exact ⟨fun _ => rfl, fun _ => rfl⟩
  | case2 tlen t loop taken vlan inductive_hypothesis =>
      rw [inductive_hypothesis]
      omega
  | case3 tlen t loop some_left less =>
      constructor
      · intro through
        cases through
      · intro divides
        have three : 3 ≤ tlen := by
          rcases Nat.eq_zero_or_pos tlen with zero | positive
          · exact absurd zero some_left
          · omega
        exact absurd (Nat.sub_add_cancel three).symm (less (tlen - 3))

theorem appliance_first (mem : Buffer) (vlanType : Option UInt8) (bound tlen t : Nat)
    (loop : CdpLoop) (some_left : 3 ≤ tlen) :
    ⟨t, 3, bound⟩ ∈ (applianceLoop mem vlanType bound tlen t loop).1.elements := by
  obtain ⟨more, rfl⟩ : ∃ more, tlen = more + 3 := ⟨tlen - 3, by omega⟩
  unfold applianceLoop
  refine (appliance_taken mem vlanType bound more (t + 3) _).kept _ ?_
  exact List.mem_append_right _ List.mem_cons_self

/-! ### The walk over the fields -/

section Walk
variable {mem : Buffer} {vlanType : Option UInt8} {pkt len : Nat}

/-- What was looked at lies in the packet, and no element passes the end of its field. -/
structure Inside (pkt len : Nat) (loop : CdpLoop) : Prop where
  reads : ∀ place ∈ loop.reads, pkt ≤ place ∧ place < pkt + len
  elements : ∀ element ∈ loop.elements, element.place + element.size ≤ element.bound

structure Walking (mem : Buffer) (pkt len : Nat) (loop : CdpLoop) : Prop where
  field : FieldAt mem pkt len loop.pkt loop.len
  total : loop.pkt + loop.len = pkt + len
  above : pkt ≤ loop.pkt
  inside : Inside pkt len loop

theorem inside_read {loop : CdpLoop} {place count : Nat} (inside : Inside pkt len loop)
    (above : pkt ≤ place) (below : place + count ≤ pkt + len) :
    Inside pkt len (loop.read place count) := by
  refine ⟨?_, inside.elements⟩
  intro other member
  rcases List.mem_append.mp member with before | here
  · exact inside.reads other before
  · have := mem_bytes_at.mp here
    omega

theorem inside_taken {loop after : CdpLoop} {start stop bound : Nat}
    (taken : Taken start stop bound loop after) (inside : Inside pkt len loop)
    (above : pkt ≤ start) (within' : stop ≤ bound) (below : bound ≤ pkt + len) :
    Inside pkt len after := by
  constructor
  · intro place member
    rcases taken.reads place member with before | here
    · exact inside.reads place before
    · omega
  · intro element member
    rcases taken.elements element member with before | here
    · exact inside.elements element before
    · omega

/-- The header of a field, and where the next one begins. -/
def behindHeader (mem : Buffer) (loop : CdpLoop) : CdpLoop :=
  { loop.read loop.pkt 4 with
    pkt := loop.pkt + be16 mem (loop.pkt + 2)
    len := loop.len - be16 mem (loop.pkt + 2) }

/-- What one turn can do. -/
inductive Turn (mem : Buffer) (vlanType : Option UInt8) (loop : CdpLoop) :
    CdpLoop ⊕ CdpEnd → Prop where
  | through : loop.len = 0 → Turn mem vlanType loop (.inr ⟨.accepted, loop⟩)
  | noHeader : loop.len < 4 → Turn mem vlanType loop (.inr ⟨.pktShort, loop⟩)
  | cut : 4 ≤ loop.len → loop.len < be16 mem (loop.pkt + 2) →
      Turn mem vlanType loop (.inr ⟨.pktShort, loop.read loop.pkt 4⟩)
  | native (next : CdpLoop) : 4 ≤ loop.len → be16 mem (loop.pkt + 2) ≤ loop.len →
      be16 mem loop.pkt = cdpNativeVlanTlv →
      next = { (behindHeader mem loop).take (loop.pkt + 4) 2
          (loop.pkt + be16 mem (loop.pkt + 2)) with nvlan := be16 mem (loop.pkt + 4) } →
      Turn mem vlanType loop (.inl next)
  | appliance (next : CdpLoop) (fills : Bool) :
      4 ≤ loop.len → be16 mem (loop.pkt + 2) ≤ loop.len →
      be16 mem loop.pkt = cdpApplianceVlanTlv →
      applianceLoop mem vlanType (loop.pkt + be16 mem (loop.pkt + 2))
        ((be16 mem (loop.pkt + 2) + 65532) % 65536) (loop.pkt + 4) (behindHeader mem loop) =
        (next, fills) →
      Turn mem vlanType loop (if fills then .inl next else .inr ⟨.pktShort, next⟩)
  | other : 4 ≤ loop.len → be16 mem (loop.pkt + 2) ≤ loop.len →
      be16 mem loop.pkt ≠ cdpNativeVlanTlv → be16 mem loop.pkt ≠ cdpApplianceVlanTlv →
      Turn mem vlanType loop (.inl (behindHeader mem loop))

theorem step_turn (loop : CdpLoop) : Turn mem vlanType loop (cdpStep mem vlanType loop) := by
  unfold cdpStep
  by_cases through : loop.len = 0
  · rw [if_pos through]
    exact .through through
  by_cases noHeader : loop.len < 4
  · rw [if_neg through, if_pos noHeader]
    exact .noHeader noHeader
  rw [if_neg through, if_neg noHeader]
  dsimp only
  have header : 4 ≤ loop.len := Nat.le_of_not_lt noHeader
  by_cases cut : loop.len < be16 mem (loop.pkt + 2)
  · rw [if_pos cut]
    exact .cut header cut
  rw [if_neg cut]
  have whole : be16 mem (loop.pkt + 2) ≤ loop.len := Nat.le_of_not_lt cut
  by_cases native : be16 mem loop.pkt = cdpNativeVlanTlv
  · rw [if_pos native]
    exact .native _ header whole native rfl
  by_cases appliance : be16 mem loop.pkt = cdpApplianceVlanTlv
  · rw [if_neg native, if_pos appliance, ← behindHeader]
    generalize run : applianceLoop mem vlanType (loop.pkt + be16 mem (loop.pkt + 2))
      ((be16 mem (loop.pkt + 2) + 65532) % 65536) (loop.pkt + 4) (behindHeader mem loop) = result
    obtain ⟨next, fills⟩ := result
    have turn := Turn.appliance next fills header whole appliance run
    cases fills <;> exact turn
  · rw [if_neg native, if_neg appliance]
    exact .other header whole native appliance

theorem behind_header_inside {loop : CdpLoop} (walking : Walking mem pkt len loop)
    (header : 4 ≤ loop.len) : Inside pkt len (behindHeader mem loop) := by
  have total := walking.total
  have read : Inside pkt len (loop.read loop.pkt 4) :=
    inside_read walking.inside walking.above (by omega)
  exact ⟨read.reads, read.elements⟩

/-- A turn over fields of the right size stays in the packet and consumes a header. -/
theorem turn_kept (sized : WellSized mem pkt len) {loop : CdpLoop}
    (walking : Walking mem pkt len loop) :
    Inside pkt len (logged (cdpStep mem vlanType loop)) ∧
      ∀ next, cdpStep mem vlanType loop = .inl next →
        Walking mem pkt len next ∧ next.len + 4 ≤ loop.len := by
  have total := walking.total
  have above := walking.above
  -- the next field, where this one holds its header
  have next_field (header : 4 ≤ loop.len) (whole : be16 mem (loop.pkt + 2) ≤ loop.len)
      (fills : be16 mem loop.pkt = cdpApplianceVlanTlv → (be16 mem (loop.pkt + 2) - 4) % 3 = 0)
      {next : CdpLoop} (place : next.pkt = loop.pkt + be16 mem (loop.pkt + 2))
      (left : next.len = loop.len - be16 mem (loop.pkt + 2)) (inside : Inside pkt len next) :
      Walking mem pkt len next ∧ next.len + 4 ≤ loop.len := by
    have fits := (sized _ _ walking.field header whole).1
    refine ⟨⟨?_, by omega, by omega, inside⟩, by omega⟩
    rw [place, left]
    exact .next walking.field header whole fills
  have turn : Turn mem vlanType loop (cdpStep mem vlanType loop) := step_turn loop
  generalize cdpStep mem vlanType loop = result at turn
  cases turn with
  | through => exact ⟨walking.inside, fun next goes => by cases goes⟩
  | noHeader => exact ⟨walking.inside, fun next goes => by cases goes⟩
  | cut header =>
      exact ⟨inside_read walking.inside above (by omega), fun next goes => by cases goes⟩
  | native next header whole type same =>
      have room := (sized _ _ walking.field header whole).2 type
      have one : Taken (loop.pkt + 4) (loop.pkt + 4 + 2) (loop.pkt + be16 mem (loop.pkt + 2))
          (behindHeader mem loop) next := by
        have read := taken_one (loop.pkt + 4) 2 (loop.pkt + be16 mem (loop.pkt + 2))
          (behindHeader mem loop)
        rw [same]
        exact ⟨rfl, rfl, read.reads, read.elements, read.kept⟩
      have inside := inside_taken one (behind_header_inside walking header) (by omega) (by omega)
        (by omega)
      refine ⟨inside, ?_⟩
      intro other goes
      rw [← Sum.inl.inj goes]
      refine next_field header whole ?_ one.pkt one.len inside
      intro appliance
      rw [type] at appliance
      exact absurd appliance (by decide)
  | appliance next fills header whole type run =>
      have fits := (sized _ _ walking.field header whole).1
      have size := be16_lt mem (loop.pkt + 2)
      have left : (be16 mem (loop.pkt + 2) + 65532) % 65536 = be16 mem (loop.pkt + 2) - 4 := by omega
      rw [left] at run
      have taken := appliance_taken mem vlanType (loop.pkt + be16 mem (loop.pkt + 2))
        (be16 mem (loop.pkt + 2) - 4) (loop.pkt + 4) (behindHeader mem loop)
      have through := appliance_fills mem vlanType (loop.pkt + be16 mem (loop.pkt + 2))
        (be16 mem (loop.pkt + 2) - 4) (loop.pkt + 4) (behindHeader mem loop)
      rw [run] at taken through
      have inside := inside_taken taken (behind_header_inside walking header) (by omega) (by omega)
        (by omega)
      cases fills with
      | false => exact ⟨inside, fun next goes => by cases goes⟩
      | true =>
          refine ⟨inside, ?_⟩
          intro other goes
          rw [← Sum.inl.inj goes]
          exact next_field header whole (fun _ => through.mp rfl) taken.pkt taken.len inside
  | other header whole native appliance =>
      have inside := behind_header_inside walking header
      refine ⟨inside, ?_⟩
      intro next goes
      rw [← Sum.inl.inj goes]
      exact next_field header whole (fun type => absurd type appliance) rfl rfl inside

theorem start_inside : Inside pkt len (logged (cdpStart mem pkt len)) := by
  have nothing : Inside pkt len ⟨pkt, len, 0xffff, 0xffff, [], []⟩ :=
    ⟨fun _ member => absurd member List.not_mem_nil, fun _ member => absurd member List.not_mem_nil⟩
  unfold cdpStart
  dsimp only
  by_cases short : len < 8 + 4
  · rw [if_pos short]
    exact nothing
  have snap := inside_read nothing (Nat.le_refl pkt) (show pkt + 8 ≤ pkt + len by omega)
  by_cases foreign : slice mem pkt 8 ≠ cdpSnapHdr
  · rw [if_neg short, if_pos foreign]
    exact snap
  have version := inside_read snap (show pkt ≤ pkt + 8 by omega)
    (show pkt + 8 + 2 ≤ pkt + len by omega)
  by_cases old : mem (pkt + 8) < 2 ∨ mem (pkt + 9) = 0
  · rw [if_neg short, if_neg foreign, if_pos old]
    exact version
  rw [if_neg short, if_neg foreign, if_neg old]
  have summed (place : Nat)
      (member : place ∈ ((CdpLoop.mk pkt len 0xffff 0xffff [] []).read pkt 8 |>.read (pkt + 8) 2).reads
        ++ (cdpComputeCsum mem (pkt + 8) (len - 8)).2) : pkt ≤ place ∧ place < pkt + len := by
    rcases List.mem_append.mp member with before | here
    · exact version.reads place before
    · have := csum_inside mem (pkt + 8) (len - 8) place here
      omega
  split
  · exact ⟨summed, version.elements⟩
  · exact ⟨summed, version.elements⟩

theorem start_first (first : CdpLoop) : cdpStart mem pkt len = .inl first →
    Announced mem pkt len ∧ first.pkt = pkt + 12 ∧ first.len = len - 12 := by
  unfold cdpStart
  dsimp only
  intro begins
  split at begins
  · cases begins
  split at begins
  · cases begins
  split at begins
  · cases begins
  split at begins
  · cases begins
  next long known young right =>
    rw [← Sum.inl.inj begins]
    exact ⟨⟨Nat.le_of_not_lt long, not_not.mp known, young, not_not.mp right⟩, rfl, rfl⟩

theorem announced_start (announced : Announced mem pkt len) :
    ∃ first, cdpStart mem pkt len = .inl first := by
  obtain ⟨long, known, young, right⟩ := announced
  unfold cdpStart
  dsimp only
  rw [if_neg (Nat.not_lt.mpr long), if_neg (not_not.mpr known), if_neg young,
    if_neg (not_not.mpr right)]
  exact ⟨_, rfl⟩

theorem start_walking {first : CdpLoop} (begins : cdpStart mem pkt len = .inl first) :
    Walking mem pkt len first := by
  obtain ⟨announced, place, left⟩ := start_first first begins
  have inside : Inside pkt len (logged (cdpStart mem pkt len)) := start_inside
  rw [begins] at inside
  have long := announced.1
  refine ⟨?_, by omega, by omega, inside⟩
  rw [place, left]
  exact .first announced

theorem comes_walking (sized : WellSized mem pkt len) {loop : CdpLoop}
    (comes : Comes mem vlanType pkt len loop) : Walking mem pkt len loop := by
  obtain ⟨first, begins, reached⟩ := comes
  exact reaches_keeps (Walking mem pkt len)
    (fun _ next walking goes => ((turn_kept sized walking).2 next goes).1) (start_walking begins)
    reached

theorem contained_of_sized (sized : WellSized mem pkt len) :
    CdpContained mem vlanType pkt len where
  terminates := fun first begins =>
    ends_measure (Walking mem pkt len) CdpLoop.len
      (fun state next walking goes => by
        obtain ⟨kept, less⟩ := (turn_kept sized walking).2 next goes
        exact ⟨kept, by omega⟩)
      (start_walking begins)
  startReads := start_inside.reads
  reads := fun _ comes => (turn_kept sized (comes_walking sized comes)).1.reads
  turns := fun _ next comes goes => ((turn_kept sized (comes_walking sized comes)).2 next goes).2
  elements := fun _ comes => (turn_kept sized (comes_walking sized comes)).1.elements

/-- A field that the loop comes to has room for its header, where the handler is contained. -/
theorem contained_sizes (contained : CdpContained mem vlanType pkt len) {loop : CdpLoop}
    (comes : Comes mem vlanType pkt len loop) (header : 4 ≤ loop.len)
    (whole : be16 mem (loop.pkt + 2) ≤ loop.len) :
    4 ≤ be16 mem (loop.pkt + 2) ∧
      (be16 mem loop.pkt = cdpNativeVlanTlv → 6 ≤ be16 mem (loop.pkt + 2)) := by
  have turns := contained.turns loop
  have elements := contained.elements loop comes
  have turn : Turn mem vlanType loop (cdpStep mem vlanType loop) := step_turn loop
  generalize cdpStep mem vlanType loop = result at turn turns elements
  cases turn with
  | through empty => omega
  | noHeader short => omega
  | cut _ cut => omega
  | native next _ _ type same =>
      have progress := turns next comes rfl
      have element := elements ⟨loop.pkt + 4, 2, loop.pkt + be16 mem (loop.pkt + 2)⟩ (by
        rw [same]
        exact List.mem_append_right _ List.mem_cons_self)
      rw [same] at progress
      change loop.len - be16 mem (loop.pkt + 2) + 4 ≤ loop.len at progress
      dsimp only at element
      omega
  | appliance next fills _ _ type run =>
      refine ⟨?_, fun native => ?_⟩
      · by_contra short
        have size : 3 ≤ (be16 mem (loop.pkt + 2) + 65532) % 65536 := by omega
        have first := appliance_first mem vlanType (loop.pkt + be16 mem (loop.pkt + 2)) _
          (loop.pkt + 4) (behindHeader mem loop) size
        rw [run] at first
        have element := elements ⟨loop.pkt + 4, 3, loop.pkt + be16 mem (loop.pkt + 2)⟩ (by
          cases fills <;> exact first)
        dsimp only at element
        omega
      · rw [type] at native
        exact absurd native (by decide)
  | other _ _ native =>
      have progress := turns _ comes rfl
      change loop.len - be16 mem (loop.pkt + 2) + 4 ≤ loop.len at progress
      exact ⟨by omega, fun type => absurd type native⟩

theorem field_comes (contained : CdpContained mem vlanType pkt len) {place left : Nat}
    (field : FieldAt mem pkt len place left) :
    ∃ loop, Comes mem vlanType pkt len loop ∧ loop.pkt = place ∧ loop.len = left := by
  induction field with
  | first announced =>
      obtain ⟨first, begins⟩ := announced_start announced
      obtain ⟨-, place, left⟩ := start_first first begins
      exact ⟨first, ⟨first, begins, .start⟩, place, left⟩
  | next field header whole fills inductive_hypothesis =>
      obtain ⟨loop, comes, rfl, rfl⟩ := inductive_hypothesis
      have sizes := contained_sizes contained comes header whole
      have turn : Turn mem vlanType loop (cdpStep mem vlanType loop) := step_turn loop
      obtain ⟨first, begins, reached⟩ := comes
      have behind {next : CdpLoop} (goes : cdpStep mem vlanType loop = .inl next) :
          Comes mem vlanType pkt len next := ⟨first, begins, .next reached goes⟩
      generalize result : cdpStep mem vlanType loop = result at turn
      cases turn with
      | through empty => omega
      | noHeader short => omega
      | cut _ cut => omega
      | native next _ _ type same => exact ⟨next, behind result, by rw [same]; rfl, by rw [same]; rfl⟩
      | appliance next filled _ _ type run =>
          have size := be16_lt mem (loop.pkt + 2)
          have tlen : (be16 mem (loop.pkt + 2) + 65532) % 65536 = be16 mem (loop.pkt + 2) - 4 := by
            omega
          rw [tlen] at run
          have through := (appliance_fills mem vlanType (loop.pkt + be16 mem (loop.pkt + 2))
            (be16 mem (loop.pkt + 2) - 4) (loop.pkt + 4) (behindHeader mem loop)).mpr (fills type)
          have taken := appliance_taken mem vlanType (loop.pkt + be16 mem (loop.pkt + 2))
            (be16 mem (loop.pkt + 2) - 4) (loop.pkt + 4) (behindHeader mem loop)
          rw [run] at through taken
          rw [if_pos through] at result
          exact ⟨next, behind result, taken.pkt, taken.len⟩
      | other => exact ⟨_, behind result, rfl, rfl⟩

theorem cdp_contained_iff (mem : Buffer) (vlanType : Option UInt8) (pkt len : Nat) :
    CdpContained mem vlanType pkt len ↔ WellSized mem pkt len := by
  refine ⟨?_, contained_of_sized⟩
  intro contained place left field header whole
  obtain ⟨loop, comes, rfl, rfl⟩ := field_comes contained field
  exact contained_sizes contained comes header whole

/-- The handler stays for ever at a field that says it has no bytes. -/
theorem empty_field_never_ends {loop : CdpLoop} (header : 4 ≤ loop.len)
    (empty : be16 mem (loop.pkt + 2) = 0) (type : be16 mem loop.pkt ≠ cdpApplianceVlanTlv)
    (result : CdpEnd) : ¬ Ends (cdpStep mem vlanType) loop result := by
  refine never_ends (fun other => other.pkt = loop.pkt ∧ other.len = loop.len) ?_ ⟨rfl, rfl⟩ result
  rintro other ⟨place, left⟩
  have turn : Turn mem vlanType other (cdpStep mem vlanType other) := step_turn other
  generalize cdpStep mem vlanType other = result at turn
  cases turn with
  | through empty => omega
  | noHeader short => omega
  | cut _ cut =>
      rw [place, empty] at cut
      omega
  | native next _ _ _ same =>
      refine ⟨next, rfl, ?_, ?_⟩
      · rw [same]
        change other.pkt + be16 mem (other.pkt + 2) = loop.pkt
        rw [place, empty, Nat.add_zero]
      · rw [same]
        change other.len - be16 mem (other.pkt + 2) = loop.len
        rw [place, empty, Nat.sub_zero, left]
  | appliance next fills _ _ appliance =>
      rw [place] at appliance
      exact absurd appliance type
  | other _ _ _ _ =>
      refine ⟨_, rfl, ?_, ?_⟩
      · change other.pkt + be16 mem (other.pkt + 2) = loop.pkt
        rw [place, empty, Nat.add_zero]
      · change other.len - be16 mem (other.pkt + 2) = loop.len
        rw [place, empty, Nat.sub_zero, left]

end Walk

/-- An announcement with a device id field that says it has no bytes. -/
def emptyField : Buffer :=
  splice (fun _ => 0) 0 (cdpSnapHdr ++ [0x02, 0xb4, 0xfd, 0x4a, 0x00, 0x01, 0x00, 0x00])

theorem empty_field_announced : Announced emptyField 0 16 := by
  refine ⟨by decide, by decide, by decide, ?_⟩
  have summed : sumWords emptyField 8 8 0 = (0, 16, 65535, [8, 9, 10, 11, 12, 13, 14, 15]) := by
    decide +kernel
  have folded : foldCarries 65535 = 65535 := by
    rw [foldCarries, if_pos (by decide)]
  have bytes : sumBytes emptyField 8 8 = (65535, [8, 9, 10, 11, 12, 13, 14, 15]) := by
    unfold sumBytes
    simp only [Nat.reduceMod, zero_ne_one, reduceIte, summed, folded]
    rfl
  unfold cdpComputeCsum
  simp only [Nat.zero_add, Nat.reduceSub, Nat.reduceMod, Nat.reduceLT, reduceIte, bytes]
  rfl

theorem empty_field_hangs :
    (∃ first, cdpStart emptyField 0 16 = .inl first ∧
      ∀ result, ¬ Ends (cdpStep emptyField none) first result) ∧
    ¬ CdpContained emptyField none 0 16 := by
  obtain ⟨first, begins⟩ := announced_start empty_field_announced
  obtain ⟨-, place, left⟩ := start_first first begins
  have hangs (result : CdpEnd) : ¬ Ends (cdpStep emptyField none) first result := by
    refine empty_field_never_ends ?_ ?_ ?_ result
    · omega
    · rw [place]
      decide
    · rw [place]
      decide
  refine ⟨⟨first, begins, hangs⟩, ?_⟩
  intro contained
  obtain ⟨result, ended⟩ := contained.terminates first begins
  exact hangs result ended

end UBoot.Net.Cdp
