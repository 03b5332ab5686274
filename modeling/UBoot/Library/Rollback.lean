import UBoot.Library.Runs

/-!
A receiver that works on a packet while it arrives, and goes back to a saved
state when the packet turns out to be damaged. A packet whose number is not the
last one saves the state first; a packet with the last number goes back to the
saved state. What `keep` records is never taken back. The sender repeats a packet
until it is acknowledged, so the packets that are accepted are those of the
sender in order, each once or several times.
-/

namespace UBoot.Library.Rollback

open Runs

universe u
variable {Kept Data Packet Seq : Type u}

/-- What a packet does; to receive it again changes nothing. -/
structure Link (Kept Data Packet Seq : Type u) where
  seq : Packet → Seq
  keep : Kept → Packet → Kept
  apply : Kept → Data → Packet → Data
  keep_again : ∀ kept packet, keep (keep kept packet) packet = keep kept packet
  apply_again : ∀ kept data packet, apply (keep kept packet) data packet = apply kept data packet

structure Receiver (Kept Data Seq : Type u) where
  kept : Kept
  current : Data
  saved : Data
  last : Option Seq

/-- A packet that was accepted, or a damaged one with its number as far as that was read. -/
inductive Outcome (Packet Seq : Type u) where
  | damaged (number : Option Seq)
  | accepted (packet : Packet)

/-- What was heard: how many packets, the last of them, and the first damage behind it. -/
structure Heard (Packet Seq : Type u) where
  count : Nat
  last : Option Packet
  damage : Option (Option Seq)

section Machine
variable [DecidableEq Seq] (link : Link Kept Data Packet Seq)

/-- The state in which a packet with this number is received. -/
def base (receiver : Receiver Kept Data Seq) (number : Seq) : Data :=
  if receiver.last = some number then receiver.saved else receiver.current

def receive (receiver : Receiver Kept Data Seq) : Outcome Packet Seq → Receiver Kept Data Seq
  | .damaged none => { receiver with current := receiver.saved }
  | .damaged (some number) =>
      { receiver with
        current := base receiver number
        saved := base receiver number
        last := some number }
  | .accepted packet =>
      { kept := link.keep receiver.kept packet
        current := link.apply receiver.kept (base receiver (link.seq packet)) packet
        saved := base receiver (link.seq packet)
        last := some (link.seq packet) }

def track [DecidableEq Packet] (heard : Heard Packet Seq) : Outcome Packet Seq → Heard Packet Seq
  | .damaged number =>
      match heard.damage with
      | none => { heard with damage := some number }
      | some _ => heard
  | .accepted packet =>
      { count := if heard.last = some packet then heard.count else heard.count + 1
        last := some packet
        damage := none }

def nothingHeard : Heard Packet Seq := ⟨0, none, none⟩

/-- The accepted packet is the last one again, or the next one. -/
def Genuine (packets : List Packet) (heard : Heard Packet Seq) : Outcome Packet Seq → Prop
  | .damaged _ => True
  | .accepted packet => heard.last = some packet ∨ packets[heard.count]? = some packet

/-- The damage read as the last packet, or not at all. -/
def TakesBack (packet : Packet) (number : Option Seq) : Prop :=
  number = none ∨ number = some (link.seq packet)

/-- A packet that changes nothing but what is kept. -/
def Idle (packet : Packet) : Prop := ∀ kept data, link.apply kept data packet = data

/-- A packet that was taken back is repeated, and one that was not is not. -/
def Harmless (heard : Heard Packet Seq) : Outcome Packet Seq → Prop
  | .damaged _ => True
  | .accepted packet => ∀ last number, heard.last = some last → heard.damage = some number →
      Idle link last ∨ (packet = last ↔ TakesBack link last number)

/-- The number of a damaged packet was correctly received. -/
def NumberRead (heard : Heard Packet Seq) : Outcome Packet Seq → Prop
  | .damaged _ => True
  | .accepted packet => heard.damage = none ∨ heard.damage = some (some (link.seq packet))

/-- Each of the first packets once. -/
def expected (start : Kept × Data) (packets : List Packet) (count : Nat) : Kept × Data :=
  (packets.take count).foldl
    (fun state packet => (link.keep state.1 packet, link.apply state.1 state.2 packet)) start

/-- Two packets that follow each other have different numbers. -/
def Numbered (packets : List Packet) : Prop :=
  ∀ i first second, packets[i]? = some first → packets[i + 1]? = some second →
    link.seq first ≠ link.seq second

/-- Behind packet `count`: received and not taken back, or taken back by a damage. -/
structure Behind (start : Kept × Data) (packets : List Packet) (receiver : Receiver Kept Data Seq)
    (heard : Heard Packet Seq) (index : Nat) (last : Packet) : Prop where
  count : heard.count = index + 1
  place : packets[index]? = some last
  kept : receiver.kept = (expected link start packets (index + 1)).1
  whole : heard.damage = none → receiver.current = (expected link start packets (index + 1)).2 ∧
    receiver.saved = (expected link start packets index).2 ∧ receiver.last = some (link.seq last)
  back : ∀ number, heard.damage = some number → TakesBack link last number →
    receiver.current = (expected link start packets index).2 ∧
    receiver.saved = (expected link start packets index).2
  ahead : ∀ number, heard.damage = some number → ¬ TakesBack link last number →
    receiver.current = (expected link start packets (index + 1)).2 ∧
    receiver.saved = (expected link start packets (index + 1)).2

structure Inv (start : Kept × Data) (packets : List Packet) (receiver : Receiver Kept Data Seq)
    (heard : Heard Packet Seq) : Prop where
  first : heard.last = none → heard.count = 0 ∧ receiver.kept = start.1 ∧
    receiver.current = start.2 ∧ receiver.saved = start.2
  behind : ∀ last, heard.last = some last → ∃ index, Behind link start packets receiver heard index last

end Machine

section Expected
variable {link : Link Kept Data Packet Seq} {start : Kept × Data} {packets : List Packet}

theorem expected_succ {index : Nat} {packet : Packet} (place : packets[index]? = some packet) :
    expected link start packets (index + 1) =
      (link.keep (expected link start packets index).1 packet,
        link.apply (expected link start packets index).1 (expected link start packets index).2 packet) := by
  unfold expected
  rw [List.take_add_one, place, List.foldl_append]
  rfl

theorem expected_idle {index : Nat} {packet : Packet} (place : packets[index]? = some packet)
    (idle : Idle link packet) :
    (expected link start packets (index + 1)).2 = (expected link start packets index).2 := by
  rw [expected_succ place]
  exact idle _ _

end Expected

section Base
variable [DecidableEq Seq] {receiver : Receiver Kept Data Seq}

theorem base_last {number : Seq} (last : receiver.last = some number) :
    base receiver number = receiver.saved := if_pos last

theorem base_other {number : Seq} (other : receiver.last ≠ some number) :
    base receiver number = receiver.current := if_neg other

/-- Where nothing has been received since the state was saved, every packet starts from it. -/
theorem base_same {data : Data} (number : Seq) (current : receiver.current = data)
    (saved : receiver.saved = data) : base receiver number = data := by
  by_cases last : receiver.last = some number
  · rw [base_last last, saved]
  · rw [base_other last, current]

theorem damaged_frame (link : Link Kept Data Packet Seq) (number : Option Seq) :
    (receive link receiver (.damaged number)).kept = receiver.kept := by
  cases number with
  | none => rfl
  | some number => rfl

/-- Damage while nothing has been received since the state was saved. -/
theorem damaged_same (link : Link Kept Data Packet Seq) {data : Data} (number : Option Seq)
    (current : receiver.current = data) (saved : receiver.saved = data) :
    (receive link receiver (.damaged number)).current = data ∧
      (receive link receiver (.damaged number)).saved = data := by
  cases number with
  | none => exact ⟨saved, saved⟩
  | some number => exact ⟨base_same number current saved, base_same number current saved⟩

end Base

section Ends
variable {start : Kept × Data} {packets : List Packet} {receiver : Receiver Kept Data Seq}
variable {heard : Heard Packet Seq}

theorem begin_inv (link : Link Kept Data Packet Seq) (start : Kept × Data) (packets : List Packet) :
    Inv link start packets ⟨start.1, start.2, start.2, none⟩ nothingHeard := by
  constructor
  · intro _
    exact ⟨rfl, rfl, rfl, rfl⟩
  · intro last nothing
    cases nothing

/-- What a receiver holds that has just accepted a packet. -/
theorem inv_current {link : Link Kept Data Packet Seq} {last : Packet}
    (inv : Inv link start packets receiver heard)
    (heardLast : heard.last = some last) (whole : heard.damage = none) :
    receiver.current = (expected link start packets heard.count).2 := by
  obtain ⟨index, behind⟩ := inv.behind last heardLast
  rw [behind.count]
  exact (behind.whole whole).1

instance [DecidableEq Packet] (packets : List Packet) (heard : Heard Packet Seq) :
    ∀ outcome, Decidable (Genuine packets heard outcome)
  | .damaged _ => isTrue trivial
  | .accepted packet =>
      inferInstanceAs (Decidable (heard.last = some packet ∨ packets[heard.count]? = some packet))

instance [DecidableEq Seq] (link : Link Kept Data Packet Seq) (heard : Heard Packet Seq) :
    ∀ outcome, Decidable (NumberRead link heard outcome)
  | .damaged _ => isTrue trivial
  | .accepted packet =>
      inferInstanceAs
        (Decidable (heard.damage = none ∨ heard.damage = some (some (link.seq packet))))

theorem numbered_of_chain {link : Link Kept Data Packet Seq}
    (chain : packets.IsChain fun first second => link.seq first ≠ link.seq second) :
    Numbered link packets := by
  intro i first second here next
  obtain ⟨_, firstIs⟩ := List.getElem?_eq_some_iff.mp here
  obtain ⟨bound, secondIs⟩ := List.getElem?_eq_some_iff.mp next
  have different := chain.getElem i bound
  rw [firstIs, secondIs] at different
  exact different

/-- Where the number of a damaged packet was correctly received, the packet is the one that is
accepted next. -/
theorem read_harmless {link : Link Kept Data Packet Seq} {outcome : Outcome Packet Seq}
    (numbered : Numbered link packets) (inv : Inv link start packets receiver heard)
    (genuine : Genuine packets heard outcome) (read : NumberRead link heard outcome) :
    Harmless link heard outcome := by
  cases outcome with
  | damaged _ => exact trivial
  | accepted packet =>
      intro last number heardLast damage
      have number_ : number = some (link.seq packet) := by
        rcases read with whole | correct
        · rw [whole] at damage
          cases damage
        · rw [correct] at damage
          exact (Option.some.inj damage).symm
      subst number_
      refine Or.inr ⟨?_, ?_⟩
      · intro same
        subst same
        exact Or.inr rfl
      · intro back
        rcases genuine with again | place
        · rw [heardLast] at again
          exact (Option.some.inj again).symm
        · obtain ⟨index, behind⟩ := inv.behind last heardLast
          rw [behind.count] at place
          rcases back with unread | same
          · cases unread
          · exact absurd (Option.some.inj same).symm (numbered index last packet behind.place place)

end Ends

section Behind
variable [DecidableEq Seq] {link : Link Kept Data Packet Seq}
variable {start : Kept × Data} {packets : List Packet} {receiver : Receiver Kept Data Seq}
variable {heard : Heard Packet Seq}

/-- The first damage behind a packet decides whether it is taken back. -/
theorem damaged_behind {index : Nat} {last : Packet} {number : Option Seq}
    (behind : Behind link start packets receiver heard index last) :
    Behind link start packets (receive link receiver (.damaged number))
      (match heard.damage with
        | none => { heard with damage := some number }
        | some _ => heard) index last := by
  cases before : heard.damage with
  | none =>
      -- The first damage decides whether the last packet is taken back.
      obtain ⟨current, saved, lastIs⟩ := behind.whole before
      refine ⟨behind.count, behind.place, (damaged_frame link number).trans behind.kept, ?_, ?_, ?_⟩
      · intro none
        cases none
      · intro first same back
        cases same
        rcases back with unread | read
        · subst unread
          exact ⟨saved, saved⟩
        · subst read
          exact ⟨(base_last lastIs).trans saved, (base_last lastIs).trans saved⟩
      · intro first same forward
        cases same
        cases number with
        | none => exact absurd (Or.inl rfl) forward
        | some number =>
            have other : receiver.last ≠ some number := by
              intro same
              exact forward (Or.inr (same.symm.trans lastIs))
            exact ⟨(base_other other).trans current, (base_other other).trans current⟩
  -- Once there is a damage, current and saved state agree, and more damage changes nothing.
  | some first =>
      refine ⟨behind.count, behind.place, (damaged_frame link number).trans behind.kept, ?_, ?_, ?_⟩
      · intro none
        rw [before] at none
        cases none
      · intro first same back
        obtain ⟨current, saved⟩ := behind.back first same back
        exact damaged_same link number current saved
      · intro first same forward
        obtain ⟨current, saved⟩ := behind.ahead first same forward
        exact damaged_same link number current saved

/-- The last packet again is received from the state before it. -/
theorem again_base {index : Nat} {last : Packet}
    (behind : Behind link start packets receiver heard index last) (heardLast : heard.last = some last)
    (harmless : Harmless link heard (.accepted last)) :
    base receiver (link.seq last) = (expected link start packets index).2 := by
  cases damage : heard.damage with
  | none =>
      obtain ⟨_, saved, lastIs⟩ := behind.whole damage
      exact (base_last lastIs).trans saved
  | some number =>
      by_cases back : TakesBack link last number
      · obtain ⟨current, saved⟩ := behind.back number damage back
        exact base_same _ current saved
      · obtain ⟨current, saved⟩ := behind.ahead number damage back
        rcases harmless last number heardLast damage with idle | repeats
        · exact (base_same _ current saved).trans (expected_idle behind.place idle)
        · exact absurd (repeats.mp rfl) back

/-- The next packet is received from the state behind the last one. -/
theorem next_base {index : Nat} {last packet : Packet}
    (behind : Behind link start packets receiver heard index last) (heardLast : heard.last = some last)
    (other : packet ≠ last) (numbers : link.seq last ≠ link.seq packet)
    (harmless : Harmless link heard (.accepted packet)) :
    base receiver (link.seq packet) = (expected link start packets (index + 1)).2 := by
  cases damage : heard.damage with
  | none =>
      obtain ⟨current, _, lastIs⟩ := behind.whole damage
      have notLast : receiver.last ≠ some (link.seq packet) := by
        rw [lastIs]
        intro same
        exact numbers (Option.some.inj same)
      exact (base_other notLast).trans current
  | some number =>
      by_cases back : TakesBack link last number
      · obtain ⟨current, saved⟩ := behind.back number damage back
        rcases harmless last number heardLast damage with idle | repeats
        · exact (base_same _ current saved).trans (expected_idle behind.place idle).symm
        · exact absurd (repeats.mpr back) other
      · obtain ⟨current, saved⟩ := behind.ahead number damage back
        exact base_same _ current saved

/-- A packet that is received from the right state. -/
theorem accepted_behind {index : Nat} {packet : Packet} {after : Heard Packet Seq}
    (place : packets[index]? = some packet)
    (kept : link.keep receiver.kept packet = (expected link start packets (index + 1)).1)
    (applied : link.apply receiver.kept (expected link start packets index).2 packet =
      (expected link start packets (index + 1)).2)
    (from_ : base receiver (link.seq packet) = (expected link start packets index).2)
    (count : after.count = index + 1) (damage : after.damage = none) :
    Behind link start packets (receive link receiver (.accepted packet)) after index packet := by
  have undamaged : ∀ {number : Option Seq}, after.damage ≠ some number := by
    intro number some
    rw [damage] at some
    cases some
  refine ⟨count, place, kept, fun _ => ⟨?_, from_, rfl⟩, fun _ some _ => absurd some undamaged,
    fun _ some _ => absurd some undamaged⟩
  show link.apply receiver.kept (base receiver (link.seq packet)) packet = _
  rw [from_, applied]

end Behind

section Laws
variable [DecidableEq Seq] [DecidableEq Packet] {link : Link Kept Data Packet Seq}
variable {start : Kept × Data} {packets : List Packet} {receiver : Receiver Kept Data Seq}
variable {heard : Heard Packet Seq}

theorem accepted_inv {packet : Packet} (numbered : Numbered link packets)
    (inv : Inv link start packets receiver heard) (genuine : Genuine packets heard (.accepted packet))
    (harmless : Harmless link heard (.accepted packet)) :
    ∃ index, Behind link start packets (receive link receiver (.accepted packet))
      (track heard (.accepted packet)) index packet := by
  cases heardLast : heard.last with
  | none =>
      obtain ⟨count, kept, current, saved⟩ := inv.first heardLast
      -- The first packet of all.
      rcases genuine with again | place
      · rw [heardLast] at again
        cases again
      rw [count] at place
      have one := @expected_succ Kept Data Packet Seq link start packets 0 packet place
      refine ⟨0, accepted_behind place ?_ ?_ (base_same _ current saved) ?_ rfl⟩
      · rw [kept, one]
        rfl
      · rw [kept, one]
        rfl
      · have new : ¬ heard.last = some packet := by
          rw [heardLast]
          intro same
          cases same
        show (if heard.last = some packet then heard.count else heard.count + 1) = 1
        rw [if_neg new, count]
  | some last =>
      obtain ⟨index, behind⟩ := inv.behind last heardLast
      have step := @expected_succ Kept Data Packet Seq link start packets index last behind.place
      -- The last packet again is received from the state before it, and the next from the state behind.
      by_cases same : packet = last
      · subst same
        refine ⟨index, accepted_behind behind.place ?_ ?_ (again_base behind heardLast harmless) ?_ rfl⟩
        · rw [behind.kept, step]
          exact link.keep_again _ packet
        · rw [behind.kept, step]
          exact link.apply_again _ _ packet
        · show (if heard.last = some packet then heard.count else heard.count + 1) = index + 1
          rw [if_pos heardLast, behind.count]
      · have new : ¬ heard.last = some packet := by
          rw [heardLast]
          intro equal
          exact same (Option.some.inj equal).symm
        have place : packets[index + 1]? = some packet := by
          rcases genuine with again | next
          · exact absurd again new
          · rw [← behind.count]
            exact next
        have numbers := numbered index last packet behind.place place
        have two := @expected_succ Kept Data Packet Seq link start packets (index + 1) packet place
        refine ⟨index + 1, accepted_behind place ?_ ?_
          (next_base behind heardLast same numbers harmless) ?_ rfl⟩
        · rw [behind.kept, two]
        · rw [behind.kept, two]
        · show (if heard.last = some packet then heard.count else heard.count + 1) = index + 1 + 1
          rw [if_neg new, behind.count]

theorem receive_inv {outcome : Outcome Packet Seq} (numbered : Numbered link packets)
    (inv : Inv link start packets receiver heard) (genuine : Genuine packets heard outcome)
    (harmless : Harmless link heard outcome) :
    Inv link start packets (receive link receiver outcome) (track heard outcome) := by
  cases outcome with
  | damaged number =>
      have kept : (track heard (.damaged number)).last = heard.last ∧
          (track heard (.damaged number)).count = heard.count := by
        unfold track
        simp only
        split
        · exact ⟨rfl, rfl⟩
        · exact ⟨rfl, rfl⟩
      constructor
      · intro nothing
        rw [kept.1] at nothing
        obtain ⟨count, keptIs, current, saved⟩ := inv.first nothing
        have same := damaged_same link number current saved
        exact ⟨kept.2.trans count, (damaged_frame link number).trans keptIs, same.1, same.2⟩
      · intro last heardLast
        rw [kept.1] at heardLast
        obtain ⟨index, behind⟩ := inv.behind last heardLast
        exact ⟨index, damaged_behind behind⟩
  | accepted packet =>
      constructor
      · intro nothing
        cases nothing
      · intro last heardLast
        cases heardLast
        exact accepted_inv numbered inv genuine harmless

/-- A receiver that has accepted a packet last, after harmless damage only, has received each packet
of the sender once. -/
theorem run_expected {first last : Heard Packet Seq} {log : List (Outcome Packet Seq)}
    (numbered : Numbered link packets)
    (run : Run (Guarded (fun heard outcome => Genuine packets heard outcome ∧
      Harmless link heard outcome) (stepOf track)) first log last)
    (inv : Inv link start packets receiver first) :
    Inv link start packets (log.foldl (receive link) receiver) last := by
  induction run generalizing receiver with
  | refl => exact inv
  | @next heard middle last outcome rest step _ ih =>
      obtain ⟨⟨genuine, harmless⟩, same⟩ := step
      rw [show middle = track heard outcome from same] at ih
      exact ih (receive_inv numbered inv genuine harmless)

/-- With every number correctly received, no damage does harm. -/
theorem run_read {first last : Heard Packet Seq} {log : List (Outcome Packet Seq)}
    (numbered : Numbered link packets)
    (run : Run (Guarded (fun heard outcome => Genuine packets heard outcome ∧
      NumberRead link heard outcome) (stepOf track)) first log last)
    (inv : Inv link start packets receiver first) :
    Run (Guarded (fun heard outcome => Genuine packets heard outcome ∧
      Harmless link heard outcome) (stepOf track)) first log last := by
  induction run generalizing receiver with
  | refl => exact Run.refl _
  | @next heard middle last outcome rest step _ ih =>
      obtain ⟨⟨genuine, read⟩, same⟩ := step
      have harmless := read_harmless numbered inv genuine read
      have after := receive_inv numbered inv genuine harmless
      rw [← show middle = track heard outcome from same] at after
      exact Run.next ⟨⟨genuine, harmless⟩, same⟩ (ih after)

end Laws

end UBoot.Library.Rollback
