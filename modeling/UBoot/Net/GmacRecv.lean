import Mathlib.Tactic

/-!
The receive ring of the Ethernet driver. ath_gmac_recv takes the frames of the
filled descriptors from the current one on; when the current one is empty and
the hardware still counts packets, it searches the ring for a filled one. The
DMA engine leaves the ring as it is while the function runs.
-/

namespace UBoot.Net.GmacRecv

def NO_OF_RX_FIFOS : Nat := 8

/-- The bits of a descriptor that the driver reads. -/
structure Descriptor where
  isEmpty : Bool
  pktSize : BitVec 12

structure Mac where
  fifoRx : Nat → Descriptor
  nextRx : Nat
  inRange : nextRx < NO_OF_RX_FIFOS

/-- A call of NetReceive, with the owner of the descriptor at that time. -/
structure Handed where
  index : Nat
  ownedByDma : Bool
  length : Int

/-- The state of the outer loop. `reads` counts the reads of the packet count. -/
structure Recv where
  fifoRx : Nat → Descriptor
  nextRx : Nat
  count : Nat
  reads : Nat
  handed : List Handed
  left : Bool

def advance (nextRx : Nat) : Nat := if NO_OF_RX_FIFOS ≤ nextRx + 1 then 0 else nextRx + 1

/-- The search loop, with next_rx and count; it has as many rounds as count leaves it. -/
def search (fifoRx : Nat → Descriptor) : (rounds : Nat) → (nextRx count : Nat) → Nat × Nat
  | 0, nextRx, count => (nextRx, count)
  | rounds + 1, nextRx, count =>
      if (fifoRx (advance nextRx)).isEmpty then search fifoRx rounds (advance nextRx) (count + 1)
      else (advance nextRx, 0)

/-- NetReceive gets the current buffer, and its descriptor goes back to the DMA engine. -/
def handOver (recv : Recv) : Recv :=
  let f := recv.fifoRx recv.nextRx
  { recv with
    fifoRx := Function.update recv.fifoRx recv.nextRx { f with isEmpty := true }
    nextRx := advance recv.nextRx
    handed := recv.handed ++ [⟨recv.nextRx, f.isEmpty, f.pktSize.toNat - 4⟩] }

/-- One turn of the outer loop. `dmaedPkt` has the values of the hardware packet count. -/
def recvTurn (dmaedPkt : Nat → Nat) (recv : Recv) : Recv :=
  if recv.left then recv
  else if (recv.fifoRx recv.nextRx).isEmpty then
    if dmaedPkt recv.reads = 0 then { recv with reads := recv.reads + 1, left := true }
    else
      let found := search recv.fifoRx (NO_OF_RX_FIFOS - recv.count) recv.nextRx recv.count
      handOver { recv with nextRx := found.1, count := found.2, reads := recv.reads + 1 }
  else handOver recv

def entered (mac : Mac) : Recv := ⟨mac.fifoRx, mac.nextRx, 0, 0, [], false⟩

/-- ath_gmac_recv after some turns of its loop. -/
def athGmacRecv (dmaedPkt : Nat → Nat) (mac : Mac) : (turns : Nat) → Recv
  | 0 => entered mac
  | turns + 1 => recvTurn dmaedPkt (athGmacRecv dmaedPkt mac turns)

/-! ### What is to hold, and when it does -/

def Handed.Good (handed : Handed) : Prop := handed.ownedByDma = false ∧ 0 ≤ handed.length

/-- The places of the ring from one on. -/
def placesFrom (nextRx count : Nat) : List Nat :=
  (List.range count).map fun j => (nextRx + j) % NO_OF_RX_FIFOS

/-- The frames handed over are those of the filled descriptors that were passed, in the order of
the ring. -/
structure Proper (mac : Mac) (recv : Recv) : Prop where
  good : ∀ handed ∈ recv.handed, handed.Good
  inRange : recv.nextRx < NO_OF_RX_FIFOS
  order : ∃ passed ≤ NO_OF_RX_FIFOS, recv.nextRx = (mac.nextRx + passed) % NO_OF_RX_FIFOS ∧
    recv.handed.map Handed.index =
      (placesFrom mac.nextRx passed).filter fun i => !(mac.fifoRx i).isEmpty

/-- How far ahead the next filled descriptor is. -/
def ahead (recv : Recv) : Option Nat :=
  (List.range NO_OF_RX_FIFOS).find? fun j =>
    !(recv.fifoRx ((recv.nextRx + j) % NO_OF_RX_FIFOS)).isEmpty

/-- The loop ends in front of an empty descriptor with no packet counted, or there is a filled
descriptor ahead, with a frame of four bytes at least. -/
def Meets (dmaedPkt : Nat → Nat) (recv : Recv) : Prop :=
  recv.left = true ∨
    (recv.fifoRx recv.nextRx).isEmpty = true ∧ dmaedPkt recv.reads = 0 ∨
    ∃ j, ahead recv = some j ∧
      4 ≤ (recv.fifoRx ((recv.nextRx + j) % NO_OF_RX_FIFOS)).pktSize.toNat

/-! ### The search -/

theorem advance_mod {nextRx : Nat} (inRange : nextRx < NO_OF_RX_FIFOS) :
    advance nextRx = (nextRx + 1) % NO_OF_RX_FIFOS := by
  unfold advance NO_OF_RX_FIFOS at *
  split <;> omega

theorem search_found (fifoRx : Nat → Descriptor) {rounds nextRx count j : Nat}
    (inRange : nextRx < NO_OF_RX_FIFOS) (within : j < rounds)
    (filled : (fifoRx ((nextRx + (j + 1)) % NO_OF_RX_FIFOS)).isEmpty = false)
    (empty : ∀ i < j, (fifoRx ((nextRx + (i + 1)) % NO_OF_RX_FIFOS)).isEmpty = true) :
    search fifoRx rounds nextRx count = ((nextRx + (j + 1)) % NO_OF_RX_FIFOS, 0) := by
  induction rounds generalizing nextRx count j with
  | zero => omega
  | succ rounds induction =>
      have moved := advance_mod inRange
      unfold search
      cases j with
      | zero =>
          rw [moved, if_neg (by rw [filled]; exact Bool.false_ne_true)]
      | succ j =>
          have next : ∀ i, ((nextRx + 1) % NO_OF_RX_FIFOS + (i + 1)) % NO_OF_RX_FIFOS =
              (nextRx + (i + 1 + 1)) % NO_OF_RX_FIFOS := by
            intro i
            rw [Nat.mod_add_mod]
            congr 1
            omega
          rw [moved, if_pos (empty 0 (Nat.succ_pos j)), ← next j]
          apply induction (Nat.mod_lt _ (by decide)) (by omega)
          · rw [next]
            exact filled
          · intro i before
            rw [next]
            exact empty (i + 1) (by omega)

theorem search_missed (fifoRx : Nat → Descriptor) (rounds nextRx count : Nat)
    (inRange : nextRx < NO_OF_RX_FIFOS)
    (empty : ∀ i < rounds, (fifoRx ((nextRx + (i + 1)) % NO_OF_RX_FIFOS)).isEmpty = true) :
    (search fifoRx rounds nextRx count).1 = (nextRx + rounds) % NO_OF_RX_FIFOS := by
  induction rounds generalizing nextRx count with
  | zero => exact (Nat.mod_eq_of_lt inRange).symm
  | succ rounds induction =>
      have moved := advance_mod inRange
      unfold search
      rw [moved, if_pos (empty 0 (Nat.succ_pos rounds)), induction _ _ (Nat.mod_lt _ (by decide))]
      · rw [Nat.mod_add_mod]
        congr 1
        omega
      · intro i before
        rw [Nat.mod_add_mod, show nextRx + 1 + (i + 1) = nextRx + (i + 1 + 1) by omega]
        exact empty (i + 1) (by omega)

theorem ahead_some {recv : Recv} {j : Nat} (found : ahead recv = some j) :
    j < NO_OF_RX_FIFOS ∧
      (recv.fifoRx ((recv.nextRx + j) % NO_OF_RX_FIFOS)).isEmpty = false ∧
      ∀ i < j, (recv.fifoRx ((recv.nextRx + i) % NO_OF_RX_FIFOS)).isEmpty = true := by
  obtain ⟨filled, within, before⟩ := List.find?_range_eq_some.mp found
  refine ⟨List.mem_range.mp within, by simpa using filled, ?_⟩
  intro i below
  simpa using before i below

theorem ahead_none {recv : Recv} (none : ahead recv = none) (i : Nat) :
    (recv.fifoRx ((recv.nextRx + i) % NO_OF_RX_FIFOS)).isEmpty = true := by
  have all := List.find?_range_eq_none.mp none (i % NO_OF_RX_FIFOS) (Nat.mod_lt _ (by decide))
  rw [Nat.add_mod_mod] at all
  simpa using all

/-- A turn that does not end the loop hands over the next filled descriptor. -/
theorem turn_hands (dmaedPkt : Nat → Nat) {recv : Recv} {j : Nat} (running : recv.left = false)
    (fresh : recv.count = 0) (inRange : recv.nextRx < NO_OF_RX_FIFOS) (found : ahead recv = some j)
    (goes : (recv.fifoRx recv.nextRx).isEmpty = true → dmaedPkt recv.reads ≠ 0) :
    ∃ reads, recvTurn dmaedPkt recv = handOver { recv with
      nextRx := (recv.nextRx + j) % NO_OF_RX_FIFOS, reads := reads } := by
  obtain ⟨within, filled, before⟩ := ahead_some found
  unfold recvTurn
  rw [if_neg (by rw [running]; exact Bool.false_ne_true)]
  cases j with
  | zero =>
      rw [Nat.add_zero, Nat.mod_eq_of_lt inRange] at filled
      rw [if_neg (by rw [filled]; exact Bool.false_ne_true)]
      refine ⟨recv.reads, ?_⟩
      rw [Nat.add_zero, Nat.mod_eq_of_lt inRange]
  | succ j =>
      have first := before 0 (Nat.succ_pos j)
      rw [Nat.add_zero, Nat.mod_eq_of_lt inRange] at first
      rw [if_pos first, if_neg (goes first), fresh, Nat.sub_zero,
        search_found recv.fifoRx inRange (by omega) filled fun i below => before (i + 1) (by omega)]
      exact ⟨recv.reads + 1, rfl⟩

/-! ### The walk along the ring -/

/-- The loop has passed `passed` places. -/
structure Walked (mac : Mac) (recv : Recv) (passed : Nat) : Prop where
  bound : passed ≤ NO_OF_RX_FIFOS
  place : recv.nextRx = (mac.nextRx + passed) % NO_OF_RX_FIFOS
  fresh : recv.count = 0
  sizes : ∀ i, (recv.fifoRx i).pktSize = (mac.fifoRx i).pktSize
  empty : ∀ j < NO_OF_RX_FIFOS, (recv.fifoRx ((mac.nextRx + j) % NO_OF_RX_FIFOS)).isEmpty = true ↔
    j < passed ∨ (mac.fifoRx ((mac.nextRx + j) % NO_OF_RX_FIFOS)).isEmpty = true
  good : ∀ handed ∈ recv.handed, handed.Good
  order : recv.handed.map Handed.index =
    (placesFrom mac.nextRx passed).filter fun i => !(mac.fifoRx i).isEmpty

theorem walked_entered (mac : Mac) : Walked mac (entered mac) 0 := by
  constructor
  · exact Nat.zero_le _
  · exact (Nat.mod_eq_of_lt mac.inRange).symm
  · rfl
  · exact fun i => rfl
  · intro j within
    simp [entered]
  · exact fun handed member => absurd member List.not_mem_nil
  · rfl

theorem walked_proper {mac : Mac} {recv : Recv} {passed : Nat} (walked : Walked mac recv passed) :
    Proper mac recv := by
  refine ⟨walked.good, ?_, passed, walked.bound, walked.place, walked.order⟩
  rw [walked.place]
  exact Nat.mod_lt _ (by decide)

/-- The places up to the next filled descriptor give one more frame. -/
theorem places_hand (mac : Mac) (passed j : Nat)
    (filled : (mac.fifoRx ((mac.nextRx + (passed + j)) % NO_OF_RX_FIFOS)).isEmpty = false)
    (empty : ∀ i < j,
      (mac.fifoRx ((mac.nextRx + (passed + i)) % NO_OF_RX_FIFOS)).isEmpty = true) :
    (placesFrom mac.nextRx (passed + j + 1)).filter (fun i => !(mac.fifoRx i).isEmpty) =
      (placesFrom mac.nextRx passed).filter (fun i => !(mac.fifoRx i).isEmpty) ++
        [(mac.nextRx + (passed + j)) % NO_OF_RX_FIFOS] := by
  have skipped : ((List.range j).map fun i => (mac.nextRx + (passed + i)) % NO_OF_RX_FIFOS).filter
      (fun i => !(mac.fifoRx i).isEmpty) = [] := by
    rw [List.filter_eq_nil_iff]
    intro place member
    obtain ⟨i, below, rfl⟩ := List.mem_map.mp member
    rw [empty i (List.mem_range.mp below)]
    exact Bool.false_ne_true
  unfold placesFrom
  rw [List.range_succ, List.range_add, List.map_append, List.map_append, List.filter_append,
    List.filter_append, List.map_map]
  rw [show ((fun k => (mac.nextRx + k) % NO_OF_RX_FIFOS) ∘ fun i => passed + i) =
    fun i => (mac.nextRx + (passed + i)) % NO_OF_RX_FIFOS from rfl, skipped, List.append_nil]
  simp [filled]

theorem walked_hand {mac : Mac} {recv : Recv} {passed j reads : Nat}
    (walked : Walked mac recv passed) (found : ahead recv = some j)
    (size : 4 ≤ (recv.fifoRx ((recv.nextRx + j) % NO_OF_RX_FIFOS)).pktSize.toNat) :
    Walked mac (handOver { recv with
      nextRx := (recv.nextRx + j) % NO_OF_RX_FIFOS, reads := reads }) (passed + j + 1) := by
  obtain ⟨within, filled, before⟩ := ahead_some found
  have turn : ∀ i, (recv.nextRx + i) % NO_OF_RX_FIFOS =
      (mac.nextRx + (passed + i)) % NO_OF_RX_FIFOS := by
    intro i
    rw [walked.place, Nat.mod_add_mod, Nat.add_assoc]
  have bound := walked.bound
  have start := mac.inRange
  have last : passed + j < NO_OF_RX_FIFOS := by
    by_contra round
    have again := (walked.empty (passed + j - NO_OF_RX_FIFOS) (by omega)).mpr (Or.inl (by omega))
    rw [turn j, show mac.nextRx + (passed + j) =
      mac.nextRx + (passed + j - NO_OF_RX_FIFOS) + NO_OF_RX_FIFOS by omega, Nat.add_mod_right,
      again] at filled
    cases filled
  have skipped : ∀ i < j,
      (mac.fifoRx ((mac.nextRx + (passed + i)) % NO_OF_RX_FIFOS)).isEmpty = true := by
    intro i below
    have now := before i below
    rw [turn i] at now
    exact ((walked.empty (passed + i) (by omega)).mp now).resolve_left (by omega)
  rw [turn j] at filled size ⊢
  have present : (mac.fifoRx ((mac.nextRx + (passed + j)) % NO_OF_RX_FIFOS)).isEmpty = false := by
    by_contra absent
    have gone := (walked.empty (passed + j) last).mpr (Or.inr (Bool.eq_true_of_not_eq_false absent))
    rw [gone] at filled
    cases filled
  constructor
  · omega
  · change advance ((mac.nextRx + (passed + j)) % NO_OF_RX_FIFOS) = _
    rw [advance_mod (Nat.mod_lt _ (by decide)), Nat.mod_add_mod]
    rfl
  · exact walked.fresh
  · intro i
    change (Function.update recv.fifoRx _ _ i).pktSize = _
    by_cases same : i = (mac.nextRx + (passed + j)) % NO_OF_RX_FIFOS
    · subst same
      rw [Function.update_self]
      exact walked.sizes _
    · rw [Function.update_of_ne same]
      exact walked.sizes i
  · intro i inside
    change (Function.update recv.fifoRx _ _ _).isEmpty = true ↔ _
    by_cases same : i = passed + j
    · subst same
      rw [Function.update_self]
      exact ⟨fun _ => Or.inl (Nat.lt_succ_self _), fun _ => rfl⟩
    · have other : (mac.nextRx + i) % NO_OF_RX_FIFOS ≠
          (mac.nextRx + (passed + j)) % NO_OF_RX_FIFOS := by
        unfold NO_OF_RX_FIFOS at *
        omega
      rw [Function.update_of_ne other, walked.empty i inside]
      constructor
      · exact Or.imp_left fun early => by omega
      · rintro (early | empty)
        · by_cases passed_by : i < passed
          · exact Or.inl passed_by
          · have between := skipped (i - passed) (by omega)
            rw [Nat.add_sub_cancel' (not_lt.mp passed_by)] at between
            exact Or.inr between
        · exact Or.inr empty
  · intro handed member
    rcases List.mem_append.mp member with old | new
    · exact walked.good handed old
    · rw [List.mem_singleton.mp new]
      exact ⟨filled, by dsimp only; omega⟩
  · change (recv.handed ++ [_]).map Handed.index = _
    rw [List.map_append, walked.order, places_hand mac passed j present skipped]
    rfl

theorem walked_left {mac : Mac} {recv : Recv} {passed reads : Nat}
    (walked : Walked mac recv passed) :
    Walked mac { recv with reads := reads, left := true } passed :=
  ⟨walked.bound, walked.place, walked.fresh, walked.sizes, walked.empty, walked.good, walked.order⟩

theorem walked_turn {mac : Mac} {recv : Recv} {passed : Nat} (dmaedPkt : Nat → Nat)
    (walked : Walked mac recv passed) (meets : Meets dmaedPkt recv) :
    ∃ further, Walked mac (recvTurn dmaedPkt recv) further := by
  by_cases left : recv.left = true
  · rw [recvTurn, if_pos left]
    exact ⟨passed, walked⟩
  have running : recv.left = false := Bool.eq_false_iff.mpr left
  by_cases ends : (recv.fifoRx recv.nextRx).isEmpty = true ∧ dmaedPkt recv.reads = 0
  · rw [recvTurn, if_neg left, if_pos ends.1, if_pos ends.2]
    exact ⟨passed, walked_left walked⟩
  rcases meets with now | stops | ⟨j, found, size⟩
  · exact absurd now left
  · exact absurd stops ends
  · have inRange : recv.nextRx < NO_OF_RX_FIFOS := (walked_proper walked).inRange
    obtain ⟨reads, same⟩ := turn_hands dmaedPkt running walked.fresh inRange found
      fun empty none => ends ⟨empty, none⟩
    rw [same]
    exact ⟨passed + j + 1, walked_hand walked found size⟩

/-- A turn that does not meet the condition hands over a wrong buffer. -/
theorem turn_wrong {mac : Mac} {recv : Recv} {passed : Nat} (dmaedPkt : Nat → Nat)
    (walked : Walked mac recv passed) (fails : ¬ Meets dmaedPkt recv) :
    ∃ handed ∈ (recvTurn dmaedPkt recv).handed, ¬ handed.Good := by
  have inRange : recv.nextRx < NO_OF_RX_FIFOS := (walked_proper walked).inRange
  unfold Meets at fails
  push Not at fails
  obtain ⟨running, goes, short⟩ := fails
  cases found : ahead recv with
  | none =>
      have empty := ahead_none found
      have first := empty 0
      rw [Nat.add_zero, Nat.mod_eq_of_lt inRange] at first
      have round := search_missed recv.fifoRx (NO_OF_RX_FIFOS - recv.count) recv.nextRx recv.count
        inRange fun i _ => empty (i + 1)
      rw [recvTurn, if_neg running, if_pos first, if_neg (goes first)]
      refine ⟨_, List.mem_append_right _ List.mem_cons_self, ?_⟩
      intro good
      have owner := good.1
      dsimp only at owner
      rw [round, empty] at owner
      cases owner
  | some j =>
      obtain ⟨reads, same⟩ := turn_hands dmaedPkt (Bool.eq_false_iff.mpr running) walked.fresh inRange
        found goes
      rw [same]
      refine ⟨_, List.mem_append_right _ List.mem_cons_self, ?_⟩
      intro good
      have small := short j found
      have length := good.2
      dsimp only at length
      omega

/-! ### Whole calls -/

theorem meets_walked (dmaedPkt : Nat → Nat) (mac : Mac) (turns : Nat)
    (meets : ∀ earlier < turns, Meets dmaedPkt (athGmacRecv dmaedPkt mac earlier)) :
    ∃ passed, Walked mac (athGmacRecv dmaedPkt mac turns) passed := by
  induction turns with
  | zero => exact ⟨0, walked_entered mac⟩
  | succ turns induction =>
      obtain ⟨passed, walked⟩ := induction fun earlier before => meets earlier (by omega)
      exact walked_turn dmaedPkt walked (meets turns (Nat.lt_succ_self turns))

theorem handed_grows (dmaedPkt : Nat → Nat) (recv : Recv) :
    ∀ handed ∈ recv.handed, handed ∈ (recvTurn dmaedPkt recv).handed := by
  intro handed member
  unfold recvTurn
  split
  · exact member
  · split
    · split
      · exact member
      · exact List.mem_append_left _ member
    · exact List.mem_append_left _ member

theorem good_meets (dmaedPkt : Nat → Nat) (mac : Mac) (turns : Nat)
    (good : ∀ handed ∈ (athGmacRecv dmaedPkt mac turns).handed, handed.Good) :
    ∀ earlier < turns, Meets dmaedPkt (athGmacRecv dmaedPkt mac earlier) := by
  induction turns with
  | zero => exact fun earlier before => absurd before (Nat.not_lt_zero earlier)
  | succ turns induction =>
      have before := induction fun handed member => good handed (handed_grows dmaedPkt _ handed member)
      intro earlier below
      rcases Nat.lt_succ_iff_lt_or_eq.mp below with less | rfl
      · exact before earlier less
      · obtain ⟨passed, walked⟩ := meets_walked dmaedPkt mac earlier before
        by_contra fails
        obtain ⟨handed, member, wrong⟩ := turn_wrong dmaedPkt walked fails
        exact wrong (good handed member)

/-- What is handed over is proper exactly as long as each turn meets the condition. -/
theorem recv_proper_iff (dmaedPkt : Nat → Nat) (mac : Mac) (turns : Nat) :
    Proper mac (athGmacRecv dmaedPkt mac turns) ↔
      ∀ earlier < turns, Meets dmaedPkt (athGmacRecv dmaedPkt mac earlier) := by
  constructor
  · exact fun proper => good_meets dmaedPkt mac turns proper.good
  · intro meets
    obtain ⟨passed, walked⟩ := meets_walked dmaedPkt mac turns meets
    exact walked_proper walked

/-- A ring without a frame. -/
def emptyMac : Mac := ⟨fun _ => ⟨true, 0⟩, 0, Nat.le_of_ble_eq_true rfl⟩

/-- The hardware counts a packet that no descriptor has. -/
theorem empty_handed : ¬ Proper emptyMac (athGmacRecv (fun _ => 1) emptyMac 1) := by
  intro proper
  have owned := (proper.good _ List.mem_cons_self).1
  revert owned
  decide

end UBoot.Net.GmacRecv
