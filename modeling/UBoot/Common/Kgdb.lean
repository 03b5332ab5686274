import UBoot.Library.Loop

/-!
getpacket of common/kgdb.c: the packets $data#hh of the debugger. What the debugger sends is a list;
where the list ends, getDebugChar waits.
-/

namespace UBoot.Common.Kgdb

open Library.Loop

def BUFMAX : Nat := 1024

/-- The characters `$`, `#`, `+`, `-` and `:`. -/
def dollar : UInt8 := 36
def hash : UInt8 := 35
def plus : UInt8 := 43
def minus : UInt8 := 45
def colon : UInt8 := 58

def hex (ch : UInt8) : Int :=
  if 97 ≤ ch ∧ ch ≤ 102 then ch.toNat - 97 + 10
  else if 48 ≤ ch ∧ ch ≤ 57 then ch.toNat - 48
  else if 65 ≤ ch ∧ ch ≤ 70 then ch.toNat - 65 + 10
  else -1

/-- What is still to be received, the buffer, and what was sent to the debugger. -/
structure Line where
  input : List UInt8
  buffer : Nat → UInt8
  output : List UInt8

def Line.put (line : Line) (chars : List UInt8) : Line := { line with output := line.output ++ chars }

/-- `getDebugChar() & 0x7f`, with what is left. -/
def getDebugChar : List UInt8 → Option (UInt8 × List UInt8)
  | [] => none
  | c :: rest => some (c &&& 0x7f, rest)

/-- The loop that waits for the start character. -/
def waitStart : List UInt8 → Option (List UInt8)
  | [] => none
  | c :: rest => if c &&& 0x7f ≠ dollar then waitStart rest else some rest

/-- The variables of the loop that reads the data. -/
structure Reading where
  count : Nat
  checksum : UInt8
  buffer : Nat → UInt8

def Reading.take (reading : Reading) (ch : UInt8) : Reading :=
  { count := reading.count + 1
    checksum := reading.checksum + ch
    buffer := Function.update reading.buffer reading.count ch }

/-- The loop that reads until a # or the end of the buffer. -/
def readData : List UInt8 → Reading → Option (Reading × List UInt8)
  | [], reading => if reading.count < BUFMAX then none else some (reading, [])
  | c :: rest, reading =>
      if reading.count < BUFMAX then
        let ch := c &&& 0x7f
        if ch = hash then some (reading, rest) else readData rest (reading.take ch)
      else some (reading, c :: rest)

/-- strlen, for a string that ends within `fuel` bytes. -/
def strlen (buffer : Nat → UInt8) : (fuel place : Nat) → Nat
  | 0, _ => 0
  | fuel + 1, place => if buffer place = 0 then 0 else strlen buffer fuel (place + 1) + 1

/-- The loop that removes the sequence characters, from `i` on. -/
def removeLoop (count : Nat) : (turns i : Nat) → (Nat → UInt8) → Nat → UInt8
  | 0, _, buffer => buffer
  | turns + 1, i, buffer =>
      if i ≤ count then removeLoop count turns (i + 1) (Function.update buffer (i - 3) (buffer i))
      else buffer

/-- A successful transfer. -/
def accept (line : Line) : Line :=
  let line := line.put [plus]
  if line.buffer 2 = colon then
    let line := line.put [line.buffer 0, line.buffer 1]
    let count := strlen line.buffer BUFMAX 0
    { line with buffer := removeLoop count BUFMAX 3 line.buffer }
  else line

/-- One turn of getpacket. It leaves with the line if it returns, and without one if it waits for
the debugger. -/
def turn (line : Line) : Line ⊕ Option Line :=
  match waitStart line.input with
  | none => .inr none
  | some body =>
      match readData body ⟨0, 0, line.buffer⟩ with
      | none => .inr none
      | some (reading, rest) =>
          let line := { line with input := rest, buffer := reading.buffer }
          if reading.count ≥ BUFMAX then
            -- xmitcsum is still -1
            if reading.checksum ≠ 255 then .inl line else .inr (some line)
          else
            let line := { line with buffer := Function.update line.buffer reading.count 0 }
            match getDebugChar rest with
            | none => .inr none
            | some (high, rest) =>
                match getDebugChar rest with
                | none => .inr none
                | some (low, rest) =>
                    let xmitcsum := UInt8.ofInt (hex high * 16) ||| UInt8.ofInt (hex low)
                    let line := { line with input := rest }
                    if reading.checksum ≠ xmitcsum then .inl (line.put [minus])
                    else .inr (some (accept line))

/-- getpacket returns with the line, or waits for ever. -/
def Getpacket (line : Line) (result : Option Line) : Prop := Ends turn line result

/-! ### The packets of a stream -/

/-- A packet $data#hh, its characters without their top bits. -/
structure Packet where
  data : List UInt8
  high : UInt8
  low : UInt8

def mask (c : UInt8) : UInt8 := c &&& 0x7f

def sum (data : List UInt8) : Nat := (data.map UInt8.toNat).sum % 256

def Digit (c : UInt8) : Prop := hex c ≠ -1

instance (c : UInt8) : Decidable (Digit c) := inferInstanceAs (Decidable (hex c ≠ -1))

/-- Both characters of the checksum are digits, and they give the sum of the data. -/
structure Packet.Right (packet : Packet) : Prop where
  high : Digit packet.high
  low : Digit packet.low
  same : hex packet.high * 16 + hex packet.low = sum packet.data

/-- The next packet in the input, behind characters that are no `$`, and what follows it. -/
structure Arrives (input : List UInt8) (packet : Packet) (rest : List UInt8) : Prop where
  ended : hash ∉ packet.data
  place : ∃ noise body, input = noise ++ body ++ rest ∧ (∀ c ∈ noise, mask c ≠ dollar) ∧
    body.map mask = dollar :: packet.data ++ [hash, packet.high, packet.low]

/-- A `$` begins the input, and the buffer is full before a `#` comes. -/
def TooLong (input : List UInt8) : Prop :=
  ∃ noise c data rest, input = noise ++ c :: data ++ rest ∧ (∀ c ∈ noise, mask c ≠ dollar) ∧
    mask c = dollar ∧ data.length = BUFMAX ∧ ∀ c ∈ data, mask c ≠ hash

/-- The next packet is not too long, and its checksum is written in digits. -/
structure Regular (input : List UInt8) : Prop where
  short : ¬ TooLong input
  digits : ∀ packet rest, Arrives input packet rest → Digit packet.high ∧ Digit packet.low

/-- The packets that come one after the other. -/
inductive Consumes : List UInt8 → List Packet → List UInt8 → Prop where
  | done (input) : Consumes input [] input
  | next {input middle rest packet packets} : Consumes input packets middle →
      Arrives middle packet rest → Consumes input (packets ++ [packet]) rest

/-- The buffer holds the data and a NUL behind them. -/
def Held (buffer : Nat → UInt8) (data : List UInt8) : Prop :=
  (∀ i (below : i < data.length), buffer i = data[i]) ∧ buffer data.length = 0

/-- What getpacket leaves of the data: a sequence identifier in front is removed, and then the text
ends at the first NUL. -/
def payload (data : List UInt8) : List UInt8 :=
  let text := data.takeWhile (· ≠ 0)
  if text[2]? = some colon then text.drop 3 else data

/-! ### Reading a packet -/

section Reading
variable {input body rest : List UInt8} {reading after : Reading}

theorem wait_start_some (begun : waitStart input = some body) :
    ∃ noise c, input = noise ++ c :: body ∧ (∀ c ∈ noise, mask c ≠ dollar) ∧ mask c = dollar := by
  induction input with
  | nil => cases begun
  | cons c input ih =>
      rw [waitStart] at begun
      split at begun
      · rename_i other
        obtain ⟨noise, start, rfl, quiet, first⟩ := ih begun
        refine ⟨c :: noise, start, rfl, ?_, first⟩
        intro d member
        rcases List.mem_cons.mp member with rfl | later
        · exact other
        · exact quiet d later
      · rename_i first
        cases begun
        exact ⟨[], c, rfl, fun _ member => absurd member List.not_mem_nil, not_not.mp first⟩

/-- The characters that are taken into the buffer. -/
def Reading.takeAll (reading : Reading) (data : List UInt8) : Reading := data.foldl Reading.take reading

theorem take_all_count (data : List UInt8) :
    (reading.takeAll data).count = reading.count + data.length := by
  induction data generalizing reading with
  | nil => rfl
  | cons ch data ih =>
      refine ih.trans ?_
      rw [Reading.take, List.length_cons, Nat.add_assoc, Nat.add_comm 1]

theorem take_all_checksum (data : List UInt8) :
    (reading.takeAll data).checksum.toNat =
      (reading.checksum.toNat + (data.map UInt8.toNat).sum) % 256 := by
  induction data generalizing reading with
  | nil => exact (Nat.mod_eq_of_lt reading.checksum.toNat_lt).symm
  | cons ch data ih =>
      refine ih.trans ?_
      change ((reading.checksum + ch).toNat + _) % 256 = _
      rw [UInt8.toNat_add, List.map_cons, List.sum_cons, Nat.mod_add_mod, Nat.add_assoc]

theorem take_all_buffer (data : List UInt8) :
    (∀ i (below : i < data.length), (reading.takeAll data).buffer (reading.count + i) = data[i]) ∧
      ∀ i, i < reading.count → (reading.takeAll data).buffer i = reading.buffer i := by
  induction data generalizing reading with
  | nil => exact ⟨fun i below => absurd below (Nat.not_lt_zero i), fun _ _ => rfl⟩
  | cons ch data ih =>
      obtain ⟨inside, before⟩ := @ih (reading.take ch)
      have here : (reading.take ch).buffer reading.count = ch := Function.update_self _ _ _
      constructor
      · intro i below
        cases i with
        | zero => exact (before reading.count (Nat.lt_succ_self _)).trans here
        | succ i =>
            have later := inside i (Nat.lt_of_succ_lt_succ below)
            rw [Reading.take, Nat.add_assoc, Nat.add_comm 1] at later
            exact later
      · intro i below
        refine (before i (Nat.lt_succ_of_lt below)).trans ?_
        exact Function.update_of_ne (Nat.ne_of_lt below) _ _

/-- The loop stops behind a #, or with a full buffer. -/
theorem read_data_some (room : reading.count ≤ BUFMAX)
    (read : readData body reading = some (after, rest)) :
    ∃ data, (∀ c ∈ data, mask c ≠ hash) ∧ after = reading.takeAll (data.map mask) ∧
      (after.count < BUFMAX ∧ (∃ c, mask c = hash ∧ body = data ++ c :: rest) ∨
        after.count = BUFMAX ∧ body = data ++ rest) := by
  induction body generalizing reading with
  | nil =>
      rw [readData] at read
      split at read
      · cases read
      · cases read
        exact ⟨[], fun _ member => absurd member List.not_mem_nil, rfl,
          Or.inr ⟨by omega, rfl⟩⟩
  | cons c body ih =>
      rw [readData] at read
      split at read
      · rename_i more
        dsimp only at read
        split at read
        · rename_i last
          cases read
          exact ⟨[], fun _ member => absurd member List.not_mem_nil, rfl, Or.inl ⟨more, c, last, rfl⟩⟩
        · rename_i other
          obtain ⟨data, open', same, ends⟩ := @ih (reading.take (c &&& 0x7f)) more read
          refine ⟨c :: data, ?_, same, ?_⟩
          · intro d member
            rcases List.mem_cons.mp member with rfl | later
            · exact other
            · exact open' d later
          · rcases ends with ⟨short, d, last, rfl⟩ | ⟨full, rfl⟩
            · exact Or.inl ⟨short, d, last, rfl⟩
            · exact Or.inr ⟨full, rfl⟩
      · cases read
        exact ⟨[], fun _ member => absurd member List.not_mem_nil, rfl, Or.inr ⟨by omega, rfl⟩⟩

end Reading

/-! ### A right packet -/

section Accept
variable {buffer : Nat → UInt8} {data : List UInt8}

theorem hex_range {c : UInt8} (digit : Digit c) : 0 ≤ hex c ∧ hex c < 16 := by
  unfold Digit at digit
  unfold hex at digit ⊢
  simp only [UInt8.le_iff_toNat_le] at digit ⊢
  split
  · rename_i small
    have low : 97 ≤ c.toNat := small.1
    have high : c.toNat ≤ 102 := small.2
    omega
  · split
    · rename_i decimal
      have low : 48 ≤ c.toNat := decimal.1
      have high : c.toNat ≤ 57 := decimal.2
      omega
    · split
      · rename_i capital
        have low : 65 ≤ c.toNat := capital.1
        have high : c.toNat ≤ 70 := capital.2
        omega
      · rename_i one two three
        rw [if_neg one, if_neg two, if_neg three] at digit
        exact absurd rfl digit

theorem digits_value : ∀ high low : Fin 16,
    ((UInt8.ofInt ((high : Int) * 16) ||| UInt8.ofInt (low : Int)).toNat : Int) = high * 16 + low := by
  decide

theorem checksum_value {high low : UInt8} (first : Digit high) (second : Digit low) :
    ((UInt8.ofInt (hex high * 16) ||| UInt8.ofInt (hex low)).toNat : Int) =
      hex high * 16 + hex low := by
  obtain ⟨firstLow, firstHigh⟩ := hex_range first
  obtain ⟨secondLow, secondHigh⟩ := hex_range second
  have value := digits_value ⟨(hex high).toNat, by omega⟩ ⟨(hex low).toNat, by omega⟩
  simp only [Int.toNat_of_nonneg firstLow, Int.toNat_of_nonneg secondLow] at value
  exact value

theorem held_stored (held : Held buffer data) :
    (∀ i (below : i < data.length), buffer (0 + i) = data[i]) ∧ buffer (0 + data.length) = 0 := by
  simp only [Nat.zero_add]
  exact held

/-- Behind its first byte stands the rest of a text. -/
theorem stored_tail {place : Nat} {c : UInt8}
    (inside : ∀ i (below : i < (c :: data).length), buffer (place + i) = (c :: data)[i])
    (last : buffer (place + (c :: data).length) = 0) :
    (∀ i (below : i < data.length), buffer (place + 1 + i) = data[i]) ∧
      buffer (place + 1 + data.length) = 0 := by
  refine ⟨fun i below => ?_, ?_⟩
  · have next := inside (i + 1) (Nat.succ_lt_succ below)
    rw [Nat.add_assoc, Nat.add_comm 1]
    exact next
  · rw [Nat.add_assoc, Nat.add_comm 1]
    exact last

theorem strlen_text {fuel place : Nat} (long : data.length < fuel)
    (inside : ∀ i (below : i < data.length), buffer (place + i) = data[i])
    (last : buffer (place + data.length) = 0) :
    strlen buffer fuel place = (data.takeWhile (· ≠ 0)).length := by
  induction fuel generalizing place data with
  | zero => exact absurd long (Nat.not_lt_zero _)
  | succ fuel ih =>
      rw [strlen]
      cases data with
      | nil => exact if_pos last
      | cons c data =>
          have first : buffer place = c := inside 0 (Nat.succ_pos _)
          rw [first]
          by_cases zero : c = 0
          · rw [if_pos zero, List.takeWhile_cons_of_neg (by simpa using zero)]
            rfl
          · rw [if_neg zero, List.takeWhile_cons_of_pos (by simpa using zero), List.length_cons]
            obtain ⟨later, ends⟩ := stored_tail inside last
            congr 1
            exact ih (Nat.lt_of_succ_lt_succ long) later ends

theorem remove_loop {count turns i : Nat} (low : 3 ≤ i) (enough : count + 1 - i ≤ turns) (x : Nat) :
    removeLoop count turns i buffer x =
      if i - 3 ≤ x ∧ x + 3 ≤ count then buffer (x + 3) else buffer x := by
  induction turns generalizing i buffer with
  | zero => exact (if_neg (by omega)).symm
  | succ turns ih =>
      rw [removeLoop]
      by_cases more : i ≤ count
      · rw [if_pos more, ih (i := i + 1) (by omega) (by omega)]
        by_cases here : x = i - 3
        · have behind : ¬ (i + 1 - 3 ≤ x ∧ x + 3 ≤ count) := by omega
          have within : i - 3 ≤ x ∧ x + 3 ≤ count := by omega
          rw [if_neg behind, if_pos within, here, Function.update_self, Nat.sub_add_cancel low]
        · by_cases later : i + 1 - 3 ≤ x ∧ x + 3 ≤ count
          · rw [if_pos later, if_pos (by omega), Function.update_of_ne (by omega)]
          · rw [if_neg later, if_neg (by omega), Function.update_of_ne here]
      · rw [if_neg more, if_neg (by omega)]

/-- The text ends at a NUL. -/
theorem text_end {place : Nat} (inside : ∀ i (below : i < data.length), buffer (place + i) = data[i])
    (last : buffer (place + data.length) = 0) :
    buffer (place + (data.takeWhile (· ≠ 0)).length) = 0 := by
  induction data generalizing place with
  | nil => exact last
  | cons c data ih =>
      have first : buffer place = c := inside 0 (Nat.succ_pos _)
      by_cases zero : c = 0
      · rw [List.takeWhile_cons_of_neg (by simpa using zero)]
        exact first.trans zero
      · rw [List.takeWhile_cons_of_pos (by simpa using zero), List.length_cons, Nat.add_comm _ 1,
          ← Nat.add_assoc]
        obtain ⟨later, ends⟩ := stored_tail inside last
        exact ih later ends

theorem held_text (held : Held buffer data) : Held buffer (data.takeWhile (· ≠ 0)) := by
  constructor
  · intro i below
    have front : data.takeWhile (· ≠ 0) <+: data := List.takeWhile_prefix _
    rw [held.1 i (Nat.lt_of_lt_of_le below front.length_le), front.getElem below]
  · obtain ⟨inside, ends⟩ := held_stored held
    have last := text_end inside ends
    rwa [Nat.zero_add] at last

/-- What stands in the buffer when getpacket returns. -/
theorem accept_held {line : Line} (held : Held line.buffer data) (short : data.length < BUFMAX) :
    Held (accept line).buffer (payload data) := by
  have text := held_text held
  obtain ⟨inside, ends⟩ := held_stored held
  have length : strlen line.buffer BUFMAX 0 = (data.takeWhile (· ≠ 0)).length :=
    strlen_text short inside ends
  have moved : ∀ x, removeLoop (strlen line.buffer BUFMAX 0) BUFMAX 3 line.buffer x =
      if x + 3 ≤ (data.takeWhile (· ≠ 0)).length then line.buffer (x + 3) else line.buffer x := by
    intro x
    have small : (data.takeWhile (· ≠ 0)).length ≤ data.length :=
      (List.takeWhile_prefix _).length_le
    rw [remove_loop (Nat.le_refl 3) (by omega), length]
    by_cases inside : x + 3 ≤ (data.takeWhile (· ≠ 0)).length
    · rw [if_pos ⟨Nat.zero_le x, inside⟩, if_pos inside]
    · rw [if_neg fun both => inside both.2, if_neg inside]
  unfold accept
  dsimp only [Line.put]
  unfold payload
  dsimp only
  by_cases sequence : (data.takeWhile (· ≠ 0))[2]? = some colon
  · obtain ⟨below, third⟩ := List.getElem?_eq_some_iff.mp sequence
    rw [if_pos sequence, if_pos ((text.1 2 below).trans third)]
    dsimp only
    constructor
    · intro i inside
      rw [List.length_drop] at inside
      rw [moved, if_pos (by omega), text.1 (i + 3) (by omega), List.getElem_drop]
      simp only [Nat.add_comm 3 i]
    · rw [List.length_drop, moved, if_pos (by omega), Nat.sub_add_cancel (by omega)]
      exact text.2
  · rw [if_neg sequence]
    split
    · rename_i stale
      dsimp only
      -- the text is shorter than a sequence identifier, so nothing is removed
      have few : (data.takeWhile (· ≠ 0)).length ≤ 2 := by
        by_contra long
        apply sequence
        rw [List.getElem?_eq_getElem (by omega), ← text.1 2 (by omega)]
        exact congrArg some stale
      have kept : removeLoop (strlen line.buffer BUFMAX 0) BUFMAX 3 line.buffer = line.buffer := by
        funext x
        rw [moved, if_neg (by omega)]
      rw [kept]
      exact held
    · exact held

theorem accept_output (line : Line) : ∃ reply, (accept line).output = line.output ++ plus :: reply ∧
    (accept line).input = line.input ∧
      reply = if line.buffer 2 = colon then [line.buffer 0, line.buffer 1] else [] := by
  unfold accept
  dsimp only [Line.put]
  split
  · exact ⟨_, by rw [List.append_assoc]; rfl, rfl, rfl⟩
  · exact ⟨[], rfl, rfl, rfl⟩

end Accept

/-! ### One turn -/

section Turn
variable {line : Line}

theorem right_iff {packet : Packet} (high : Digit packet.high) (low : Digit packet.low)
    {checksum : UInt8} (total : checksum.toNat = sum packet.data) :
    checksum = UInt8.ofInt (hex packet.high * 16) ||| UInt8.ofInt (hex packet.low) ↔ packet.Right := by
  have value := checksum_value high low
  constructor
  · intro same
    refine ⟨high, low, ?_⟩
    rw [← value, ← same, total]
  · intro right
    apply UInt8.toNat_inj.mp
    have same := right.same
    omega

/-- A turn waits, or it reads the next packet and compares its checksum. -/
theorem turn_eq (regular : Regular line.input) : turn line = .inr none ∨
    ∃ packet rest buffer, Arrives line.input packet rest ∧ packet.data.length < BUFMAX ∧
      Held buffer packet.data ∧
      (packet.Right → turn line = .inr (some (accept ⟨rest, buffer, line.output⟩))) ∧
      (¬ packet.Right → turn line = .inl (Line.put ⟨rest, buffer, line.output⟩ [minus])) := by
  unfold turn
  cases begun : waitStart line.input with
  | none => exact Or.inl rfl
  | some body =>
      obtain ⟨noise, start, begin', quiet, first⟩ := wait_start_some begun
      dsimp only
      cases read : readData body ⟨0, 0, line.buffer⟩ with
      | none => exact Or.inl rfl
      | some found =>
          obtain ⟨reading, behind⟩ := found
          obtain ⟨data, plain, same, ends⟩ := read_data_some (Nat.zero_le BUFMAX) read
          rcases ends with ⟨short, last, closes, split⟩ | ⟨full, split⟩
          · have count : reading.count = (data.map mask).length := by
              rw [same, take_all_count, Nat.zero_add]
            have total : reading.checksum.toNat = sum (data.map mask) := by
              rw [same, take_all_checksum]
              exact congrArg (· % 256) (Nat.zero_add _)
            have held : Held (Function.update reading.buffer reading.count 0) (data.map mask) := by
              constructor
              · intro i below
                rw [Function.update_of_ne (by omega), same]
                have taken := (@take_all_buffer ⟨0, 0, line.buffer⟩ (data.map mask)).1 i below
                rw [Nat.zero_add] at taken
                exact taken
              · rw [← count]
                exact Function.update_self _ _ _
            dsimp only
            rw [if_neg (Nat.not_le.mpr short)]
            cases behind with
            | nil => exact Or.inl rfl
            | cons high behind =>
                cases behind with
                | nil => exact Or.inl rfl
                | cons low rest =>
                    have arrives : Arrives line.input ⟨data.map mask, mask high, mask low⟩ rest := by
                      constructor
                      · intro member
                        obtain ⟨c, inside, same⟩ := List.mem_map.mp member
                        exact plain c inside same
                      · refine ⟨noise, start :: data ++ [last, high, low], ?_, quiet, ?_⟩
                        · rw [begin', split]
                          simp
                        · simp [first, closes]
                    obtain ⟨firstDigit, secondDigit⟩ := regular.digits _ _ arrives
                    have compare := right_iff firstDigit secondDigit total
                    refine Or.inr ⟨_, rest, _, arrives, count ▸ short, held, ?_, ?_⟩
                    · intro right
                      exact if_neg (not_not.mpr (compare.mpr right))
                    · intro wrong
                      exact if_pos fun same => wrong (compare.mp same)
          · refine absurd ⟨noise, start, data, behind, ?_, quiet, first, ?_, plain⟩ regular.short
            · rw [begin', split]
              simp
            · rw [same, take_all_count, Nat.zero_add, List.length_map] at full
              exact full

/-- The characters of a sequence identifier are sent behind the +. -/
theorem reply_eq {buffer : Nat → UInt8} {data : List UInt8} (held : Held buffer data)
    (two : 2 ≤ data.length) : (if buffer 2 = colon then [buffer 0, buffer 1] else []) =
      if data[2]? = some colon then data.take 2 else [] := by
  have front : data.take 2 = [buffer 0, buffer 1] := by
    match data, two, held with
    | first :: second :: rest, _, held =>
        rw [held.1 0 (by simp), held.1 1 (by simp)]
        rfl
  have third : buffer 2 = colon ↔ data[2]? = some colon := by
    by_cases long : 2 < data.length
    · rw [held.1 2 long, List.getElem?_eq_getElem long, Option.some.injEq]
    · have length : data.length = 2 := by omega
      have last := held.2
      rw [length] at last
      rw [List.getElem?_eq_none (by omega), last]
      exact iff_of_false (by decide) (by simp)
  rw [front]
  simp only [third]

end Turn

/-! ### The whole function -/

/-- getpacket has answered packets whose checksum is wrong, and nothing else. -/
structure Discards (start line : Line) (wrong : List Packet) : Prop where
  received : Consumes start.input wrong line.input
  unequal : ∀ packet ∈ wrong, ¬ packet.Right
  output : line.output = start.output ++ List.replicate wrong.length minus

/-- getpacket has taken a packet whose checksum is right, behind others whose checksum is wrong. -/
structure Accepts (start final : Line) (wrong : List Packet) (right : Packet) (reply : List UInt8) :
    Prop where
  received : Consumes start.input (wrong ++ [right]) final.input
  unequal : ∀ packet ∈ wrong, ¬ packet.Right
  equal : right.Right
  short : right.data.length < BUFMAX
  held : Held final.buffer (payload right.data)
  output : final.output = start.output ++ List.replicate wrong.length minus ++ plus :: reply
  echo : 2 ≤ right.data.length →
    reply = if right.data[2]? = some colon then right.data.take 2 else []

theorem discards_reached {start line : Line}
    (regular : ∀ packets rest, Consumes start.input packets rest → Regular rest)
    (reached : Reaches turn start line) : ∃ wrong, Discards start line wrong := by
  induction reached with
  | start =>
      exact ⟨[], .done _, fun _ member => absurd member List.not_mem_nil, (List.append_nil _).symm⟩
  | next _ goes ih =>
      obtain ⟨wrong, received, before, output⟩ := ih
      rcases turn_eq (regular wrong _ received) with
        waits | ⟨packet, rest, buffer, arrives, -, -, accepts, refuses⟩
      · rw [waits] at goes
        cases goes
      · by_cases right : packet.Right
        · rw [accepts right] at goes
          cases goes
        · rw [refuses right] at goes
          cases goes
          refine ⟨wrong ++ [packet], .next received arrives, ?_, ?_⟩
          · intro other member
            rcases List.mem_append.mp member with earlier | last
            · exact before other earlier
            · rw [List.mem_singleton.mp last]
              exact right
          · change _ ++ [minus] = _
            rw [output, List.append_assoc, List.length_append, List.length_singleton,
              List.replicate_succ']

/-- Characters that are no digits count as 255, so that getpacket returns with `$` 127 127 1 `#zz`. -/
example : ∃ final, Getpacket ⟨[36, 127, 127, 1, 35, 122, 122], fun _ => 0, []⟩ (some final) :=
  ⟨_, ends_done rfl⟩

/-- The packet `$x#78`. -/
def oneLetter : List UInt8 := [36, 120, 35, 55, 56]

theorem one_letter_arrives {packet : Packet} {rest : List UInt8}
    (arrives : Arrives oneLetter packet rest) :
    packet.high = 55 ∧ packet.low = 56 ∧ rest = [] := by
  obtain ⟨ended, noise, body, split, quiet, text⟩ := arrives
  have length := congrArg List.length split
  have size := congrArg List.length text
  cases noise with
  | cons c noise =>
      rw [oneLetter, List.cons_append, List.cons_append, List.cons.injEq] at split
      exact absurd (split.1 ▸ rfl) (quiet c List.mem_cons_self)
  | nil =>
      match body, text with
      | [a, b, c, d, e], text =>
          simp [oneLetter] at split
          obtain ⟨rfl, rfl, rfl, rfl, rfl, rfl⟩ := split
          match packet, text with
          | ⟨[x], high, low⟩, text =>
              simp at text
              exact ⟨text.2.2.2.1.symm, text.2.2.2.2.symm, rfl⟩
          | ⟨[], high, low⟩, text => simp at text
          | ⟨x :: y :: more, high, low⟩, text =>
              have few := congrArg List.length text
              simp at few
      | [a, b, c, d], text =>
          simp [oneLetter] at split
          obtain ⟨rfl, rfl, rfl, rfl, -⟩ := split
          match packet, text with
          | ⟨[], high, low⟩, text =>
              simp at text
              exact absurd text.2.1 (by decide)
          | ⟨x :: more, high, low⟩, text =>
              have few := congrArg List.length text
              simp at few
      | [], text => simp at size
      | [a], text => simp at size
      | [a, b], text => simp at size
      | [a, b, c], text => simp at size
      | a :: b :: c :: d :: e :: f :: more, text =>
          simp [oneLetter] at length

theorem one_letter_consumed {packets : List Packet} {input rest : List UInt8} (whole : input = oneLetter)
    (consumed : Consumes input packets rest) : rest = oneLetter ∨ rest = [] := by
  induction consumed with
  | done => exact Or.inl whole
  | next _ arrives ih =>
      rcases ih with rfl | rfl
      · exact Or.inr (one_letter_arrives arrives).2.2
      · obtain ⟨-, noise, body, split, -, text⟩ := arrives
        have size := congrArg List.length text
        have length := congrArg List.length split
        simp at size length
        omega

theorem one_letter_regular {packets : List Packet} {rest : List UInt8}
    (consumed : Consumes oneLetter packets rest) : Regular rest := by
  have few : rest.length ≤ 5 := by
    rcases one_letter_consumed rfl consumed with rfl | rfl
    · exact Nat.le_refl 5
    · exact Nat.zero_le 5
  constructor
  · rintro ⟨noise, c, data, behind, rfl, -, -, full, -⟩
    rw [List.length_append, List.length_append, List.length_cons, full, BUFMAX] at few
    omega
  · intro packet behind arrives
    rcases one_letter_consumed rfl consumed with rfl | rfl
    · obtain ⟨high, low, -⟩ := one_letter_arrives arrives
      rw [high, low]
      exact ⟨by decide, by decide⟩
    · obtain ⟨-, noise, body, split, -, text⟩ := arrives
      have size := congrArg List.length text
      have length := congrArg List.length split
      simp at size length
      omega

end UBoot.Common.Kgdb
