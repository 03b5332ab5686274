import UBoot.Library.ForLoop

/-!
The memory test of common/cmd_mem.c, test_algorithm_t, over a memory that need not work. DISCARD_ERROR is 0.
-/

namespace UBoot.Common.MemoryTest

open Library.ForLoop

universe u
variable {Mem : Type u}

abbrev Word := BitVec 32

/-- What comes to the memory, and what it gives back. -/
structure Memory (Mem : Type u) where
  read : Mem → Word → Word
  write : Mem → Word → Word → Mem

inductive Message where
  | pass
  | fail (inverse : Bool) (checkAddr checkData checkPattern : Word) (stride : Nat)
  | stopMct
deriving DecidableEq, Repr

/-- The memory, and the static variables of the test. -/
structure Test (Mem : Type u) where
  memory : Mem
  testSize : Nat
  startMAddr : Word
  endMAddr : Word
  startCAddr : Word
  endCAddr : Word
  startAddr : Word
  endAddr : Word
  failStatus : Nat
  mtFailStatus : Nat
  ctFailStatus : Nat
  dwordRandomSeed : Word
  dwordRandomInc : Word
  /-- How often ctrlc has been asked. -/
  asked : Nat
  printed : List Message

inductive Stop (Mem : Type u) where
  | returns (value : Nat) (test : Test Mem)
  /-- In the endless loop behind an error; Ctrl-C alone ends it. -/
  | spins (test : Test Mem)

def wordModulus : Nat := 2 ^ 32

def infoErrorTAddr : Word := 0xbd000040#32
def infoErrorTInverseAddr : Word := infoErrorTAddr + 0x4
def infoErrorTStrideAddr : Word := infoErrorTAddr + 0x8
def infoErrorTOffsetAddr : Word := infoErrorTAddr + 0xc
def infoErrorTAdrAddr : Word := infoErrorTAddr + 0x10
def infoErrorTDataAddr : Word := infoErrorTAddr + 0x14
def infoErrorTEdataAddr : Word := infoErrorTAddr + 0x18

section Model
variable (ram : Memory Mem) (ctrlc : Nat → Bool)

def checkPattern (addAsData : Bool) (pattern checkAddr : Word) : Word :=
  if addAsData then pattern ^^^ checkAddr else pattern

/-- The error is noted, and nothing is repaired. -/
def fail (memType : Word) (inverse : Bool) (stride offset : Nat) (checkAddr checkData checkPattern : Word)
    (test : Test Mem) : Test Mem :=
  let record : List (Word × Word) :=
    [(infoErrorTAddr, 1), (infoErrorTInverseAddr, if inverse then 1 else 0),
      (infoErrorTStrideAddr, BitVec.ofNat 32 stride), (infoErrorTOffsetAddr, BitVec.ofNat 32 offset),
      (infoErrorTAdrAddr, checkAddr), (infoErrorTDataAddr, checkData), (infoErrorTEdataAddr, checkPattern)]
  { test with
    mtFailStatus := if memType = 0 then 1 else test.mtFailStatus
    ctFailStatus := if memType = 0 then test.ctFailStatus else 1
    failStatus := 1
    memory := record.foldl (fun memory entry => ram.write memory entry.1 entry.2) test.memory
    printed := test.printed ++ [.fail inverse checkAddr checkData checkPattern stride] }

/-- The body of the inner loops: the word has to hold the pattern, and is inverted. Only the first of the
two loops asks for Ctrl-C. -/
def checkWord (memType : Word) (addAsData inverse : Bool) (pattern : Word) (stride offset i : Nat)
    (test : Test Mem) : Part (Test Mem) (Stop Mem) :=
  if inverse = false ∧ ctrlc test.asked = true then
    some (.inr (.returns 1 { test with asked := test.asked + 1, printed := test.printed ++ [.stopMct] }))
  else
    let test := if inverse then test else { test with asked := test.asked + 1 }
    let checkAddr := test.startAddr + BitVec.ofNat 32 i
    let checkData := ram.read test.memory checkAddr
    let checkPattern := checkPattern addAsData pattern checkAddr
    if checkData ≠ checkPattern then
      some (.inr (.spins (fail ram memType inverse stride offset checkAddr checkData checkPattern test)))
    else some (.inl { test with memory := ram.write test.memory checkAddr (~~~checkPattern) })

/-- `for (offset = 0; offset < stride; offset += 4) for (i = offset; i < TEST_SIZE; i += stride)` -/
def checkWords (memType : Word) (addAsData inverse : Bool) (pattern : Word) (stride fuel : Nat)
    (test : Test Mem) : Part (Test Mem) (Stop Mem) :=
  sweep wordModulus 4 stride test.testSize fuel (checkWord ram ctrlc memType addAsData inverse pattern stride)
    test

/-- The body of the loop over the strides. -/
def checkStride (memType : Word) (addAsData : Bool) (pattern : Word) (fuel stride : Nat) (test : Test Mem) :
    Part (Test Mem) (Stop Mem) :=
  andThen (checkWords ram ctrlc memType addAsData false pattern stride fuel test) fun test =>
    checkWords ram ctrlc memType addAsData true (~~~pattern) stride fuel test

def fillWord (addAsData : Bool) (pattern : Word) (i : Nat) (test : Test Mem) : Part (Test Mem) (Stop Mem) :=
  let address := test.startAddr + BitVec.ofNat 32 i
  some (.inl { test with memory := ram.write test.memory address (checkPattern addAsData pattern address) })

def fill (addAsData : Bool) (pattern : Word) (fuel : Nat) (test : Test Mem) : Part (Test Mem) (Stop Mem) :=
  forLoop test.testSize (fun i => (i + 4) % wordModulus) (fillWord ram addAsData pattern) fuel 0 test

def checkStrides (memType : Word) (addAsData : Bool) (pattern : Word) (fuel : Nat) (test : Test Mem) :
    Part (Test Mem) (Stop Mem) :=
  forLoop test.testSize (fun stride => stride * 2 % wordModulus)
    (checkStride ram ctrlc memType addAsData pattern fuel) fuel 4 test

/-- The variables before the first loop. -/
def begin (memType : Word) (test : Test Mem) : Test Mem :=
  if memType = 0 then
    { test with failStatus := 0, startAddr := test.startMAddr, endAddr := test.endMAddr }
  else { test with failStatus := 0, startAddr := test.startCAddr, endAddr := test.endCAddr }

/-- Pattern 2 is the address as data, and pattern 1 the random seed. -/
def choose (pattern seed : Word) : Bool × Word :=
  if pattern = 2 then (true, 0) else (false, if pattern = 1 then seed else pattern)

def finish (test : Test Mem) : Test Mem :=
  { test with
    printed := if test.failStatus = 0 then test.printed ++ [.pass] else test.printed
    dwordRandomSeed := test.dwordRandomSeed + 0x01010101 + test.dwordRandomInc }

def testAlgorithmT (memType pattern : Word) (fuel : Nat) (test : Test Mem) : Option (Stop Mem) :=
  let test := begin memType test
  let chosen := choose pattern test.dwordRandomSeed
  (andThen (fill ram chosen.1 chosen.2 fuel test) fun test =>
    checkStrides ram ctrlc memType chosen.1 chosen.2 fuel test).map fun result =>
      match result with
      | .inl test => .returns 0 (finish test)
      | .inr stop => stop

end Model

/-! ### The memory -/

def tested (start : Word) (size : Nat) : Set Word :=
  {address | ∃ k ∈ units 4 size, address = start + BitVec.ofNat 32 k}

/-- A word that has been written holds what has been written, until it is written again. -/
structure Stores (ram : Memory Mem) (words : Set Word) : Prop where
  same : ∀ memory address value, address ∈ words → ram.read (ram.write memory address value) address = value
  other : ∀ memory address value, address ∈ words → ∀ left ∈ words, left ≠ address →
    ram.read (ram.write memory address value) left = ram.read memory left

def StuckAt (ram : Memory Mem) (address : Word) (bit : Nat) (value : Bool) : Prop :=
  ∀ memory, (ram.read memory address).getLsbD bit = value

def Failed (memType : Word) : Stop Mem → Prop
  | .returns _ _ => False
  | .spins test =>
      test.failStatus = 1 ∧ (if memType = 0 then test.mtFailStatus else test.ctFailStatus) = 1

/-- The memory apart, a test has changed nothing but its count of questions. -/
def Same (before test : Test Mem) : Prop := test = { before with memory := test.memory, asked := test.asked }

theorem same_self (test : Test Mem) : Same test test := rfl

theorem same_start {before test : Test Mem} (same : Same before test) : test.startAddr = before.startAddr := by
  rw [same]

theorem same_size {before test : Test Mem} (same : Same before test) : test.testSize = before.testSize := by
  rw [same]

theorem same_change {before test : Test Mem} (same : Same before test) (memory : Mem) (asked : Nat) :
    Same before { test with memory := memory, asked := asked } := by
  rw [Same] at same
  rw [same, Same]

theorem word_apart {start : Word} {size i k : Nat} (most : size ≤ 2 ^ 31) (left : i < size) (right : k < size)
    (apart : k ≠ i) : start + BitVec.ofNat 32 k ≠ start + BitVec.ofNat 32 i := by
  intro equal
  have numbers := congrArg BitVec.toNat ((BitVec.add_right_inj start).mp equal)
  rw [BitVec.toNat_ofNat, BitVec.toNat_ofNat, Nat.mod_eq_of_lt (by omega), Nat.mod_eq_of_lt (by omega)] at numbers
  exact apart numbers

theorem check_pattern_not (addAsData : Bool) (pattern address : Word) :
    checkPattern addAsData (~~~pattern) address = ~~~checkPattern addAsData pattern address := by
  cases addAsData with
  | false => rfl
  | true => exact BitVec.not_xor_left.symm

section Words
variable {ram : Memory Mem} {ctrlc : Nat → Bool} {memType : Word} {addAsData inverse : Bool}
  {pattern : Word} {stride offset i fuel : Nat} {before test : Test Mem}

theorem fail_failed (checkAddr checkData checkPattern : Word) (test : Test Mem) :
    Failed memType (.spins (fail ram memType inverse stride offset checkAddr checkData checkPattern test)) := by
  by_cases cache : memType = 0
  · refine ⟨rfl, ?_⟩
    simp only [fail, if_pos cache]
  · refine ⟨rfl, ?_⟩
    simp only [fail, if_neg cache]

/-- A word that holds its pattern is inverted; with any other the test fails. -/
theorem check_word_cases (memType : Word) (addAsData inverse : Bool) (pattern : Word) (stride offset : Nat)
    (quiet : ∀ k, ctrlc k = false) (same : Same before test)
    {address expected : Word} (place : address = before.startAddr + BitVec.ofNat 32 i)
    (pattern_there : expected = checkPattern addAsData pattern address) :
    (ram.read test.memory address = expected ∧ ∃ after,
      checkWord ram ctrlc memType addAsData inverse pattern stride offset i test = some (.inl after) ∧
      Same before after ∧ after.memory = ram.write test.memory address (~~~expected)) ∨
    (ram.read test.memory address ≠ expected ∧ ∃ stop,
      checkWord ram ctrlc memType addAsData inverse pattern stride offset i test = some (.inr stop) ∧
      Failed memType stop) := by
  subst place pattern_there
  have start := same_start same
  have going : ¬ (inverse = false ∧ ctrlc test.asked = true) := by simp [quiet]
  by_cases holds : ram.read test.memory (before.startAddr + BitVec.ofNat 32 i) =
      checkPattern addAsData pattern (before.startAddr + BitVec.ofNat 32 i)
  · refine Or.inl ⟨holds, ?_⟩
    rw [checkWord, if_neg going]
    cases inverse with
    | false =>
        refine ⟨{ test with
          asked := test.asked + 1
          memory := ram.write test.memory _ _ }, ?_, same_change same _ _, rfl⟩
        simp [start, holds]
    | true =>
        refine ⟨{ test with memory := ram.write test.memory _ _ }, ?_, same_change same _ _, rfl⟩
        simp [start, holds]
  · refine Or.inr ⟨holds, ?_⟩
    rw [checkWord, if_neg going]
    cases inverse with
    | false => simp [start, holds, fail_failed]
    | true => simp [start, holds, fail_failed]

/-- The units that a sweep has left behind are inverted. -/
structure Inverted (ram : Memory Mem) (addAsData : Bool) (pattern : Word) (before : Test Mem) (seen : Set Nat)
    (test : Test Mem) : Prop where
  same : Same before test
  ahead : ∀ k ∈ units 4 before.testSize, k ∉ seen →
    ram.read test.memory (before.startAddr + BitVec.ofNat 32 k) =
      checkPattern addAsData pattern (before.startAddr + BitVec.ofNat 32 k)
  behind : ∀ k ∈ units 4 before.testSize, k ∈ seen →
    ram.read test.memory (before.startAddr + BitVec.ofNat 32 k) =
      ~~~checkPattern addAsData pattern (before.startAddr + BitVec.ofNat 32 k)

/-- All words hold the pattern. -/
def Filled (ram : Memory Mem) (addAsData : Bool) (pattern : Word) (before test : Test Mem) : Prop :=
  Inverted ram addAsData pattern before ∅ test

theorem inverted_filled (all : Inverted ram addAsData pattern before (units 4 before.testSize) test) :
    Filled ram addAsData (~~~pattern) before test := by
  refine ⟨all.same, ?_, ?_⟩
  · intro k inside _
    rw [check_pattern_not]
    exact all.behind k inside inside
  · rintro k inside ⟨⟩

theorem check_word_inverts (stores : Stores ram (tested before.startAddr before.testSize))
    (most : before.testSize ≤ 2 ^ 31) (quiet : ∀ k, ctrlc k = false) {seen : Set Nat}
    (inside : i ∈ units 4 before.testSize) (new : i ∉ seen)
    (holds : Inverted ram addAsData pattern before seen test) :
    Gives (Inverted ram addAsData pattern before (insert i seen)) (fun _ => False)
      (checkWord ram ctrlc memType addAsData inverse pattern stride offset i test) := by
  rcases check_word_cases memType addAsData inverse pattern stride offset quiet holds.same rfl rfl with
    ⟨-, after, result, same, written⟩ | ⟨wrong, -⟩
  · rw [result]
    apply gives_state
    have place : before.startAddr + BitVec.ofNat 32 i ∈ tested before.startAddr before.testSize := ⟨i, inside, rfl⟩
    refine ⟨same, ?_, ?_⟩
    · intro k unit unseen
      rw [Set.mem_insert_iff, not_or] at unseen
      rw [written, stores.other _ _ _ place _ ⟨k, unit, rfl⟩ (word_apart most inside.1 unit.1 unseen.1)]
      exact holds.ahead k unit unseen.2
    · rintro k unit (rfl | seen_before)
      · rw [written, stores.same _ _ _ place]
      · have apart : k ≠ i := fun equal => new (equal ▸ seen_before)
        rw [written, stores.other _ _ _ place _ ⟨k, unit, rfl⟩ (word_apart most inside.1 unit.1 apart)]
        exact holds.behind k unit seen_before
  · exact absurd (holds.ahead i inside new) wrong

theorem check_words_invert (memType : Word) (inverse : Bool)
    (stores : Stores ram (tested before.startAddr before.testSize))
    (most : before.testSize ≤ 2 ^ 31) (quiet : ∀ k, ctrlc k = false) (fours : 4 ∣ stride) (room : 0 < stride)
    (less : stride < before.testSize) (enough : before.testSize < fuel)
    (filled : Filled ram addAsData pattern before test) :
    Gives (Filled ram addAsData (~~~pattern) before) (fun _ => False)
      (checkWords ram ctrlc memType addAsData inverse pattern stride fuel test) := by
  rw [checkWords, same_size filled.same]
  apply gives_weaken _ (sweep_gives (Inverted ram addAsData pattern before) (by decide) fours room
    (by rw [wordModulus]; omega) less.le ?_ enough filled) (fun _ => inverted_filled)
  intro offset i seen state within unit new holds
  exact check_word_inverts stores most quiet ⟨within, unit⟩ new holds

theorem check_stride_keeps (stores : Stores ram (tested before.startAddr before.testSize))
    (most : before.testSize ≤ 2 ^ 31) (quiet : ∀ k, ctrlc k = false) (fours : 4 ∣ stride) (room : 0 < stride)
    (less : stride < before.testSize) (enough : before.testSize < fuel)
    (filled : Filled ram addAsData pattern before test) :
    Gives (Filled ram addAsData pattern before) (fun _ => False)
      (checkStride ram ctrlc memType addAsData pattern fuel stride test) := by
  apply gives_then _ (check_words_invert memType false stores most quiet fours room less enough filled)
  intro middle inverted
  have again := check_words_invert memType true stores most quiet fours room less enough
    inverted
  rwa [BitVec.not_not] at again

theorem check_strides_keep (stores : Stores ram (tested before.startAddr before.testSize))
    (most : before.testSize ≤ 2 ^ 31) (quiet : ∀ k, ctrlc k = false) (enough : before.testSize < fuel)
    (filled : Filled ram addAsData pattern before test) :
    Gives (Same before) (fun _ => False) (checkStrides ram ctrlc memType addAsData pattern fuel test) := by
  rw [checkStrides, same_size filled.same]
  apply gives_weaken _ (for_gives
    (fun stride test => (4 ∣ stride ∧ 0 < stride) ∧ Filled ram addAsData pattern before test)
    ?_ (by omega) ⟨⟨Nat.dvd_refl 4, by decide⟩, filled⟩)
  · rintro state ⟨last, -, -, kept⟩
    exact kept.same
  · rintro stride state less ⟨⟨fours, room⟩, kept⟩
    have doubled : stride * 2 % wordModulus = stride * 2 := Nat.mod_eq_of_lt (by rw [wordModulus]; omega)
    rw [doubled]
    refine ⟨by omega, gives_weaken _ (check_stride_keeps stores most quiet fours room less enough kept) ?_⟩
    exact fun _ held => ⟨⟨Nat.dvd_mul_right_of_dvd fours 2, by omega⟩, held⟩

theorem fill_word (same : Same before test) :
    fillWord ram addAsData pattern i test = some (.inl { test with
      memory := ram.write test.memory (before.startAddr + BitVec.ofNat 32 i)
        (checkPattern addAsData pattern (before.startAddr + BitVec.ofNat 32 i)) }) := by
  simp only [fillWord, same_start same]

/-- The words below `i` hold the pattern. -/
structure Laid (ram : Memory Mem) (addAsData : Bool) (pattern : Word) (before : Test Mem) (i : Nat)
    (test : Test Mem) : Prop where
  unit : 4 ∣ i
  same : Same before test
  below : ∀ k ∈ units 4 before.testSize, k < i →
    ram.read test.memory (before.startAddr + BitVec.ofNat 32 k) =
      checkPattern addAsData pattern (before.startAddr + BitVec.ofNat 32 k)

theorem fill_fills (stores : Stores ram (tested before.startAddr before.testSize))
    (most : before.testSize ≤ 2 ^ 31) (enough : before.testSize < fuel) :
    Gives (Filled ram addAsData pattern before) (fun _ => False)
      (fill ram addAsData pattern fuel before) := by
  rw [fill]
  apply gives_weaken _ (for_gives (Laid ram addAsData pattern before) ?_ (by omega)
    ⟨Nat.dvd_zero 4, same_self before, by simp⟩)
  · rintro state ⟨last, past, laid⟩
    refine ⟨laid.same, fun k unit _ => laid.below k unit (Nat.lt_of_lt_of_le unit.1 past), ?_⟩
    rintro k unit ⟨⟩
  · intro i state within laid
    have next : (i + 4) % wordModulus = i + 4 := Nat.mod_eq_of_lt (by rw [wordModulus]; omega)
    have place : before.startAddr + BitVec.ofNat 32 i ∈ tested before.startAddr before.testSize :=
      ⟨i, ⟨within, laid.unit⟩, rfl⟩
    rw [next, fill_word laid.same]
    refine ⟨by omega, gives_state ⟨Nat.dvd_add laid.unit (Nat.dvd_refl 4), same_change laid.same _ _, ?_⟩⟩
    intro k unit less
    by_cases here : k = i
    · subst here
      exact stores.same _ _ _ place
    · have earlier : k < i := by have := unit.2; have := laid.unit; omega
      rw [stores.other _ _ _ place _ ⟨k, unit, rfl⟩ (word_apart most within unit.1 here)]
      exact laid.below k unit earlier

/-! ### A bit that is stuck -/

/-- Where a sweep has been at the word, its pattern has the bit that the word is stuck at. -/
def Agreed (expected : Word) (bit : Nat) (value : Bool) (before : Test Mem) (k : Nat) (seen : Set Nat)
    (test : Test Mem) : Prop :=
  Same before test ∧ (k ∈ seen → expected.getLsbD bit = value)

theorem check_words_agree {k bit : Nat} {value : Bool} (inside : k ∈ units 4 before.testSize)
    (stuck : StuckAt ram (before.startAddr + BitVec.ofNat 32 k) bit value)
    (most : before.testSize ≤ 2 ^ 31) (quiet : ∀ k, ctrlc k = false) (fours : 4 ∣ stride) (room : 0 < stride)
    (less : stride < before.testSize) (enough : before.testSize < fuel) (same : Same before test) :
    Gives (fun after => Same before after ∧
        (checkPattern addAsData pattern (before.startAddr + BitVec.ofNat 32 k)).getLsbD bit = value)
      (Failed memType) (checkWords ram ctrlc memType addAsData inverse pattern stride fuel test) := by
  rw [checkWords, same_size same]
  apply gives_weaken _ (sweep_gives (Agreed (checkPattern addAsData pattern
    (before.startAddr + BitVec.ofNat 32 k)) bit value before k) (by decide) fours room
    (by rw [wordModulus]; omega) less.le ?_ enough ⟨same, by rintro ⟨⟩⟩)
  · exact fun after agreed => ⟨agreed.1, agreed.2 inside⟩
  · intro offset i seen state within unit new agreed
    rcases check_word_cases memType addAsData inverse pattern stride offset quiet agreed.1 rfl rfl with
      ⟨holds, after, result, kept, -⟩ | ⟨-, stop, result, failed⟩
    · rw [result]
      apply gives_state
      refine ⟨kept, ?_⟩
      rintro (rfl | seen_before)
      · rw [← holds]
        exact stuck state.memory
      · exact agreed.2 seen_before
    · rw [result]
      exact gives_stop failed

/-- The pattern and its inverse do not agree with one bit. -/
theorem check_stride_fails {k bit : Nat} {value : Bool} (inside : k ∈ units 4 before.testSize) (low : bit < 32)
    (stuck : StuckAt ram (before.startAddr + BitVec.ofNat 32 k) bit value)
    (most : before.testSize ≤ 2 ^ 31) (quiet : ∀ k, ctrlc k = false) (fours : 4 ∣ stride) (room : 0 < stride)
    (less : stride < before.testSize) (enough : before.testSize < fuel) (same : Same before test) :
    Gives (fun _ => False) (Failed memType) (checkStride ram ctrlc memType addAsData pattern fuel stride test) := by
  apply gives_then _ (check_words_agree inside stuck most quiet fours room less enough same)
  rintro middle ⟨kept, first⟩
  apply gives_weaken _ (check_words_agree inside stuck most quiet fours room less enough kept)
  rintro after ⟨-, second⟩
  rw [check_pattern_not, BitVec.getLsbD_not, first] at second
  simp [low] at second

/-- The first stride is enough. -/
theorem check_strides_fail {k bit : Nat} {value : Bool} (inside : k ∈ units 4 before.testSize) (low : bit < 32)
    (stuck : StuckAt ram (before.startAddr + BitVec.ofNat 32 k) bit value)
    (least : 8 ≤ before.testSize) (most : before.testSize ≤ 2 ^ 31) (quiet : ∀ k, ctrlc k = false)
    (enough : before.testSize < fuel) (same : Same before test) :
    Gives (fun _ => False) (Failed memType) (checkStrides ram ctrlc memType addAsData pattern fuel test) := by
  obtain ⟨rest, rfl⟩ : ∃ rest, fuel = rest + 1 := ⟨fuel - 1, by omega⟩
  rw [checkStrides, forLoop, same_size same, if_pos (by omega)]
  apply gives_then (fun _ => False)
  · exact check_stride_fails inside low stuck most quiet (Nat.dvd_refl 4) (by decide) (by omega) enough same
  · rintro _ ⟨⟩

/-- On a memory that stores, all loops come to their ends. -/
theorem loops_keep (memType : Word) (addAsData : Bool) (pattern : Word)
    (stores : Stores ram (tested before.startAddr before.testSize))
    (most : before.testSize ≤ 2 ^ 31) (quiet : ∀ k, ctrlc k = false) (enough : before.testSize < fuel) :
    Gives (Same before) (fun _ => False) (andThen (fill ram addAsData pattern fuel before) fun test =>
      checkStrides ram ctrlc memType addAsData pattern fuel test) := by
  apply gives_then _ (fill_fills stores most enough)
  intro middle filled
  exact check_strides_keep stores most quiet enough filled

theorem fill_same (ram : Memory Mem) (addAsData : Bool) (pattern : Word) (most : before.testSize ≤ 2 ^ 31) (enough : before.testSize < fuel) :
    Gives (Same before) (fun _ => False) (fill ram addAsData pattern fuel before) := by
  rw [fill]
  apply gives_weaken _ (for_gives (fun _ test => Same before test) ?_ (by omega) (same_self before))
  · rintro state ⟨_, -, same⟩
    exact same
  · intro i state within same
    have next : (i + 4) % wordModulus = i + 4 := Nat.mod_eq_of_lt (by rw [wordModulus]; omega)
    rw [next, fill_word same]
    exact ⟨by omega, gives_state (same_change same _ _)⟩

theorem loops_fail (memType : Word) (addAsData : Bool) (pattern : Word) {k bit : Nat} {value : Bool} (inside : k ∈ units 4 before.testSize) (low : bit < 32)
    (stuck : StuckAt ram (before.startAddr + BitVec.ofNat 32 k) bit value)
    (least : 8 ≤ before.testSize) (most : before.testSize ≤ 2 ^ 31) (quiet : ∀ k, ctrlc k = false)
    (enough : before.testSize < fuel) :
    Gives (fun _ => False) (Failed memType) (andThen (fill ram addAsData pattern fuel before) fun test =>
      checkStrides ram ctrlc memType addAsData pattern fuel test) := by
  have filled : Gives (Same before) (Failed memType) (fill ram addAsData pattern fuel before) := by
    obtain ⟨result, ran, ends⟩ := fill_same ram addAsData pattern most enough
    cases result with
    | inl after => exact ⟨_, ran, ends⟩
    | inr stop => exact ends.elim
  apply gives_then _ filled
  intro middle same
  exact check_strides_fail inside low stuck least most quiet enough same

end Words

def startOf (memType : Word) (test : Test Mem) : Word := if memType = 0 then test.startMAddr else test.startCAddr

theorem begin_frame (memType : Word) (test : Test Mem) :
    begin memType test = { test with
      failStatus := 0
      startAddr := startOf memType test
      endAddr := if memType = 0 then test.endMAddr else test.endCAddr } := by
  by_cases cache : memType = 0
  · simp only [begin, startOf, if_pos cache]
  · simp only [begin, startOf, if_neg cache]

/-- A memory that stores passes: the test returns, and has reported nothing else. A memory with a stuck bit
in a tested word comes to the endless loop behind the error, with the status set. -/
theorem test_algorithm_t_settles (ram : Memory Mem) {ctrlc : Nat → Bool} (quiet : ∀ k, ctrlc k = false)
    (memType pattern : Word) (test : Test Mem) (least : 8 ≤ test.testSize) (most : test.testSize ≤ 2 ^ 31)
    (fuel : Nat) (enough : test.testSize < fuel) :
    (Stores ram (tested (startOf memType test) test.testSize) → ∃ after,
      testAlgorithmT ram ctrlc memType pattern fuel test = some (.returns 0 after) ∧ after.failStatus = 0 ∧
      after.mtFailStatus = test.mtFailStatus ∧ after.ctFailStatus = test.ctFailStatus ∧
      after.printed = test.printed ++ [.pass]) ∧
    (∀ address ∈ tested (startOf memType test) test.testSize, ∀ bit < 32, ∀ value,
      StuckAt ram address bit value → ∃ stop,
        testAlgorithmT ram ctrlc memType pattern fuel test = some stop ∧ Failed memType stop) := by
  have begun := begin_frame memType test
  have size : (begin memType test).testSize = test.testSize := by rw [begun]
  have start : (begin memType test).startAddr = startOf memType test := by rw [begun]
  rw [← size] at least most enough
  rw [← size, ← start]
  constructor
  · intro stores
    obtain ⟨result, ran, ends⟩ := loops_keep memType
      (choose pattern (begin memType test).dwordRandomSeed).1
      (choose pattern (begin memType test).dwordRandomSeed).2 stores most quiet enough
    cases result with
    | inr stop => exact ends.elim
    | inl after =>
        refine ⟨finish after, by rw [testAlgorithmT, ran]; rfl, ?_⟩
        have same : Same (begin memType test) after := ends
        rw [Same, begun] at same
        rw [same]
        simp [finish]
  · rintro address ⟨k, inside, rfl⟩ bit low value stuck
    obtain ⟨result, ran, ends⟩ := loops_fail memType
      (choose pattern (begin memType test).dwordRandomSeed).1
      (choose pattern (begin memType test).dwordRandomSeed).2 inside low stuck least most quiet enough
    cases result with
    | inl after => exact ends.elim
    | inr stop => exact ⟨stop, by rw [testAlgorithmT, ran]; rfl, ends⟩

def plainRam : Memory (Word → Word) := ⟨fun memory address => memory address, Function.update⟩

/-- Bit 3 of one word is always set. -/
def stuckRam (bad : Word) : Memory (Word → Word) :=
  ⟨fun memory address => if address = bad then memory address ||| 8 else memory address, Function.update⟩

def twelveBytes : Test (Word → Word) :=
  ⟨fun _ => 0, 12, 0xa0050000, 0xa005000c, 0x80050000, 0x8005000c, 0, 0, 0, 0, 0, 0xa83f0365, 0x185fe2d1, 0, []⟩

theorem plain_stores (words : Set Word) : Stores plainRam words := by
  constructor
  · intro memory address value _
    exact Function.update_self address value memory
  · intro memory address value _ left _ apart
    exact Function.update_of_ne apart value memory

theorem three_words_tested :
    (∃ after, testAlgorithmT plainRam (fun _ => false) 0 2 13 twelveBytes = some (.returns 0 after) ∧
      after.failStatus = 0 ∧ after.printed = [.pass]) ∧
    ∃ stop, testAlgorithmT (stuckRam 0xa0050008) (fun _ => false) 0 2 13 twelveBytes = some stop ∧
      Failed 0 stop := by
  constructor
  · obtain ⟨after, ran, status, -, -, printed⟩ := (test_algorithm_t_settles plainRam (fun _ => rfl) 0 2
      twelveBytes (by decide) (by decide) 13 (by decide)).1 (plain_stores _)
    exact ⟨after, ran, status, printed⟩
  · apply (test_algorithm_t_settles (stuckRam 0xa0050008) (fun _ => rfl) 0 2 twelveBytes (by decide) (by decide)
      13 (by decide)).2 0xa0050008 ⟨8, ⟨by decide, by decide⟩, rfl⟩ 3 (by decide) true
    intro memory
    simp [stuckRam]

end UBoot.Common.MemoryTest
