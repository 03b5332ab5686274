import UBoot.Library.UndoLog

/-!
get_ram_size of common/memsize.c. An address is the number of its word from `base` on. The RAM has a
power of two of words; an address behind them is one of the RAM again, or nothing answers there and a
read gives what happens to be on the bus.
-/

namespace UBoot.Common.Memsize

open Library.UndoLog

structure Ram where
  /-- There are 2^bits words. -/
  bits : Nat
  responds : Nat → Bool
  inside : ∀ word, word < 2 ^ bits → responds word = true
  /-- What is on the bus at a read, by the number of the read. -/
  idle : Nat → UInt32

/-- The word of the RAM that answers at an address. -/
def Ram.place (ram : Ram) (addr : Nat) : Option Nat :=
  if ram.responds addr then some (addr % 2 ^ ram.bits) else none

/-- The contents of the RAM, how often it was read, and the array `save` with its index. -/
structure Probe where
  words : Nat → UInt32
  reads : Nat
  save : Nat → UInt32
  i : Nat

section Code
variable (ram : Ram)

/-- `*addr`. -/
def load (probe : Probe) (addr : Nat) : UInt32 × Probe :=
  (match ram.place addr with
    | some word => probe.words word
    | none => ram.idle probe.reads, { probe with reads := probe.reads + 1 })

/-- `*addr = val`. -/
def store (probe : Probe) (addr : Nat) (val : UInt32) : Probe :=
  { probe with words := put ram.place probe.words addr val }

/-- `save[i] = *addr`. -/
def saveWord (probe : Probe) (addr : Nat) : Probe :=
  let (val, probe) := load ram probe addr
  { probe with save := Function.update probe.save probe.i val }

/-- `*addr = save[--i]`. -/
def restoreWord (probe : Probe) (addr : Nat) : Probe :=
  store ram { probe with i := probe.i - 1 } addr (probe.save (probe.i - 1))

/-- The first loop; `turns` bounds the turns. -/
def markLoop : (turns cnt : Nat) → Probe → Probe
  | 0, _, probe => probe
  | turns + 1, cnt, probe =>
      if 0 < cnt then
        let probe := saveWord ram probe cnt
        markLoop turns (cnt / 2) (store ram { probe with i := probe.i + 1 } cnt (~~~UInt32.ofNat cnt))
      else probe

/-- The loops that restore the words from `cnt` on. -/
def restoreLoop (limit : Nat) : (turns cnt : Nat) → Probe → Probe
  | 0, _, probe => probe
  | turns + 1, cnt, probe =>
      if cnt < limit then restoreLoop limit turns (2 * cnt) (restoreWord ram probe cnt) else probe

/-- The last loop. -/
def checkLoop (maxsize limit : Nat) : (turns cnt : Nat) → Probe → Nat × Probe
  | 0, _, probe => (maxsize, probe)
  | turns + 1, cnt, probe =>
      if cnt < limit then
        let (val, probe) := load ram probe cnt
        let probe := restoreWord ram probe cnt
        if val ≠ ~~~UInt32.ofNat cnt then (cnt * 4, restoreLoop ram limit turns (2 * cnt) probe)
        else checkLoop maxsize limit turns (2 * cnt) probe
      else (maxsize, probe)

/-- The result, and the state behind it. A loop makes less turns than there are words. -/
def getRamSize (maxsize : Nat) (words : Nat → UInt32) : Nat × Probe :=
  let limit := maxsize / 4
  let probe := markLoop ram limit (limit / 2) ⟨words, 0, fun _ => 0, 0⟩
  let probe := store ram (saveWord ram probe 0) 0 0
  let (val, probe) := load ram probe 0
  if val ≠ 0 then
    (0, restoreLoop ram limit limit 1 (store ram probe 0 (probe.save probe.i)))
  else checkLoop ram maxsize limit limit 1 probe

end Code

/-- The size of the RAM, or `maxsize` if that is less, and no word of the RAM is changed. -/
def Sized (ram : Ram) (maxsize : Nat) (words : Nat → UInt32) : Prop :=
  (getRamSize ram maxsize words).1 = min (2 ^ ram.bits * 4) maxsize ∧
    ∀ word, word < 2 ^ ram.bits → (getRamSize ram maxsize words).2.words word = words word

/-! ### The cells behind the powers of two -/

section Places
variable {ram : Ram} {j n : Nat}

theorem place_inside (small : j < ram.bits) : ram.place (2 ^ j) = some (2 ^ j) := by
  have below : 2 ^ j < 2 ^ ram.bits := Nat.pow_lt_pow_right (by decide) small
  rw [Ram.place, if_pos (ram.inside _ below), Nat.mod_eq_of_lt below]

/-- Behind the RAM a power of two stands for the first word, or for nothing. -/
theorem place_behind (large : ram.bits ≤ j) :
    ram.place (2 ^ j) = if ram.responds (2 ^ j) then some 0 else none := by
  rw [Ram.place, Nat.mod_eq_zero_of_dvd (Nat.pow_dvd_pow 2 large)]

theorem place_base : ram.place 0 = some 0 := by
  rw [Ram.place, if_pos (ram.inside 0 (Nat.two_pow_pos _)), Nat.zero_mod]

theorem place_apart (other : n ≠ j) : ram.place (2 ^ n) ≠ some (2 ^ j) := by
  by_cases inside : n < ram.bits
  · rw [place_inside inside]
    exact fun same => other (Nat.pow_right_injective (Nat.le_refl 2) (Option.some.inj same))
  · rw [place_behind (Nat.not_lt.mp inside)]
    have positive := Nat.two_pow_pos j
    split
    · exact fun same => absurd (Option.some.inj same) (Nat.ne_of_lt positive)
    · exact fun same => by cases same

end Places

/-! ### The saved words are a log -/

/-- The words that were saved for the addresses from 2^n up to 2^(k - 1), which were written from the
top down. -/
def logFrom (save : Nat → UInt32) (k n : Nat) : List (Nat × UInt32) :=
  (List.range' n (k - n)).map fun j => (2 ^ j, save (k - 1 - j))

section Log
variable {save : Nat → UInt32} {k n : Nat}

theorem log_done (done : k ≤ n) : logFrom save k n = [] := by
  rw [logFrom, Nat.sub_eq_zero_of_le done]
  rfl

theorem log_step (more : n < k) :
    logFrom save k n = (2 ^ n, save (k - 1 - n)) :: logFrom save k (n + 1) := by
  have count : k - n = (k - (n + 1)) + 1 := by omega
  rw [logFrom, count, List.range'_succ, List.map_cons]
  rfl

/-- The words that were saved before are kept. -/
theorem log_update (more : n < k) (val : UInt32) :
    logFrom (Function.update save (k - 1 - n) val) k (n + 1) = logFrom save k (n + 1) := by
  apply List.map_congr_left
  intro j member
  have range := List.mem_range'_1.mp member
  rw [Function.update_of_ne (by omega)]

theorem logged_iff {ram : Ram} {cell : Nat} :
    Logged ram.place (logFrom save k n) cell ↔ ∃ j, n ≤ j ∧ j < k ∧ ram.place (2 ^ j) = some cell := by
  simp only [Logged, logFrom, List.mem_map, List.mem_range'_1, exists_exists_and_eq_and]
  constructor
  · rintro ⟨j, range, there⟩
    exact ⟨j, range.1, by omega, there⟩
  · rintro ⟨j, low, high, there⟩
    exact ⟨j, ⟨low, by omega⟩, there⟩

end Log

/-- The state when the addresses from 2^n up to 2^(k - 1) are marked. -/
structure Marked (ram : Ram) (k : Nat) (words : Nat → UInt32) (n : Nat) (probe : Probe) : Prop where
  i : probe.i = k - n
  reads : probe.reads = k - n
  undoes : Undoes ram.place (logFrom probe.save k n) words
  kept : ∀ cell, ¬ Logged ram.place (logFrom probe.save k n) cell → probe.words cell = words cell
  marked : ∀ j, n ≤ j → j < k → j < ram.bits → probe.words (2 ^ j) = ~~~UInt32.ofNat (2 ^ j)

section Loops
variable {ram : Ram} {k n : Nat} {words : Nat → UInt32} {probe : Probe}

theorem load_cell {addr cell : Nat} (there : ram.place addr = some cell) :
    (load ram probe addr).1 = probe.words cell := by
  simp only [load, there]

theorem mark_step (more : n < k) (holds : Marked ram k words (n + 1) probe) :
    Marked ram k words n (store ram { saveWord ram probe (2 ^ n) with
      i := (saveWord ram probe (2 ^ n)).i + 1 } (2 ^ n) (~~~UInt32.ofNat (2 ^ n))) := by
  obtain ⟨i, reads, undoes, kept, marked⟩ := holds
  have index : probe.i = k - 1 - n := by omega
  have log : logFrom (Function.update probe.save probe.i (load ram probe (2 ^ n)).1) k n =
      (2 ^ n, (load ram probe (2 ^ n)).1) :: logFrom probe.save k (n + 1) := by
    rw [log_step more, index, Function.update_self, log_update more]
  constructor
  · change probe.i + 1 = k - n
    omega
  · change probe.reads + 1 = k - n
    omega
  · change Undoes ram.place
      (logFrom (Function.update probe.save probe.i (load ram probe (2 ^ n)).1) k n) words
    rw [log]
    exact undoes_cons undoes kept fun cell there => load_cell there
  · change ∀ cell, ¬ Logged ram.place
        (logFrom (Function.update probe.save probe.i (load ram probe (2 ^ n)).1) k n) cell →
      put ram.place probe.words (2 ^ n) _ cell = words cell
    rw [log]
    intro cell unlogged
    rw [logged_cons] at unlogged
    push Not at unlogged
    rw [put_other unlogged.1]
    exact kept cell unlogged.2
  · intro j low high inside
    change put ram.place probe.words (2 ^ n) _ (2 ^ j) = _
    by_cases here : n = j
    · subst here
      exact put_same (place_inside inside) probe.words _
    · rw [put_other (place_apart here)]
      exact marked j (by omega) high inside

theorem mark_loop (turns : Nat) (order : n ≤ k) (enough : n ≤ turns)
    (holds : Marked ram k words n probe) :
    Marked ram k words 0 (markLoop ram turns (2 ^ n / 2) probe) := by
  induction turns generalizing n probe with
  | zero =>
      rw [Nat.le_zero.mp enough] at holds
      exact holds
  | succ turns ih =>
      rw [markLoop]
      cases n with
      | zero =>
          rw [if_neg (by decide)]
          exact holds
      | succ n =>
          rw [Nat.pow_succ, Nat.mul_div_cancel _ (by decide), if_pos (Nat.two_pow_pos n)]
          exact ih (by omega) (by omega) (mark_step (by omega) holds)

/-- An index of the loops is below the limit. -/
def Limits (limit k : Nat) : Prop := ∀ n, 2 ^ n < limit ↔ n < k

theorem restore_loop {limit : Nat} (limits : Limits limit k) (turns : Nat) (enough : k - n ≤ turns)
    (index : probe.i = k - n) : (restoreLoop ram limit turns (2 ^ n) probe).words =
      undo ram.place (logFrom probe.save k n) probe.words := by
  induction turns generalizing n probe with
  | zero =>
      rw [log_done (by omega)]
      rfl
  | succ turns ih =>
      rw [restoreLoop]
      by_cases more : n < k
      · have next : 2 * 2 ^ n = 2 ^ (n + 1) := by rw [Nat.pow_succ, Nat.mul_comm]
        have place : probe.i - 1 = k - 1 - n := by omega
        rw [if_pos ((limits n).mpr more), next, ih (by omega) (by
          change probe.i - 1 = k - (n + 1)
          omega), log_step more]
        change undo ram.place _ (put ram.place probe.words (2 ^ n) (probe.save (probe.i - 1))) = _
        rw [place]
        rfl
      · rw [if_neg fun below => more ((limits n).mp below), log_done (Nat.not_lt.mp more)]
        rfl

/-- The last loop restores the same words, wherever it stops. -/
theorem check_words {limit : Nat} (limits : Limits limit k) (maxsize turns : Nat)
    (enough : k - n ≤ turns) (index : probe.i = k - n) :
    (checkLoop ram maxsize limit turns (2 ^ n) probe).2.words =
      undo ram.place (logFrom probe.save k n) probe.words := by
  induction turns generalizing n probe with
  | zero =>
      rw [log_done (by omega)]
      rfl
  | succ turns ih =>
      rw [checkLoop]
      by_cases more : n < k
      · have next : 2 * 2 ^ n = 2 ^ (n + 1) := by rw [Nat.pow_succ, Nat.mul_comm]
        have place : probe.i - 1 = k - 1 - n := by omega
        have restored : undo ram.place (logFrom probe.save k (n + 1))
            (restoreWord ram (load ram probe (2 ^ n)).2 (2 ^ n)).words =
              undo ram.place (logFrom probe.save k n) probe.words := by
          rw [log_step more]
          change undo ram.place _ (put ram.place probe.words (2 ^ n) (probe.save (probe.i - 1))) = _
          rw [place]
          rfl
        have later : (restoreWord ram (load ram probe (2 ^ n)).2 (2 ^ n)).i = k - (n + 1) := by
          change probe.i - 1 = k - (n + 1)
          omega
        rw [if_pos ((limits n).mpr more), next]
        dsimp only
        split
        · exact (restore_loop limits turns (by omega) later).trans restored
        · exact (ih (by omega) later).trans restored
      · rw [if_neg fun below => more ((limits n).mp below), log_done (Nat.not_lt.mp more)]
        rfl

end Loops

/-! ### The size -/

/-- The state of the last loop when it comes to the address 2^n without having left before. -/
structure Checked (ram : Ram) (k n : Nat) (probe : Probe) : Prop where
  reads : probe.reads = k + 2 + n
  base : probe.words 0 = 0
  marked : ∀ j, n ≤ j → j < k → j < ram.bits → probe.words (2 ^ j) = ~~~UInt32.ofNat (2 ^ j)

/-- At the first address behind the RAM the RAM answers again, or the bus does not show the mark. -/
def Noticed (ram : Ram) (k : Nat) : Prop :=
  ram.responds (2 ^ ram.bits) = true ∨
    ram.idle (k + 2 + ram.bits) ≠ ~~~UInt32.ofNat (2 ^ ram.bits)

section Size
variable {ram : Ram} {k n limit maxsize : Nat} {probe : Probe}

theorem mark_nonzero (n : Nat) : 0 ≠ ~~~UInt32.ofNat (2 ^ n) := by
  by_cases small : n < 32
  · interval_cases n <;> decide
  · have zero : UInt32.ofNat (2 ^ n) = 0 := by
      apply UInt32.toNat_inj.mp
      rw [UInt32.toNat_ofNat', Nat.mod_eq_zero_of_dvd (Nat.pow_dvd_pow 2 (Nat.not_lt.mp small))]
      rfl
    rw [zero]
    decide

theorem check_size_ge (limits : Limits limit k) (whole : 2 ^ k * 4 ≤ maxsize) (turns : Nat)
    (order : n ≤ k) : 2 ^ n * 4 ≤ (checkLoop ram maxsize limit turns (2 ^ n) probe).1 := by
  have power : 2 ^ n ≤ 2 ^ k := Nat.pow_le_pow_right (by decide) order
  induction turns generalizing n probe with
  | zero =>
      change 2 ^ n * 4 ≤ maxsize
      omega
  | succ turns ih =>
      rw [checkLoop]
      by_cases more : n < k
      · have next : 2 * 2 ^ n = 2 ^ (n + 1) := by rw [Nat.pow_succ, Nat.mul_comm]
        rw [if_pos ((limits n).mpr more), next]
        dsimp only
        split
        · exact Nat.le_refl _
        · refine Nat.le_trans ?_ (ih more (Nat.pow_le_pow_right (by decide) more))
          rw [Nat.pow_succ]
          omega
      · rw [if_neg fun below => more ((limits n).mp below)]
        dsimp only
        omega

theorem checked_step (inside : n < ram.bits) (holds : Checked ram k n probe) :
    Checked ram k (n + 1) (restoreWord ram (load ram probe (2 ^ n)).2 (2 ^ n)) := by
  obtain ⟨reads, base, marked⟩ := holds
  constructor
  · change probe.reads + 1 = k + 2 + (n + 1)
    omega
  · change put ram.place probe.words (2 ^ n) _ 0 = 0
    rw [put_other, base]
    rw [place_inside inside]
    exact fun same => absurd (Option.some.inj same) (Nat.ne_of_gt (Nat.two_pow_pos n))
  · intro j low high small
    change put ram.place probe.words (2 ^ n) _ (2 ^ j) = _
    rw [put_other (place_apart (by omega))]
    exact marked j (by omega) high small

/-- The last loop comes through the RAM, and looks at the address behind it. -/
theorem check_size (limits : Limits limit k) (whole : 0 < k → 2 ^ k * 4 ≤ maxsize) (turns : Nat)
    (enough : k - n ≤ turns) (order : n ≤ k) (inside : n ≤ ram.bits) (holds : Checked ram k n probe) :
    (k ≤ ram.bits → (checkLoop ram maxsize limit turns (2 ^ n) probe).1 = maxsize) ∧
      (ram.bits < k → ((checkLoop ram maxsize limit turns (2 ^ n) probe).1 = 2 ^ ram.bits * 4 ↔
        Noticed ram k)) := by
  induction turns generalizing n probe with
  | zero => exact ⟨fun _ => rfl, fun behind => by omega⟩
  | succ turns ih =>
      rw [checkLoop]
      by_cases more : n < k
      · have next : 2 * 2 ^ n = 2 ^ (n + 1) := by rw [Nat.pow_succ, Nat.mul_comm]
        rw [if_pos ((limits n).mpr more), next]
        dsimp only
        by_cases within : n < ram.bits
        · have mark : (load ram probe (2 ^ n)).1 = ~~~UInt32.ofNat (2 ^ n) :=
            (load_cell (place_inside within)).trans (holds.marked n (Nat.le_refl n) more within)
          rw [if_neg (not_not.mpr mark)]
          exact ih (by omega) more within (checked_step within holds)
        · have last : n = ram.bits := by omega
          subst last
          refine ⟨fun whole => absurd more (Nat.not_lt.mpr whole), fun _ => ?_⟩
          have seen : (load ram probe (2 ^ ram.bits)).1 ≠ ~~~UInt32.ofNat (2 ^ ram.bits) ↔
              Noticed ram k := by
            unfold Noticed
            by_cases answers : ram.responds (2 ^ ram.bits) = true
            · have zero : ram.place (2 ^ ram.bits) = some 0 := by
                rw [place_behind (Nat.le_refl _), if_pos answers]
              rw [load_cell zero, holds.base]
              exact iff_of_true (mark_nonzero _) (Or.inl answers)
            · have nothing : ram.place (2 ^ ram.bits) = none := by
                rw [place_behind (Nat.le_refl _), if_neg answers]
              simp only [load, nothing, holds.reads]
              exact (or_iff_right answers).symm
          rw [← seen]
          split
          · exact iff_of_true rfl ‹_›
          · rename_i same
            refine iff_of_false (Nat.ne_of_gt ?_) same
            refine Nat.lt_of_lt_of_le ?_ (check_size_ge limits (whole (by omega)) turns more)
            have positive := Nat.two_pow_pos ram.bits
            rw [Nat.pow_succ]
            omega
      · have done : n = k := by omega
        rw [if_neg fun below => more ((limits n).mp below)]
        exact ⟨fun _ => rfl, fun behind => by omega⟩

end Size

/-! ### The whole function -/

/-- The state when the last loop begins. -/
structure Ready (ram : Ram) (k : Nat) (words : Nat → UInt32) (probe : Probe) : Prop where
  i : probe.i = k
  undoes : Undoes ram.place (logFrom probe.save k 0) words
  kept : ∀ cell, cell ≠ 0 → ¬ Logged ram.place (logFrom probe.save k 0) cell →
    probe.words cell = words cell
  checked : Checked ram k 0 probe

section Whole
variable {ram : Ram} {k m : Nat} {words : Nat → UInt32} {probe : Probe}

theorem limit_facts (m : Nat) : Limits (2 ^ m / 4) (m - 2) ∧ 2 ^ m / 4 / 2 = 2 ^ (m - 2) / 2 ∧
    m - 2 ≤ 2 ^ m / 4 := by
  by_cases large : 2 ≤ m
  · obtain ⟨k, rfl⟩ := Nat.exists_eq_add_of_le large
    have quarter : 2 ^ (2 + k) / 4 = 2 ^ k := by
      rw [Nat.pow_add, Nat.mul_div_cancel_left _ (by decide)]
    rw [quarter, Nat.add_sub_cancel_left]
    exact ⟨fun n => Nat.pow_lt_pow_iff_right (by decide), rfl, Nat.le_of_lt Nat.lt_two_pow_self⟩
  · have tiny : m = 0 ∨ m = 1 := by omega
    rcases tiny with rfl | rfl
    · exact ⟨fun n => by simp, rfl, Nat.le_refl _⟩
    · exact ⟨fun n => by simp, rfl, Nat.le_refl _⟩

theorem base_step (holds : Marked ram k words 0 probe) :
    Ready ram k words (load ram (store ram (saveWord ram probe 0) 0 0) 0).2 ∧
      (load ram (store ram (saveWord ram probe 0) 0 0) 0).1 = 0 := by
  obtain ⟨i, reads, undoes, kept, marked⟩ := holds
  have log : logFrom (Function.update probe.save probe.i (load ram probe 0).1) k 0 =
      logFrom probe.save k 0 := by
    apply List.map_congr_left
    intro j member
    have range := List.mem_range'_1.mp member
    rw [Function.update_of_ne (by omega)]
  have base : (put ram.place probe.words 0 (0 : UInt32)) 0 = 0 := put_same place_base probe.words 0
  have other : ∀ cell, cell ≠ 0 → put ram.place probe.words 0 (0 : UInt32) cell = probe.words cell := by
    intro cell positive
    apply put_other
    rw [place_base]
    exact fun same => positive (Option.some.inj same).symm
  refine ⟨⟨?_, ?_, ?_, ?_, ?_, ?_⟩, (load_cell place_base).trans base⟩
  · exact i
  · change Undoes ram.place
      (logFrom (Function.update probe.save probe.i (load ram probe 0).1) k 0) words
    rw [log]
    exact undoes
  · change ∀ cell, cell ≠ 0 → ¬ Logged ram.place
      (logFrom (Function.update probe.save probe.i (load ram probe 0).1) k 0) cell →
        put ram.place probe.words 0 (0 : UInt32) cell = words cell
    rw [log]
    intro cell positive unlogged
    rw [other cell positive, kept cell unlogged]
  · change probe.reads + 1 + 1 = k + 2 + 0
    omega
  · exact base
  · intro j low high inside
    exact (other _ (Nat.ne_of_gt (Nat.two_pow_pos j))).trans (marked j low high inside)

/-- The first word is written and read back, so that the last loop decides. -/
theorem get_ram_size_eq (ram : Ram) (m : Nat) (words : Nat → UInt32) :
    ∃ probe, Ready ram (m - 2) words probe ∧ getRamSize ram (2 ^ m) words =
      checkLoop ram (2 ^ m) (2 ^ m / 4) (2 ^ m / 4) (2 ^ 0) probe := by
  obtain ⟨limits, half, enough⟩ := limit_facts m
  have start : Marked ram (m - 2) words (m - 2) ⟨words, 0, fun _ => 0, 0⟩ := by
    have log : logFrom (fun _ => 0) (m - 2) (m - 2) = [] := log_done (Nat.le_refl (m - 2))
    constructor
    · exact (Nat.sub_self _).symm
    · exact (Nat.sub_self _).symm
    · change Undoes ram.place (logFrom (fun _ => 0) (m - 2) (m - 2)) words
      rw [log]
      exact undoes_nil words
    · exact fun _ _ => rfl
    · intro j low high
      omega
  have marked := mark_loop (2 ^ m / 4) (Nat.le_refl _) enough start
  obtain ⟨ready, zero⟩ := base_step marked
  refine ⟨_, ready, ?_⟩
  unfold getRamSize
  dsimp only
  rw [half, zero, if_neg (not_not.mpr rfl)]
  rfl

/-- The first word gets its value back if it was zero, or if a marked address behind the RAM stands
for it. -/
def BaseKept (ram : Ram) (m : Nat) (words : Nat → UInt32) : Prop :=
  words 0 = 0 ∨ ∃ j, ram.bits ≤ j ∧ j < m - 2 ∧ ram.responds (2 ^ j) = true

theorem base_logged (save : Nat → UInt32) : Logged ram.place (logFrom save (m - 2) 0) 0 ↔
    ∃ j, ram.bits ≤ j ∧ j < m - 2 ∧ ram.responds (2 ^ j) = true := by
  rw [logged_iff]
  constructor
  · rintro ⟨j, -, high, there⟩
    by_cases inside : j < ram.bits
    · rw [place_inside inside] at there
      exact absurd (Option.some.inj there) (Nat.ne_of_gt (Nat.two_pow_pos j))
    · rw [place_behind (Nat.not_lt.mp inside)] at there
      refine ⟨j, Nat.not_lt.mp inside, high, ?_⟩
      by_contra silent
      rw [if_neg silent] at there
      cases there
  · rintro ⟨j, behind, high, answers⟩
    refine ⟨j, Nat.zero_le j, high, ?_⟩
    rw [place_behind behind, if_pos answers]

/-- All other words get their values back. -/
theorem words_kept_iff (ram : Ram) (m : Nat) (words : Nat → UInt32) :
    (∀ word, word < 2 ^ ram.bits → (getRamSize ram (2 ^ m) words).2.words word = words word) ↔
      BaseKept ram m words := by
  obtain ⟨probe, ready, same⟩ := get_ram_size_eq ram m words
  obtain ⟨limits, -, enough⟩ := limit_facts m
  rw [same, check_words limits (2 ^ m) (2 ^ m / 4) enough ready.i, BaseKept,
    ← base_logged probe.save]
  constructor
  · intro all
    by_cases logged : Logged ram.place (logFrom probe.save (m - 2) 0) 0
    · exact Or.inr logged
    · refine Or.inl ?_
      rw [← all 0 (Nat.two_pow_pos _), (ready.undoes probe.words 0).2 logged]
      exact ready.checked.base
  · intro base word _
    by_cases logged : Logged ram.place (logFrom probe.save (m - 2) 0) word
    · exact (ready.undoes probe.words word).1 logged
    · rw [(ready.undoes probe.words word).2 logged]
      by_cases first : word = 0
      · subst first
        exact ready.checked.base.trans (base.resolve_right logged).symm
      · exact ready.kept word first logged

theorem size_found_iff (ram : Ram) (m : Nat) (words : Nat → UInt32) :
    (getRamSize ram (2 ^ m) words).1 = min (2 ^ ram.bits * 4) (2 ^ m) ↔
      (ram.bits < m - 2 → Noticed ram (m - 2)) := by
  obtain ⟨probe, ready, same⟩ := get_ram_size_eq ram m words
  obtain ⟨limits, -, enough⟩ := limit_facts m
  have power : ∀ n, 2 ^ n * 4 = 2 ^ (n + 2) := fun n => (Nat.pow_add 2 n 2).symm
  have whole : 0 < m - 2 → 2 ^ (m - 2) * 4 ≤ 2 ^ m := by
    intro positive
    rw [power]
    exact Nat.pow_le_pow_right (by decide) (by omega)
  obtain ⟨all, part⟩ := check_size limits whole (2 ^ m / 4) enough (Nat.zero_le _) (Nat.zero_le _)
    ready.checked
  rw [same]
  by_cases small : ram.bits < m - 2
  · have less : 2 ^ ram.bits * 4 ≤ 2 ^ m := by
      rw [power]
      exact Nat.pow_le_pow_right (by decide) (by omega)
    rw [Nat.min_eq_left less]
    exact (part small).trans ⟨fun noticed _ => noticed, fun noticed => noticed small⟩
  · have more : 2 ^ m ≤ 2 ^ ram.bits * 4 := by
      rw [power]
      exact Nat.pow_le_pow_right (by decide) (by omega)
    rw [Nat.min_eq_right more]
    exact iff_of_true (all (Nat.not_lt.mp small)) fun below => absurd below small

end Whole

/-- get_ram_size with a power of two meets its description exactly when the first word gets its
value back and the bus does not show the mark of an address where nothing answers. -/
theorem get_ram_size_iff (ram : Ram) (m : Nat) (words : Nat → UInt32) :
    Sized ram (2 ^ m) words ↔
      BaseKept ram m words ∧ (ram.bits < m - 2 → Noticed ram (m - 2)) := by
  rw [Sized, size_found_iff, words_kept_iff]
  exact And.comm

/-- Four words of RAM. -/
def fourWords : Ram where
  bits := 2
  responds := fun word => word < 4
  inside := fun _ below => decide_eq_true below
  idle := fun _ => 0

/-- The size is right, and the first word is lost. -/
theorem first_word_lost : ¬ Sized fourWords 16 fun _ => 0x12345678 := by
  rintro ⟨-, kept⟩
  exact absurd (kept 0 (by decide)) (by decide)

end UBoot.Common.Memsize
