import UBoot.Lib.Strings

/-!
readline of the monitor. The buffer, its pointer p, the count n and the display
column col are kept next to each other; together they stand for the list of
characters that the keys make.
-/

namespace UBoot.Shell.Readline

open Lib.Strings

/-- The size of console_buffer has room for a character, its NUL and one byte more. -/
structure Console where
  cbsize : Nat
  room : 2 ≤ cbsize

/-- A prompt whose characters take one column each. -/
structure Prompt where
  text : List UInt8
  printable : ∀ c ∈ text, 32 ≤ c ∧ c < 127

/-- The variables of readline; `p` is an offset into console_buffer. -/
structure Input where
  buffer : Int → UInt8
  p : Int
  n : Int
  col : Int

def plen (prompt : Prompt) : Int := prompt.text.length

/-- The column behind a character that is put out at `col`. -/
def advance (col : Int) (c : UInt8) : Int := if c = 9 then col + (8 - col % 8) else col + 1

/-- The loop that puts out the erase sequence. -/
def eraseTo (plen col : Int) : Int := if plen < col then plen else col

/-- The bytes from the start of the buffer to `p`. -/
def typed (buffer : Int → UInt8) (p : Int) : List UInt8 :=
  (List.range p.toNat).map fun i : Nat => buffer i

def deleteChar (plen : Int) (input : Input) : Input :=
  if input.n = 0 then input
  else
    let p := input.p - 1
    let col :=
      if input.buffer p = 9 then
        -- will retype the whole line
        (typed input.buffer p).foldl advance (eraseTo plen input.col)
      else input.col - 1
    { input with p := p, col := col, n := input.n - 1 }

/-- The loop of the word erase. It runs at most as often as there are characters. -/
def eraseRest (plen : Int) : (count : Nat) → Input → Input
  | 0, input => input
  | count + 1, input =>
      if 0 < input.n ∧ input.buffer input.p ≠ 32 then eraseRest plen count (deleteChar plen input)
      else input

def eraseWord (plen : Int) (input : Input) : Input :=
  let first := deleteChar plen input
  eraseRest plen first.n.toNat first

def store (buffer : Int → UInt8) (p : Int) (c : UInt8) : Int → UInt8 := Function.update buffer p c

/-- What one character does: readline goes on, or returns a value and leaves the buffer. -/
def readKey (console : Console) (plen : Int) (input : Input) (c : UInt8) :
    Input ⊕ (Int × (Int → UInt8)) :=
  if c = 13 ∨ c = 10 then .inr (input.p, store input.buffer input.p 0)
  else if c = 0 then .inl input
  else if c = 3 then .inr (-1, store input.buffer 0 0)
  else if c = 21 then .inl { input with p := 0, n := 0, col := eraseTo plen input.col }
  else if c = 23 then .inl (eraseWord plen input)
  else if c = 8 ∨ c = 127 then .inl (deleteChar plen input)
  else if input.n < console.cbsize - 2 then
    .inl { input with
      buffer := store input.buffer input.p c
      p := input.p + 1
      n := input.n + 1
      col := advance input.col c }
  else .inl input

def readKeys (console : Console) (plen : Int) : List UInt8 → Input → Input ⊕ (Int × (Int → UInt8))
  | [], input => .inl input
  | c :: keys, input =>
      match readKey console plen input c with
      | .inl next => readKeys console plen keys next
      | .inr returned => .inr returned

def readline (console : Console) (prompt : Prompt) (buffer : Int → UInt8) (keys : List UInt8) :
    Input ⊕ (Int × (Int → UInt8)) :=
  readKeys console (plen prompt) keys ⟨buffer, 0, 0, plen prompt⟩

/-! ### The keys on a list of characters -/

/-- A line that is being edited, or has been entered, or thrown away. -/
inductive Edited where
  | editing (line : List UInt8)
  | entered (line : List UInt8)
  | broken

def withoutWord (line : List UInt8) : List UInt8 :=
  ((line.reverse.dropWhile fun c => c ≠ 32).drop 1).reverse

def editKey (console : Console) (line : List UInt8) (c : UInt8) : Edited :=
  if c = 13 ∨ c = 10 then .entered line
  else if c = 0 then .editing line
  else if c = 3 then .broken
  else if c = 21 then .editing []
  else if c = 23 then .editing (withoutWord line)
  else if c = 8 ∨ c = 127 then .editing line.dropLast
  else if line.length < console.cbsize - 2 then .editing (line ++ [c])
  else .editing line

def editKeys (console : Console) : List UInt8 → List UInt8 → Edited
  | [], line => .editing line
  | c :: keys, line =>
      match editKey console line c with
      | .editing next => editKeys console keys next
      | ended => ended

/-- The display column behind a text at the start of a line. -/
def column (text : List UInt8) : Int := text.foldl advance 0

/-- The buffer, the count and the column show a line. -/
structure Shown (console : Console) (prompt : Prompt) (line : List UInt8) (input : Input) : Prop where
  p : input.p = line.length
  n : input.n = line.length
  col : input.col = column (prompt.text ++ line)
  text : typed input.buffer input.p = line
  solid : 0 ∉ line
  bound : line.length ≤ console.cbsize - 2

/-- What readline has come to shows what the keys have made. -/
def Agrees (console : Console) (prompt : Prompt) : Edited → Input ⊕ (Int × (Int → UInt8)) → Prop
  | .editing line, .inl input => Shown console prompt line input
  | .entered line, .inr (value, buffer) =>
      value = line.length ∧ typed buffer line.length = line ∧ buffer line.length = 0 ∧ 0 ∉ line ∧
        line.length ≤ console.cbsize - 2
  | .broken, .inr (value, buffer) => value = -1 ∧ buffer 0 = 0
  | _, _ => False

/-! ### Columns and the bytes in front of p -/

theorem advance_gt (col : Int) (c : UInt8) : col < advance col c := by
  unfold advance
  split <;> omega

theorem columns_grow (text : List UInt8) (col : Int) : col ≤ text.foldl advance col := by
  induction text generalizing col with
  | nil => exact le_refl col
  | cons c text induction => exact (advance_gt col c).le.trans (induction _)

theorem prompt_column (prompt : Prompt) : column prompt.text = plen prompt := by
  have plain : ∀ text : List UInt8, (∀ c ∈ text, 32 ≤ c ∧ c < 127) → ∀ col : Int,
      text.foldl advance col = col + text.length := by
    intro text printable
    induction text with
    | nil => exact fun col => (Int.add_zero col).symm
    | cons c text induction =>
        intro col
        have visible : c ≠ 9 := by
          rintro rfl
          exact absurd (printable 9 List.mem_cons_self).1 (by decide)
        rw [List.foldl_cons, induction fun d member => printable d (List.mem_cons_of_mem c member),
          advance, if_neg visible, List.length_cons]
        omega
  unfold column plen
  rw [plain prompt.text prompt.printable, Int.zero_add]

theorem line_column (prompt : Prompt) (line : List UInt8) :
    column (prompt.text ++ line) = line.foldl advance (plen prompt) := by
  rw [column, List.foldl_append, ← prompt_column, column]

theorem typed_snoc (buffer : Int → UInt8) (count : Nat) :
    typed buffer (count + 1 : Int) = typed buffer count ++ [buffer count] := by
  unfold typed
  rw [show ((count : Int) + 1).toNat = count + 1 from rfl, List.range_succ, List.map_append]
  rfl

theorem typed_store (buffer : Int → UInt8) (count : Nat) (c : UInt8) :
    typed (store buffer count c) count = typed buffer count := by
  apply List.map_congr_left
  intro i member
  have below : i < count := List.mem_range.mp member
  exact Function.update_of_ne (by omega) _ _

section Editing

variable {console : Console} {prompt : Prompt}

theorem delete_empty {input : Input} (shown : Shown console prompt [] input) (plen : Int) :
    deleteChar plen input = input := if_pos shown.n

theorem delete_last {input : Input} {line : List UInt8} {c : UInt8}
    (shown : Shown console prompt (line ++ [c]) input) :
    Shown console prompt line (deleteChar (plen prompt) input) ∧
      (deleteChar (plen prompt) input).buffer (deleteChar (plen prompt) input).p = c := by
  have length : (line ++ [c]).length = line.length + 1 := List.length_append
  have count := shown.n
  have place : input.p - 1 = line.length := by
    have at_end := shown.p
    omega
  have text := shown.text
  rw [show input.p = (line.length + 1 : Int) by omega, typed_snoc] at text
  obtain ⟨front, last⟩ := List.append_inj' text rfl
  have last : input.buffer line.length = c := List.singleton_inj.mp last
  have col := shown.col
  rw [line_column, List.foldl_append] at col
  have behind := columns_grow line (plen prompt)
  have more := advance_gt (line.foldl advance (plen prompt)) c
  have solid := shown.solid
  rw [List.mem_append, not_or] at solid
  have bound := shown.bound
  unfold deleteChar
  rw [if_neg (by omega)]
  dsimp only
  rw [place, last, front]
  refine ⟨⟨rfl, by dsimp only; omega, ?_, front, solid.1, by omega⟩, rfl⟩
  rw [line_column]
  dsimp only
  by_cases tab : c = 9
  · rw [if_pos tab, eraseTo, if_pos]
    rw [col]
    exact lt_of_le_of_lt behind more
  · rw [if_neg tab, col, List.foldl_cons, List.foldl_nil, advance, if_neg tab]
    omega

theorem without_word_snoc (line : List UInt8) (c : UInt8) :
    withoutWord (line ++ [c]) = if c = 32 then line else withoutWord line := by
  unfold withoutWord
  rw [List.reverse_append, List.reverse_singleton, List.singleton_append, List.dropWhile_cons]
  by_cases space : c = 32
  · simp [space]
  · simp [space]

/-- The characters are deleted one by one to the last space, which goes with them. -/
theorem erase_rest {input : Input} {line : List UInt8}
    (shown : Shown console prompt line input) (count : Nat) (enough : line.length ≤ count) :
    Shown console prompt (if input.buffer input.p = 32 then line else withoutWord line)
      (eraseRest (plen prompt) count input) := by
  induction count generalizing input line with
  | zero =>
      have empty := List.eq_nil_of_length_eq_zero (Nat.le_zero.mp enough)
      subst empty
      have stays : (if input.buffer input.p = 32 then [] else withoutWord []) = [] := by
        split <;> rfl
      rw [stays]
      exact shown
  | succ count induction =>
      rw [eraseRest]
      by_cases space : input.buffer input.p = 32
      · rw [if_pos space, if_neg fun more => more.2 space]
        exact shown
      · rw [if_neg space]
        rcases List.eq_nil_or_concat line with empty | ⟨front, c, same⟩
        · subst empty
          have none := shown.n
          rw [if_neg fun more => absurd more.1 (by rw [none]; decide)]
          exact shown
        · rw [List.concat_eq_append] at same
          subst same
          have some_left := shown.n
          rw [List.length_append, List.length_singleton] at some_left enough
          obtain ⟨next, last⟩ := delete_last shown
          rw [if_pos ⟨by omega, space⟩, without_word_snoc, ← last]
          exact induction next (by omega)

theorem erase_word {input : Input} {line : List UInt8} (shown : Shown console prompt line input) :
    Shown console prompt (withoutWord line) (eraseWord (plen prompt) input) := by
  unfold eraseWord
  rcases List.eq_nil_or_concat line with empty | ⟨front, c, same⟩
  · subst empty
    have none := shown.n
    rw [delete_empty shown]
    dsimp only
    rw [none]
    exact shown
  · rw [List.concat_eq_append] at same
    subst same
    obtain ⟨next, last⟩ := delete_last shown
    have count : front.length ≤ (deleteChar (plen prompt) input).n.toNat := by
      have left := next.n
      omega
    rw [without_word_snoc, ← last]
    exact erase_rest next _ count

theorem erase_line {input : Input} {line : List UInt8} (shown : Shown console prompt line input) :
    Shown console prompt []
      { input with p := 0, n := 0, col := eraseTo (plen prompt) input.col } := by
  have behind := columns_grow line (plen prompt)
  have col := shown.col
  rw [line_column] at col
  refine ⟨rfl, rfl, ?_, rfl, List.not_mem_nil, Nat.zero_le _⟩
  rw [line_column]
  dsimp only [List.foldl_nil]
  unfold eraseTo
  split <;> omega

theorem delete_one {input : Input} {line : List UInt8} (shown : Shown console prompt line input) :
    Shown console prompt line.dropLast (deleteChar (plen prompt) input) := by
  rcases List.eq_nil_or_concat line with empty | ⟨front, c, same⟩
  · subst empty
    rw [delete_empty shown]
    exact shown
  · rw [List.concat_eq_append] at same
    subst same
    rw [List.dropLast_concat]
    exact (delete_last shown).1

theorem put_shown {input : Input} {line : List UInt8} {c : UInt8}
    (shown : Shown console prompt line input) (text : c ≠ 0)
    (room : line.length < console.cbsize - 2) :
    Shown console prompt (line ++ [c])
      { input with
        buffer := store input.buffer input.p c
        p := input.p + 1
        n := input.n + 1
        col := advance input.col c } := by
  have place := shown.p
  have count := shown.n
  constructor
  · simp [place]
  · simp [count]
  · dsimp only
    rw [shown.col, line_column, line_column, List.foldl_append, List.foldl_cons, List.foldl_nil]
  · have front := shown.text
    dsimp only
    rw [place] at front ⊢
    rw [typed_snoc, typed_store, front]
    exact congrArg _ (congrArg (fun d => [d]) (Function.update_self ..))
  · rw [List.mem_append, not_or]
    exact ⟨shown.solid, by simpa using text.symm⟩
  · rw [List.length_append, List.length_singleton]
    omega

/-- A key does to the buffer what it does to the line. -/
theorem read_key {input : Input} {line : List UInt8} (shown : Shown console prompt line input)
    (c : UInt8) :
    Agrees console prompt (editKey console line c) (readKey console (plen prompt) input c) := by
  unfold editKey readKey
  by_cases enter : c = 13 ∨ c = 10
  · rw [if_pos enter, if_pos enter, shown.p]
    have text := shown.text
    rw [shown.p] at text
    refine ⟨rfl, ?_, Function.update_self .., shown.solid, shown.bound⟩
    rw [typed_store, text]
  rw [if_neg enter, if_neg enter]
  by_cases nul : c = 0
  · rw [if_pos nul, if_pos nul]
    exact shown
  rw [if_neg nul, if_neg nul]
  by_cases broken : c = 3
  · rw [if_pos broken, if_pos broken]
    exact ⟨rfl, Function.update_self ..⟩
  rw [if_neg broken, if_neg broken]
  by_cases kill : c = 21
  · rw [if_pos kill, if_pos kill]
    exact erase_line shown
  rw [if_neg kill, if_neg kill]
  by_cases word : c = 23
  · rw [if_pos word, if_pos word]
    exact erase_word shown
  rw [if_neg word, if_neg word]
  by_cases back : c = 8 ∨ c = 127
  · rw [if_pos back, if_pos back]
    exact delete_one shown
  rw [if_neg back, if_neg back]
  have count := shown.n
  have size := console.room
  by_cases room : line.length < console.cbsize - 2
  · rw [if_pos room, if_pos (by omega)]
    exact put_shown shown nul room
  · rw [if_neg room, if_neg (by omega)]
    exact shown

end Editing

/-- For all keys, readline does what they do to a list of characters. -/
theorem readline_edits (console : Console) (prompt : Prompt) (buffer : Int → UInt8)
    (keys : List UInt8) :
    Agrees console prompt (editKeys console keys []) (readline console prompt buffer keys) := by
  have along : ∀ (line : List UInt8) (input : Input), Shown console prompt line input →
      Agrees console prompt (editKeys console keys line) (readKeys console (plen prompt) keys input) := by
    induction keys with
    | nil => exact fun line input shown => shown
    | cons c keys induction =>
        intro line input shown
        have step := read_key shown c
        unfold editKeys readKeys
        cases edited : editKey console line c with
        | editing next =>
            rw [edited] at step
            cases read : readKey console (plen prompt) input c with
            | inl after =>
                rw [read] at step
                exact induction next after step
            | inr returned =>
                rw [read] at step
                exact step.elim
        | entered done =>
            rw [edited] at step
            cases read : readKey console (plen prompt) input c with
            | inl after =>
                rw [read] at step
                exact step.elim
            | inr returned =>
                rw [read] at step
                exact step
        | broken =>
            rw [edited] at step
            cases read : readKey console (plen prompt) input c with
            | inl after =>
                rw [read] at step
                exact step.elim
            | inr returned =>
                rw [read] at step
                exact step
  apply along
  refine ⟨rfl, rfl, ?_, rfl, List.not_mem_nil, Nat.zero_le _⟩
  rw [List.append_nil, prompt_column]

end UBoot.Shell.Readline
