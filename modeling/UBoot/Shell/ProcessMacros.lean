import UBoot.Lib.Strings

/-!
process_macros of the monitor. It copies a command and replaces the variables in
it, into an output of a fixed size. `expansion` says what it would write with
room for everything; the output is as much of that as fits.
-/

namespace UBoot.Shell.ProcessMacros

open Lib.Strings

/-- What the loop waits for: `$`, an opening bracket, a closing bracket or a quote. -/
inductive MacroState where
  | waitDollar
  | waitOpen
  | waitClose
  | waitQuote
  deriving DecidableEq

/-- The variables of the loop. `varname` is the input from varname_start to where it is read. -/
structure Macros where
  state : MacroState
  prev : UInt8
  varname : List UInt8
  output : List UInt8
  outputcnt : Nat

def Macros.put (macros : Macros) (c : UInt8) : Macros :=
  { macros with output := macros.output ++ [c], outputcnt := macros.outputcnt - 1 }

def copyValue : List UInt8 → Macros → Macros
  | [], macros => macros
  | c :: envval, macros =>
      if macros.outputcnt = 0 then macros else copyValue envval (macros.put c)

section Environment

variable (getenv : List UInt8 → Option CString)

/-- The switch of the loop. The characters are `'`, `$`, the brackets and the backslash. -/
def act (macros : Macros) (c : UInt8) : Macros :=
  match macros.state with
  | .waitDollar =>
      if c = 39 ∧ macros.prev ≠ 92 then { macros with state := .waitQuote }
      else if c = 36 ∧ macros.prev ≠ 92 then { macros with state := .waitOpen }
      else macros.put c
  | .waitOpen =>
      if c = 40 ∨ c = 123 then { macros with state := .waitClose, varname := [] }
      else
        let dollar := { macros with state := .waitDollar }.put 36
        if dollar.outputcnt ≠ 0 then dollar.put c else dollar
  | .waitClose =>
      if c = 41 ∨ c = 125 then
        let found := { macros with state := .waitDollar }
        match getenv macros.varname with
        | none => found
        | some envval => copyValue envval.bytes found
      else { macros with varname := macros.varname ++ [c] }
  | .waitQuote =>
      if c = 39 ∧ macros.prev ≠ 92 then { macros with state := .waitDollar } else macros.put c

def processLoop : List UInt8 → Macros → Macros
  | [], macros => macros
  | c :: rest, macros =>
      if macros.outputcnt = 0 then macros
      else if macros.state ≠ .waitQuote ∧ c = 92 ∧ macros.prev ≠ 92 then
        -- remove one level of escape characters
        match rest with
        | [] => macros
        | d :: rest =>
            let escaped := { macros with prev := 92, varname := macros.varname ++ [92] }
            processLoop rest { act getenv escaped d with prev := d }
      else processLoop rest { act getenv macros c with prev := c }

/-- The bytes that process_macros writes to its output. -/
def processMacros (cbsize : Nat) (input : List UInt8) : List UInt8 :=
  let macros := processLoop getenv input ⟨.waitDollar, 0, [], [], cbsize⟩
  if macros.outputcnt ≠ 0 then macros.output ++ [0] else macros.output

end Environment

/-! ### The expansion with no limit -/

/-- How far a text is read, character by character. -/
structure Reading where
  state : MacroState
  prev : UInt8
  varname : List UInt8
  deriving DecidableEq

def Reading.escapes (reading : Reading) (c : UInt8) : Prop :=
  reading.state ≠ .waitQuote ∧ c = 92 ∧ reading.prev ≠ 92

instance (reading : Reading) (c : UInt8) : Decidable (reading.escapes c) :=
  inferInstanceAs (Decidable (_ ∧ _))

/-- A quote that opens or closes, where quotes are looked at. -/
def Reading.atQuote (reading : Reading) (c : UInt8) : Prop := c = 39 ∧ reading.prev ≠ 92

instance (reading : Reading) (c : UInt8) : Decidable (reading.atQuote c) :=
  inferInstanceAs (Decidable (_ ∧ _))

def Reading.nextState (reading : Reading) (c : UInt8) : MacroState :=
  match reading.state with
  | .waitDollar =>
      if reading.atQuote c then .waitQuote
      else if c = 36 ∧ reading.prev ≠ 92 then .waitOpen else .waitDollar
  | .waitOpen => if c = 40 ∨ c = 123 then .waitClose else .waitDollar
  | .waitClose => if c = 41 ∨ c = 125 then .waitDollar else .waitClose
  | .waitQuote => if reading.atQuote c then .waitDollar else .waitQuote

def Reading.nextName (reading : Reading) (c : UInt8) : List UInt8 :=
  match reading.state with
  | .waitOpen => if c = 40 ∨ c = 123 then [] else reading.varname
  | .waitClose => if c = 41 ∨ c = 125 then reading.varname else reading.varname ++ [c]
  | _ => reading.varname

def Reading.next (reading : Reading) (c : UInt8) : Reading :=
  if reading.escapes c then { reading with prev := 92, varname := reading.varname ++ [92] }
  else ⟨reading.nextState c, c, reading.nextName c⟩

def unread : Reading := ⟨.waitDollar, 0, []⟩

/-- How process_macros has read a text when it comes to its end. -/
def readText (text : List UInt8) : Reading := text.foldl Reading.next unread

section Environment

variable (getenv : List UInt8 → Option CString)

/-- The characters that stand for one that is not an escape. -/
def replaced (reading : Reading) (c : UInt8) : List UInt8 :=
  match reading.state with
  | .waitDollar =>
      if reading.atQuote c then [] else if c = 36 ∧ reading.prev ≠ 92 then [] else [c]
  | .waitOpen => if c = 40 ∨ c = 123 then [] else [36, c]
  | .waitClose =>
      if c = 41 ∨ c = 125 then ((getenv reading.varname).map CString.bytes).getD [] else []
  | .waitQuote => if reading.atQuote c then [] else [c]

def emitted (reading : Reading) (c : UInt8) : List UInt8 :=
  if reading.escapes c then [] else replaced getenv reading c

def expansionFrom : Reading → List UInt8 → List UInt8
  | _, [] => []
  | reading, c :: rest => emitted getenv reading c ++ expansionFrom (reading.next c) rest

def expansion (input : List UInt8) : List UInt8 := expansionFrom getenv unread input

end Environment

/-! ### The output is a part of the expansion -/

def Macros.reading (macros : Macros) : Reading := ⟨macros.state, macros.prev, macros.varname⟩

/-- Several characters are put as far as there is room. -/
def Macros.append (macros : Macros) (bytes : List UInt8) : Macros :=
  { macros with
    output := macros.output ++ bytes.take macros.outputcnt
    outputcnt := macros.outputcnt - bytes.length }

theorem append_nil (macros : Macros) : macros.append [] = macros := by
  simp [Macros.append]

theorem append_full (macros : Macros) (bytes : List UInt8) (full : macros.outputcnt = 0) :
    macros.append bytes = macros := by
  cases macros
  cases full
  simp [Macros.append]

theorem append_cons (macros : Macros) (c : UInt8) (bytes : List UInt8)
    (room : macros.outputcnt ≠ 0) : macros.append (c :: bytes) = (macros.put c).append bytes := by
  obtain ⟨left, same⟩ := Nat.exists_eq_succ_of_ne_zero room
  simp [Macros.append, Macros.put, same]

theorem put_append (macros : Macros) (c : UInt8) (room : macros.outputcnt ≠ 0) :
    macros.put c = macros.append [c] := by
  rw [append_cons macros c [] room, append_nil]

theorem copy_value_append (envval : List UInt8) (macros : Macros) :
    copyValue envval macros = macros.append envval := by
  induction envval generalizing macros with
  | nil => exact (append_nil macros).symm
  | cons c envval induction =>
      unfold copyValue
      split
      · next full => exact (append_full macros _ full).symm
      · next room => rw [induction, append_cons macros c envval room]

section Environment

variable (getenv : List UInt8 → Option CString)

/-- The switch of the loop puts what stands for the character. -/
theorem act_append (macros : Macros) (c : UInt8) (room : macros.outputcnt ≠ 0) :
    act getenv macros c =
      { macros.append (replaced getenv macros.reading c) with
        state := macros.reading.nextState c
        varname := macros.reading.nextName c } := by
  unfold act replaced Reading.nextState Reading.nextName Reading.atQuote
  cases state : macros.state with
  | waitDollar =>
      simp only [Macros.reading, state]
      split
      · rw [append_nil]
      · split
        · rw [append_nil]
        · rw [put_append macros c room]
          simp only [Macros.append, state]
  | waitOpen =>
      simp only [Macros.reading, state]
      split
      · rw [append_nil]
      · rw [append_cons macros 36 [c] room]
        split
        · next more => rw [put_append _ c more]; rfl
        · next full =>
            rw [append_full (macros.put 36) [c] (not_not.mp full)]
            rfl
  | waitClose =>
      simp only [Macros.reading, state]
      split
      · cases getenv macros.varname with
        | none => simp only [Option.map_none, Option.getD_none, append_nil]
        | some envval =>
            simp only [Option.map_some, Option.getD_some, copy_value_append]
            rfl
      · rw [append_nil]
  | waitQuote =>
      simp only [Macros.reading, state]
      split
      · rw [append_nil]
      · rw [put_append macros c room]
        simp only [Macros.append, state]

theorem reading_escaped (reading : Reading) (d : UInt8) (waits : reading.escapes 92) :
    reading.next 92 = { reading with prev := 92, varname := reading.varname ++ [92] } ∧
      ¬ (reading.next 92).escapes d := by
  have taken : reading.next 92 =
      { reading with prev := 92, varname := reading.varname ++ [92] } := if_pos waits
  constructor
  · exact taken
  · rw [taken]
    exact fun again => again.2.2 rfl

theorem expansion_plain (reading : Reading) (c : UInt8) (rest : List UInt8)
    (plain : ¬ reading.escapes c) :
    expansionFrom getenv reading (c :: rest) = replaced getenv reading c ++
      expansionFrom getenv ⟨reading.nextState c, c, reading.nextName c⟩ rest := by
  rw [expansionFrom, emitted, if_neg plain, Reading.next, if_neg plain]

/-- What one character leaves to do is the rest of the expansion, in the rest of the room. -/
theorem append_rest (macros : Macros) (bytes rest : List UInt8) :
    macros.output ++ bytes.take macros.outputcnt ++ rest.take (macros.outputcnt - bytes.length) =
      macros.output ++ (bytes ++ rest).take macros.outputcnt := by
  rw [List.append_assoc, ← List.take_append]

/-- The loop keeps what its output and the rest of its input come to. -/
theorem plain_step (macros : Macros) (c : UInt8) (rest : List UInt8) (room : macros.outputcnt ≠ 0)
    (plain : ¬ macros.reading.escapes c) (acted : Macros)
    (same : acted = { act getenv macros c with prev := c }) :
    acted.output ++ (expansionFrom getenv acted.reading rest).take acted.outputcnt =
        macros.output ++
          (expansionFrom getenv macros.reading (c :: rest)).take macros.outputcnt ∧
      acted.outputcnt - (expansionFrom getenv acted.reading rest).length =
        macros.outputcnt - (expansionFrom getenv macros.reading (c :: rest)).length := by
  rw [act_append getenv macros c room] at same
  subst same
  rw [expansion_plain getenv macros.reading c rest plain]
  constructor
  · exact append_rest macros _ _
  · rw [List.length_append, ← Nat.sub_sub]
    rfl

theorem process_loop_full (input : List UInt8) (macros : Macros) (full : macros.outputcnt = 0) :
    processLoop getenv input macros = macros := by
  cases input with
  | nil => rfl
  | cons c rest => rw [processLoop.eq_def]; exact if_pos full

theorem process_loop_eq (input : List UInt8) (macros : Macros) :
    (processLoop getenv input macros).output =
        macros.output ++ (expansionFrom getenv macros.reading input).take macros.outputcnt ∧
      (processLoop getenv input macros).outputcnt =
        macros.outputcnt - (expansionFrom getenv macros.reading input).length := by
  induction input, macros using processLoop.induct getenv with
  | case1 macros => simp [processLoop, expansionFrom]
  | case2 c rest macros full => simp [process_loop_full getenv _ _ full, full]
  | case3 c macros room waits =>
      have done : macros.reading.escapes c := waits
      rw [processLoop, if_neg room, if_pos waits]
      simp [expansionFrom, emitted, done]
  | case4 c macros room waits d rest escaped induction =>
      have done : macros.reading.escapes c := waits
      cases waits.2.1
      obtain ⟨taken, goes⟩ := reading_escaped macros.reading d done
      have step := plain_step getenv escaped d rest room (by rw [taken] at goes; exact goes) _ rfl
      rw [processLoop, if_neg room, if_pos waits, expansionFrom, emitted, if_pos done, taken]
      exact ⟨induction.1.trans step.1, induction.2.trans step.2⟩
  | case5 c rest macros room plain induction =>
      have step := plain_step getenv macros c rest room plain _ rfl
      rw [processLoop.eq_def]
      dsimp only
      rw [if_neg room, if_neg plain]
      exact ⟨induction.1.trans step.1, induction.2.trans step.2⟩

/-- process_macros writes what fits of the expansion, and a NUL if there is room for it. -/
theorem process_macros_eq (cbsize : Nat) (input : List UInt8) :
    processMacros getenv cbsize input =
      if (expansion getenv input).length < cbsize then expansion getenv input ++ [0]
      else (expansion getenv input).take cbsize := by
  obtain ⟨text, left⟩ := process_loop_eq getenv input ⟨.waitDollar, 0, [], [], cbsize⟩
  have text : (processLoop getenv input ⟨.waitDollar, 0, [], [], cbsize⟩).output =
      (expansion getenv input).take cbsize := by
    rw [text]
    exact List.nil_append _
  have left : (processLoop getenv input ⟨.waitDollar, 0, [], [], cbsize⟩).outputcnt =
      cbsize - (expansion getenv input).length := left
  unfold processMacros
  simp only [text, left]
  by_cases fits : (expansion getenv input).length < cbsize
  · rw [if_pos fits, if_pos (by omega), List.take_of_length_le fits.le]
  · rw [if_neg fits, if_neg (by omega)]

/-- As long as the output does not fill up, the loop waits for what the reading waits for. -/
theorem process_loop_state (input : List UInt8) (macros : Macros)
    (fits : (expansionFrom getenv macros.reading input).length < macros.outputcnt) :
    (processLoop getenv input macros).state = (input.foldl Reading.next macros.reading).state := by
  induction input, macros using processLoop.induct getenv with
  | case1 macros => rfl
  | case2 c rest macros full => omega
  | case3 c macros room waits =>
      have done : macros.reading.escapes c := waits
      rw [processLoop, if_neg room, if_pos waits, List.foldl_cons, Reading.next, if_pos done]
      rfl
  | case4 c macros room waits d rest escaped induction =>
      have done : macros.reading.escapes c := waits
      cases waits.2.1
      obtain ⟨taken, goes⟩ := reading_escaped macros.reading d done
      rw [expansionFrom, emitted, if_pos done, taken, List.nil_append] at fits
      rw [taken] at goes
      have step := plain_step getenv escaped d rest room goes _ rfl
      rw [processLoop, if_neg room, if_pos waits, List.foldl_cons, List.foldl_cons, taken,
        Reading.next, if_neg goes]
      have left : _ = escaped.outputcnt - (expansionFrom getenv escaped.reading (d :: rest)).length :=
        step.2
      have same := act_append getenv escaped d room
      rw [induction (by
        have short : (expansionFrom getenv escaped.reading (d :: rest)).length < escaped.outputcnt :=
          fits
        omega), same]
      rfl
  | case5 c rest macros room plain induction =>
      have goes : ¬ macros.reading.escapes c := plain
      have step := plain_step getenv macros c rest room plain _ rfl
      have same := act_append getenv macros c room
      rw [processLoop.eq_def]
      dsimp only
      rw [if_neg room, if_neg plain, induction (by omega), same, List.foldl_cons, Reading.next,
        if_neg goes]
      rfl

/-! ### No NUL inside, and names that fit -/

theorem emitted_no_nul (reading : Reading) (c : UInt8) (text : c ≠ 0) :
    0 ∉ emitted getenv reading c := by
  unfold emitted replaced
  split
  · exact List.not_mem_nil
  · cases reading.state with
    | waitDollar =>
        dsimp only
        split_ifs
        · exact List.not_mem_nil
        · exact List.not_mem_nil
        · simpa using text.symm
    | waitOpen =>
        dsimp only
        split
        · exact List.not_mem_nil
        · simpa using text.symm
    | waitClose =>
        dsimp only
        split
        · cases getenv reading.varname with
          | none => exact List.not_mem_nil
          | some envval => exact envval.terminated
        · exact List.not_mem_nil
    | waitQuote =>
        dsimp only
        split
        · exact List.not_mem_nil
        · simpa using text.symm

theorem expansion_no_nul (input : List UInt8) (reading : Reading) (text : 0 ∉ input) :
    0 ∉ expansionFrom getenv reading input := by
  induction input generalizing reading with
  | nil => exact List.not_mem_nil
  | cons c rest induction =>
      rw [List.mem_cons, not_or] at text
      rw [expansionFrom, List.mem_append, not_or]
      exact ⟨emitted_no_nul getenv reading c (Ne.symm text.1), induction _ text.2⟩

end Environment

/-- A name is a part of the input, so with its NUL it fits into a buffer that the input fits in. -/
theorem varname_fits (input : List UInt8) :
    (readText input).varname.length ≤ input.length := by
  have grows : ∀ reading : Reading,
      (input.foldl Reading.next reading).varname.length ≤ reading.varname.length + input.length := by
    induction input with
    | nil => exact fun reading => le_refl _
    | cons c rest induction =>
        intro reading
        have one : (reading.next c).varname.length ≤ reading.varname.length + 1 := by
          unfold Reading.next Reading.nextName
          split
          · simp
          · split <;> dsimp only <;> (try split) <;> simp
        have tail := induction (reading.next c)
        rw [List.foldl_cons, List.length_cons]
        omega
  simpa [readText, unread] using grows unread

/-! ### The terminator -/

/-- The text ends inside the output exactly if the expansion is shorter than the output. -/
theorem process_macros_terminated (cbsize : Nat) (getenv : List UInt8 → Option CString)
    (input : CString) :
    ((processMacros getenv cbsize input.bytes).length ≤ cbsize ∧
        0 ∈ processMacros getenv cbsize input.bytes) ↔
      (expansion getenv input.bytes).length < cbsize := by
  have nonzero := expansion_no_nul getenv input.bytes unread input.terminated
  rw [process_macros_eq]
  by_cases fits : (expansion getenv input.bytes).length < cbsize
  · rw [if_pos fits]
    simp [fits, Nat.succ_le_of_lt fits]
  · rw [if_neg fits]
    constructor
    · intro ended
      exact absurd (List.mem_of_mem_take ended.2) nonzero
    · exact fun short => absurd short fits

theorem letters_terminated (count : Nat) : 0 ∉ List.replicate count (120 : UInt8) := by
  intro member
  exact absurd (List.eq_of_mem_replicate member) (by decide)

def longValue : CString := ⟨List.replicate 512 120, letters_terminated 512⟩

/-- A variable that fills the output leaves it without its NUL. -/
theorem filled_unterminated :
    ¬ ((processMacros (fun _ => some longValue) 512 (ascii "${a}")).length ≤ 512 ∧
      0 ∈ processMacros (fun _ => some longValue) 512 (ascii "${a}")) := by
  rw [process_macros_eq]
  decide +kernel

end UBoot.Shell.ProcessMacros
