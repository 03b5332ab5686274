import UBoot.Shell.ProcessMacros

/-!
The split of a command line at its separators. run_command looks for the next
`;` with a quote flag of its own, and process_macros then reads the command in
front of it with four states. The two agree on the quotes as long as no quote is
read as a part of a variable reference.
-/

namespace UBoot.Shell.Segments

open Lib.Strings ProcessMacros

/-- The search for a separator: the character in front of `sep`, and the text from `str` to it. -/
structure Scan where
  prev : UInt8
  inquotes : Bool
  token : List UInt8
  deriving DecidableEq

def Scan.toggled (scan : Scan) (c : UInt8) : Bool :=
  if c = 39 ∧ scan.prev ≠ 92 then !scan.inquotes else scan.inquotes

def Scan.separates (scan : Scan) (c : UInt8) : Bool :=
  !scan.toggled c && c == 59 && scan.token != [] && scan.prev != 92

/-- The character in front of a later command is the NUL that ended the one before it. -/
def nextCommand : Scan := ⟨0, false, []⟩

def splitFrom : Scan → List UInt8 → List (List UInt8)
  | scan, [] => if scan.token = [] then [] else [scan.token]
  | scan, c :: rest =>
      if scan.separates c then scan.token :: splitFrom nextCommand rest
      else splitFrom ⟨c, scan.toggled c, scan.token ++ [c]⟩ rest

/-- The commands of a line. The loop reads the byte in front of cmdbuf when the line begins with a
quote. -/
def splitLine (before : UInt8) (cmd : List UInt8) : List (List UInt8) :=
  splitFrom ⟨before, false, []⟩ cmd

/-! ### The search along a line -/

def Scan.next (scan : Scan) (c : UInt8) : Scan :=
  if scan.separates c then nextCommand else ⟨c, scan.toggled c, scan.token ++ [c]⟩

/-- The search when it has come behind a text. -/
def scanned (before : UInt8) (text : List UInt8) : Scan := text.foldl Scan.next ⟨before, false, []⟩

/-- The commands that end within a text. -/
def closed : Scan → List UInt8 → List (List UInt8)
  | _, [] => []
  | scan, c :: rest =>
      if scan.separates c then scan.token :: closed nextCommand rest
      else closed ⟨c, scan.toggled c, scan.token ++ [c]⟩ rest

theorem split_append (scan : Scan) (front back : List UInt8) :
    splitFrom scan (front ++ back) =
      closed scan front ++ splitFrom (front.foldl Scan.next scan) back := by
  induction front generalizing scan with
  | nil => rfl
  | cons c front induction =>
      rw [List.cons_append, splitFrom, closed, List.foldl_cons, Scan.next]
      split
      · rw [induction, List.cons_append]
      · exact induction _

theorem first_token (scan : Scan) (text : List UInt8) (begun : scan.token ≠ []) :
    ∃ token later, splitFrom scan text = token :: later ∧ scan.token <+: token := by
  induction text generalizing scan with
  | nil => exact ⟨scan.token, [], if_neg begun, List.prefix_rfl⟩
  | cons c rest induction =>
      rw [splitFrom]
      split
      · exact ⟨scan.token, _, rfl, List.prefix_rfl⟩
      · obtain ⟨token, later, same, longer⟩ :=
          induction ⟨c, scan.toggled c, scan.token ++ [c]⟩ (by simp)
        exact ⟨token, later, same, (List.prefix_append _ _).trans longer⟩

/-- The `;` behind a text ends its command. -/
def EndsCommand (before : UInt8) (front back : List UInt8) : Prop :=
  (splitFrom (scanned before front) (59 :: back)).head? = some (scanned before front).token

theorem ends_iff (before : UInt8) (front back : List UInt8) :
    EndsCommand before front back ↔ (scanned before front).separates 59 = true := by
  unfold EndsCommand
  rw [splitFrom]
  constructor
  · intro same
    by_contra goes
    rw [if_neg goes] at same
    obtain ⟨token, later, first, longer⟩ := first_token
      ⟨59, (scanned before front).toggled 59, (scanned before front).token ++ [59]⟩ back (by simp)
    rw [first, List.head?_cons, Option.some.injEq] at same
    have lengths := longer.length_le
    rw [same] at lengths
    simp at lengths
  · intro ends
    rw [if_pos ends]
    rfl

/-! ### Quotes in variable references -/

/-- A quote that process_macros reads as a part of a variable reference. -/
def Reading.swallows (reading : Reading) (c : UInt8) : Prop :=
  reading.atQuote c ∧ (reading.state = .waitOpen ∨ reading.state = .waitClose)

instance (reading : Reading) (c : UInt8) : Decidable (Reading.swallows reading c) :=
  inferInstanceAs (Decidable (_ ∧ _))

def swallowedFrom : Reading → List UInt8 → Nat
  | _, [] => 0
  | reading, c :: rest =>
      (if Reading.swallows reading c then 1 else 0) + swallowedFrom (reading.next c) rest

def swallowed (text : List UInt8) : Nat := swallowedFrom unread text

theorem swallowed_snoc (text : List UInt8) (c : UInt8) :
    swallowed (text ++ [c]) =
      swallowed text + if Reading.swallows (readText text) c then 1 else 0 := by
  have general : ∀ reading, swallowedFrom reading (text ++ [c]) = swallowedFrom reading text +
      if Reading.swallows (text.foldl Reading.next reading) c then 1 else 0 := by
    induction text with
    | nil =>
        intro reading
        simp only [List.nil_append, swallowedFrom, Nat.add_zero, Nat.zero_add]
        rfl
    | cons d text induction =>
        intro reading
        rw [List.cons_append, swallowedFrom, swallowedFrom, induction, List.foldl_cons, Nat.add_assoc]
  exact general unread

theorem read_snoc (text : List UInt8) (c : UInt8) :
    readText (text ++ [c]) = (readText text).next c := by
  rw [readText, List.foldl_append]
  rfl

theorem next_prev (reading : Reading) (c : UInt8) : (reading.next c).prev = c := by
  unfold Reading.next
  split
  · next waits => exact waits.2.1.symm
  · rfl

/-- The quote flag differs from the state of process_macros by the swallowed quotes. -/
structure Agrees (scan : Scan) : Prop where
  prev : scan.prev = 92 ↔ (readText scan.token).prev = 92
  quotes : scan.inquotes = xor (decide ((readText scan.token).state = .waitQuote))
    (decide (swallowed scan.token % 2 = 1))

theorem agrees_start (before : UInt8) (front : before ≠ 92) : Agrees ⟨before, false, []⟩ := by
  constructor
  · exact ⟨fun same => absurd same front, fun same => absurd (show (0 : UInt8) = 92 from same) (by decide)⟩
  · rfl

theorem odd_add_ite (count : Nat) (more : Prop) [Decidable more] :
    decide ((count + if more then 1 else 0) % 2 = 1) =
      xor (decide (count % 2 = 1)) (decide more) := by
  by_cases one : more
  · rcases Nat.mod_two_eq_zero_or_one count with even | odd
    · simp [one, even, Nat.add_mod]
    · simp [one, odd, Nat.add_mod]
  · simp [one]

/-- A quote is either seen by process_macros, or swallowed. -/
theorem quote_seen (reading : Reading) (c : UInt8) :
    decide ((reading.next c).state = .waitQuote) =
      xor (decide (reading.state = .waitQuote))
        (xor (decide (Reading.swallows reading c)) (decide (reading.atQuote c))) := by
  obtain ⟨state, prev, varname⟩ := reading
  by_cases quote : Reading.atQuote ⟨state, prev, varname⟩ c
  · have plain : ¬ Reading.escapes ⟨state, prev, varname⟩ c := by
      intro escape
      exact absurd (quote.1.symm.trans escape.2.1) (by decide)
    have bracket : ¬ (c = 40 ∨ c = 123) ∧ ¬ (c = 41 ∨ c = 125) := by
      rw [quote.1]
      decide
    cases state <;>
      simp [Reading.next, plain, Reading.nextState, quote, Reading.swallows, bracket.1, bracket.2]
  · by_cases escape : Reading.escapes ⟨state, prev, varname⟩ c
    · simp [Reading.next, escape, Reading.swallows, quote]
    · cases state <;>
        simp only [Reading.next, escape, Reading.nextState, quote, Reading.swallows, if_false,
          false_and, decide_false, Bool.xor_false] <;>
        split <;> simp

theorem agrees_next (scan : Scan) (c : UInt8) (agrees : Agrees scan) : Agrees (scan.next c) := by
  unfold Scan.next
  split
  · exact agrees_start 0 (by decide)
  · constructor
    · rw [read_snoc, next_prev]
    · dsimp only
      have seen : Reading.atQuote (readText scan.token) c ↔ c = 39 ∧ scan.prev ≠ 92 :=
        and_congr_right fun _ => not_congr agrees.prev.symm
      rw [read_snoc, swallowed_snoc, quote_seen, odd_add_ite, Scan.toggled, agrees.quotes]
      generalize decide ((readText scan.token).state = .waitQuote) = quoted
      generalize decide (swallowed scan.token % 2 = 1) = odd
      by_cases quote : Reading.atQuote (readText scan.token) c
      · rw [if_pos (seen.mp quote), decide_eq_true quote]
        cases quoted <;> cases odd <;> simp
      · rw [if_neg (fun same => quote (seen.mpr same)), decide_eq_false quote]
        cases quoted <;> cases odd <;> simp

theorem agrees_scanned (before : UInt8) (front : before ≠ 92) (text : List UInt8) :
    Agrees (scanned before text) := by
  have along : ∀ scan, Agrees scan → Agrees (text.foldl Scan.next scan) := by
    induction text with
    | nil => exact fun scan agrees => agrees
    | cons c text induction => exact fun scan agrees => induction _ (agrees_next scan c agrees)
  exact along _ (agrees_start before front)

theorem read_prev (text : List UInt8) (begun : text ≠ []) :
    text.getLast? = some (readText text).prev := by
  obtain ⟨front, c, same⟩ := List.eq_nil_or_concat text |>.resolve_left begun
  rw [List.concat_eq_append] at same
  rw [same, List.getLast?_concat, read_snoc, next_prev]

/-- A `;` that is not the first character of its command ends it exactly if it is neither quoted nor
behind a backslash, when the quotes in variable references come in pairs. -/
theorem separator_ends_iff (before : UInt8) (line back : List UInt8) (front : before ≠ 92)
    (pairs : swallowed (scanned before line).token % 2 = 0) :
    (EndsCommand before line back ↔
        (scanned before line).token ≠ [] ∧
          (readText (scanned before line).token).state ≠ .waitQuote ∧
          (scanned before line).token.getLast? ≠ some 92) ∧
      ∀ (getenv : List UInt8 → Option CString) (cbsize : Nat),
        (expansion getenv (scanned before line).token).length < cbsize →
        (processLoop getenv (scanned before line).token ⟨.waitDollar, 0, [], [], cbsize⟩).state =
          (readText (scanned before line).token).state := by
  have agrees := agrees_scanned before front line
  constructor
  · rw [ends_iff, Scan.separates, Scan.toggled, if_neg (fun quote => absurd quote.1 (by decide)),
      agrees.quotes, pairs]
    constructor
    · intro ends
      simp only [Bool.and_eq_true] at ends
      obtain ⟨⟨⟨outside, -⟩, begun⟩, escaped⟩ := ends
      have begun : (scanned before line).token ≠ [] := by simpa using begun
      refine ⟨begun, by simpa using outside, ?_⟩
      rw [read_prev _ begun, Ne, Option.some.injEq, ← agrees.prev]
      simpa using escaped
    · rintro ⟨begun, outside, escaped⟩
      rw [read_prev _ begun, Ne, Option.some.injEq, ← agrees.prev] at escaped
      simp [begun, outside, escaped]
  · intro getenv cbsize fits
    exact process_loop_state getenv _ _ fits

/-- A quoted `;` and one behind the quoted part. -/
theorem quoted_separator :
    (¬ EndsCommand 0 (ascii "echo 'a") (ascii "b' c")) ∧ EndsCommand 0 (ascii "echo 'a;b' c") [] := by
  have quoted := separator_ends_iff 0 (ascii "echo 'a") (ascii "b' c") (by decide) (by decide)
  have plain := separator_ends_iff 0 (ascii "echo 'a;b' c") [] (by decide) (by decide)
  constructor
  · rw [quoted.1]
    decide
  · rw [plain.1]
    decide

/-- A `;` in front of a command does not end anything. -/
theorem leading_separator :
    (¬ EndsCommand 0 [] (ascii "a")) ∧ (readText []).state ≠ .waitQuote ∧
      (scanned 0 []).token.getLast? ≠ some 92 := by
  rw [ends_iff]
  decide

end UBoot.Shell.Segments
