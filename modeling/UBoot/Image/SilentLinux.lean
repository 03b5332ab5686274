import UBoot.Image.LinuxParams
import UBoot.Library.Pieces

/-!
fixup_silent_linux of common/cmd_bootm.c. It rebuilds the boot arguments in a buffer on the stack,
without the value behind `console=`, and stores them again.
-/

namespace UBoot.Image.SilentLinux

open Lib.Strings Library.Memory Library.Pieces
open LinuxParams (strstr)

def console : List UInt8 := ascii "console="

/-- The bytes that strcpy writes. -/
def strcpy (src : List UInt8) : List UInt8 := src ++ [0]

/-- The bytes that strncpy of lib_generic writes. -/
def strncpy (src : List UInt8) (count : Nat) : List UInt8 := (src ++ [0]).take count

/-- The stores to `buf` when there are boot arguments. The store of strcat begins at the NUL of the one in
front of it. -/
def fixCmdline (cmdline : List UInt8) : Stores UInt8 :=
  match strstr console cmdline with
  | some found =>
      let start := cmdline.length - found.length
      (0, strncpy cmdline (start + 8)) ::
        (match cutAt 32 found with
        | some (_, rest) => [(start + 8, strcpy (32 :: rest))]
        | none => [(start + 8, [0])])
  | none => [(0, strcpy cmdline), (cmdline.length, strcpy (32 :: console))]

/-- The stores to `buf`, behind which it is given to setenv. Without GD_FLG_SILENT nothing is done. -/
def fixupSilentLinux (silent : Bool) (cmdline : Option CString) : Option (Stores UInt8) :=
  if silent then
    match cmdline with
    | some line => some (fixCmdline line.bytes)
    | none => some [(0, strcpy console)]
  else none

def sizeofBuf : Nat := 256

/-- The end of the last store. -/
def extent (stores : Stores UInt8) : Nat :=
  (stores.map fun store => store.1 + store.2.length).foldr max 0

/-- The string that setenv finds in a buffer with some content. -/
def bufText (mem : Nat → UInt8) (stores : Stores UInt8) : List UInt8 :=
  (slice (apply mem 0 stores) 0 (extent stores)).takeWhile (· ≠ 0)

/-! ### The arguments -/

def words (line : List UInt8) : List (List UInt8) := line.splitOn 32

def join (words : List (List UInt8)) : List UInt8 := [32].intercalate words

/-- The arguments with the value of the first `console=` taken away, if there is one. -/
def silence : List (List UInt8) → Option (List (List UInt8))
  | [] => none
  | word :: rest =>
      if console.isPrefixOf word then some (console :: rest) else (silence rest).map (word :: ·)

/-- The boot arguments with an empty `console=`. -/
def wanted (line : List UInt8) : List UInt8 :=
  match silence (words line) with
  | some words => join words
  | none => line ++ 32 :: console

/-- The stores stay in the buffer and leave the wanted string there. -/
structure Silenced (cmdline : Option CString) (stores : Stores UInt8) : Prop where
  inside : ∀ store ∈ stores, store.1 + store.2.length ≤ sizeofBuf
  stored : ∀ mem, bufText mem stores =
    match cmdline with
    | some line => wanted line.bytes
    | none => console

/-- The first argument with `console=` in it begins with it; or there is nothing behind that
`console=`, and nothing behind the one of the first argument that begins with it. -/
def Named (line : List UInt8) : Prop :=
  match (words line).find? fun word => (strstr console word).isSome with
  | some word => console <+: word ∨
      strstr console word = some console ∧
        (words line).find? (fun word => console.isPrefixOf word) = some console
  | none => True

/-- The length of the boot arguments without the value of their first `console=` argument, or with
` console=` behind them. -/
def finalSize (line : List UInt8) : Nat :=
  match (words line).find? fun word => console.isPrefixOf word with
  | some word => line.length - (word.length - console.length)
  | none => line.length + 1 + console.length

/-! ### The text that is built -/

/-- The text without the value, if there is a `console=` in it. -/
def cutText (line : List UInt8) : Option (List UInt8) :=
  (strstr console line).map fun found =>
    line.take (line.length - found.length) ++ console ++
      match cutAt 32 found with
      | some (_, rest) => 32 :: rest
      | none => []

def fixedText (line : List UInt8) : List UInt8 := (cutText line).getD (line ++ 32 :: console)

def emptied (line : List UInt8) : Option (List UInt8) := (silence (words line)).map join

theorem wanted_eq (line : List UInt8) : wanted line = (emptied line).getD (line ++ 32 :: console) := by
  unfold wanted emptied
  cases silence (words line) <;> rfl

section Words
variable {word rest : List UInt8}

theorem words_blank (plain : 32 ∉ word) : words (word ++ 32 :: rest) = word :: words rest :=
  List.splitOn_append_cons_self_of_not_mem plain rest

theorem words_plain (plain : 32 ∉ word) : words word = [word] := List.splitOn_eq_singleton plain

theorem join_words (line : List UInt8) : join (words line) = line := List.intercalate_splitOn 32

theorem join_cons (word : List UInt8) {others : List (List UInt8)} (some_words : others ≠ []) :
    join (word :: others) = word ++ 32 :: join others := by
  obtain ⟨next, later, rfl⟩ := List.exists_cons_of_ne_nil some_words
  simp [join]

theorem silence_ne_nil {words silenced : List (List UInt8)} (found : silence words = some silenced) :
    silenced ≠ [] := by
  cases words with
  | nil => cases found
  | cons word rest =>
      rw [silence] at found
      split at found
      · cases found
        exact List.cons_ne_nil _ _
      · obtain ⟨others, _, rfl⟩ := Option.map_eq_some_iff.mp found
        exact List.cons_ne_nil _ _

theorem words_ne_nil (line : List UInt8) : words line ≠ [] := List.splitOn_ne_nil 32 line

theorem emptied_blank (plain : 32 ∉ word) : emptied (word ++ 32 :: rest) =
    if console.isPrefixOf word then some (console ++ 32 :: rest)
    else (emptied rest).map fun later => word ++ 32 :: later := by
  rw [emptied, words_blank plain, silence]
  split
  · rw [Option.map_some, join_cons _ (words_ne_nil rest), join_words]
  · rw [emptied]
    cases found : silence (words rest) with
    | none => rfl
    | some others =>
        simp only [Option.map_some]
        rw [join_cons word (silence_ne_nil found)]

theorem emptied_plain (plain : 32 ∉ word) :
    emptied word = if console.isPrefixOf word then some console else none := by
  rw [emptied, words_plain plain, silence]
  split
  · simp [join]
  · rfl

/-- The line as its first argument and what is behind the blank. -/
theorem line_induction {motive : List UInt8 → Prop}
    (plain : ∀ word, 32 ∉ word → motive word)
    (blank : ∀ word rest, 32 ∉ word → motive rest → motive (word ++ 32 :: rest))
    (line : List UInt8) : motive line := by
  induction size : line.length using Nat.strongRecOn generalizing line with
  | ind size inductive_hypothesis =>
      cases cut : cutAt 32 line with
      | none => exact plain line (cut_at_absent cut)
      | some parts =>
          obtain ⟨word, rest⟩ := parts
          rw [(cut_at_some cut).1]
          exact blank word rest (cut_plain cut)
            (inductive_hypothesis rest.length (size ▸ cut_shorter cut) rest rfl)

theorem word_length_le (line : List UInt8) : ∀ word ∈ words line, word.length ≤ line.length := by
  induction line using line_induction with
  | plain word plain => simp [words_plain plain]
  | blank word rest plain inductive_hypothesis =>
      rw [words_blank plain, List.forall_mem_cons, List.length_append, List.length_cons]
      refine ⟨Nat.le_add_right _ _, fun later member => ?_⟩
      exact Nat.le_trans (inductive_hypothesis later member) (by omega)

/-- Two lines agree in their first argument and behind it. -/
theorem blank_inj {other later : List UInt8} (plain : 32 ∉ word) (bare : 32 ∉ other) :
    word ++ 32 :: rest = other ++ 32 :: later ↔ word = other ∧ rest = later := by
  constructor
  · intro same
    have cut := cut_at_first plain rest
    rw [same, cut_at_first bare later] at cut
    cases cut
    exact ⟨rfl, rfl⟩
  · rintro ⟨rfl, rfl⟩
    rfl

end Words

/-! ### The search for `console=` -/

theorem console_plain : 32 ∉ console := by decide

section Search
variable {find word rest found : List UInt8}

theorem is_prefix_blank (plain : 32 ∉ find) (word rest : List UInt8) :
    find.isPrefixOf (word ++ 32 :: rest) = find.isPrefixOf word := by
  induction find generalizing word with
  | nil => rfl
  | cons c find inductive_hypothesis =>
      rw [List.mem_cons, not_or] at plain
      cases word with
      | nil => simp [List.isPrefixOf, Ne.symm plain.1]
      | cons d word =>
          rw [List.cons_append, List.isPrefixOf, List.isPrefixOf, inductive_hypothesis plain.2]

theorem strstr_blank (word rest : List UInt8) : strstr console (word ++ 32 :: rest) =
    match strstr console word with
    | some found => some (found ++ 32 :: rest)
    | none => strstr console rest := by
  induction word with
  | nil =>
      have away := is_prefix_blank console_plain [] rest
      rw [List.nil_append] at away ⊢
      rw [strstr]
      exact if_neg (by rw [away]; decide)
  | cons c word inductive_hypothesis =>
      have same := is_prefix_blank console_plain (c :: word) rest
      rw [List.cons_append] at same ⊢
      rw [strstr, strstr, same]
      split
      · rfl
      · exact inductive_hypothesis

/-- What is found is the end of the string, from a `console=` on. -/
theorem strstr_some {line : List UInt8} (search : strstr console line = some found) :
    console <+: found ∧ line.take (line.length - found.length) ++ found = line := by
  induction line with
  | nil => cases search
  | cons c line inductive_hypothesis =>
      rw [strstr] at search
      split at search
      · rename_i here
        cases search
        exact ⟨List.isPrefixOf_iff_prefix.mp here, by simp⟩
      · obtain ⟨starts, parts⟩ := inductive_hypothesis search
        have shorter : found.length ≤ line.length := by
          rw [← parts, List.length_append]
          exact Nat.le_add_left _ _
        refine ⟨starts, ?_⟩
        rw [List.length_cons, Nat.succ_sub shorter, List.take_succ_cons, List.cons_append, parts]

theorem strstr_here (starts : console <+: word) : strstr console word = some word := by
  cases word with
  | nil => exact absurd (List.prefix_nil.mp starts) (by decide)
  | cons c word => exact if_pos (List.isPrefixOf_iff_prefix.mpr starts)

end Search

section Built
variable {word rest found : List UInt8}

/-- The text in front of what is found in an argument, with an empty `console=` behind it. -/
def named (word found : List UInt8) : List UInt8 :=
  word.take (word.length - found.length) ++ console

theorem cut_text_blank (plain : 32 ∉ word) : cutText (word ++ 32 :: rest) =
    match strstr console word with
    | some found => some (named word found ++ 32 :: rest)
    | none => (cutText rest).map fun later => word ++ 32 :: later := by
  rw [cutText, strstr_blank]
  cases search : strstr console word with
  | some found =>
      obtain ⟨_, parts⟩ := strstr_some search
      have within : found.length ≤ word.length := by
        rw [← parts, List.length_append]
        exact Nat.le_add_left _ _
      have bare : 32 ∉ found := fun member => plain (parts ▸ List.mem_append_right _ member)
      have place : (word ++ 32 :: rest).length - (found ++ 32 :: rest).length =
          word.length - found.length := by
        rw [List.length_append, List.length_append, Nat.add_sub_add_right]
      rw [Option.map_some, cut_at_first bare, place, List.take_append_of_le_length (Nat.sub_le _ _)]
      rfl
  | none =>
      dsimp only
      rw [cutText, Option.map_map]
      cases later : strstr console rest with
      | none => rfl
      | some found =>
          obtain ⟨_, parts⟩ := strstr_some later
          have within : found.length ≤ rest.length := by
            rw [← parts, List.length_append]
            exact Nat.le_add_left _ _
          have place : (word ++ 32 :: rest).length - found.length =
              (word ++ [32]).length + (rest.length - found.length) := by
            simp only [List.length_append, List.length_cons, List.length_nil]
            omega
          have behind : word ++ 32 :: rest = (word ++ [32]) ++ rest := List.append_cons word 32 rest
          rw [Option.map_some, Option.map_some, place, behind, List.take_length_add_append,
            Function.comp_apply, List.append_assoc, List.append_assoc, List.append_assoc,
            List.append_assoc]
          rfl

theorem cut_text_plain (plain : 32 ∉ word) :
    cutText word = (strstr console word).map (named word) := by
  rw [cutText]
  cases search : strstr console word with
  | none => rfl
  | some found =>
      obtain ⟨_, parts⟩ := strstr_some search
      have bare : 32 ∉ found := fun member => plain (parts ▸ List.mem_append_right _ member)
      rw [Option.map_some, Option.map_some, cut_at_none bare]
      exact congrArg some (List.append_nil _)

/-- The text in front of a blank, with what is built behind it. -/
theorem get_d_blank (built : Option (List UInt8)) (word rest : List UInt8) :
    (built.map fun later => word ++ 32 :: later).getD ((word ++ 32 :: rest) ++ 32 :: console) =
      word ++ 32 :: built.getD (rest ++ 32 :: console) := by
  cases built with
  | none => simp
  | some later => rfl

/-- The arguments are left as they are exactly where their first `console=` is an empty one. -/
theorem wanted_same (line : List UInt8) :
    wanted line = line ↔
      (words line).find? (fun word => console.isPrefixOf word) = some console := by
  induction line using line_induction with
  | plain word plain =>
      rw [wanted_eq, emptied_plain plain, words_plain plain]
      by_cases starts : console.isPrefixOf word
      · rw [if_pos starts, List.find?_cons_of_pos starts, Option.getD_some, Option.some_inj]
        exact eq_comm
      · rw [if_neg starts, List.find?_cons_of_neg starts, Option.getD_none, List.find?_nil]
        refine iff_of_false (fun same => ?_) (Option.some_ne_none _).symm
        exact absurd (List.append_right_eq_self.mp same) (List.cons_ne_nil _ _)
  | blank word rest plain inductive_hypothesis =>
      rw [wanted_eq, emptied_blank plain, words_blank plain]
      by_cases starts : console.isPrefixOf word
      · rw [if_pos starts, List.find?_cons_of_pos starts, Option.getD_some, Option.some_inj,
          blank_inj console_plain plain]
        exact ⟨fun same => same.1.symm, fun same => ⟨same.symm, rfl⟩⟩
      · rw [if_neg starts, List.find?_cons_of_neg starts, get_d_blank, ← wanted_eq,
          blank_inj plain plain, inductive_hypothesis]
        exact and_iff_right rfl

theorem named_length (search : strstr console word = some found) :
    (named word found).length ≤ word.length := by
  obtain ⟨starts, parts⟩ := strstr_some search
  rw [named, List.length_append]
  conv_rhs => rw [← parts, List.length_append]
  exact Nat.add_le_add_left starts.length_le _

/-- Nothing changes in an argument where the text found is the bare `console=`. -/
theorem named_same (search : strstr console word = some found) :
    named word found = word ↔ found = console := by
  obtain ⟨_, parts⟩ := strstr_some search
  constructor
  · intro same
    rw [named] at same
    exact (List.append_cancel_left (same.trans parts.symm)).symm
  · intro bare
    rw [named, ← bare, parts]

theorem named_self (word : List UInt8) : named word word = console := by
  rw [named, Nat.sub_self, List.take_zero, List.nil_append]

/-- The argument in which the search of the code ends. -/
theorem find_found (others : List (List UInt8)) (search : strstr console word = some found) :
    (word :: others).find? (fun word => (strstr console word).isSome) = some word :=
  List.find?_cons_of_pos (by rw [search]; rfl)

theorem find_past (others : List (List UInt8)) (search : strstr console word = none) :
    (word :: others).find? (fun word => (strstr console word).isSome) =
      others.find? fun word => (strstr console word).isSome :=
  List.find?_cons_of_neg (by rw [search]; exact Bool.false_ne_true)

theorem not_starts (search : strstr console word = none) : ¬ console.isPrefixOf word := by
  intro starts
  rw [strstr_here (List.isPrefixOf_iff_prefix.mp starts)] at search
  cases search

theorem fixed_iff_named (line : List UInt8) : fixedText line = wanted line ↔ Named line := by
  induction line using line_induction with
  | plain word plain =>
      rw [fixedText, wanted_eq, cut_text_plain plain, emptied_plain plain, Named, words_plain plain]
      cases search : strstr console word with
      | none =>
          rw [if_neg (not_starts search), find_past [] search]
          exact iff_of_true rfl trivial
      | some found =>
          rw [find_found [] search]
          by_cases starts : console.isPrefixOf word
          · have here := List.isPrefixOf_iff_prefix.mp starts
            rw [strstr_here here] at search
            cases search
            rw [if_pos starts, Option.map_some, named_self]
            exact iff_of_true rfl (Or.inl here)
          · rw [if_neg starts, Option.map_some, Option.getD_some, Option.getD_none]
            refine iff_of_false (fun same => ?_) ?_
            · have short := named_length search
              rw [same, List.length_append, List.length_cons] at short
              omega
            · rintro (here | ⟨_, again⟩)
              · exact starts (List.isPrefixOf_iff_prefix.mpr here)
              · rw [List.find?_cons_of_neg starts] at again
                cases again
  | blank word rest plain inductive_hypothesis =>
      rw [fixedText, wanted_eq, cut_text_blank plain, emptied_blank plain, Named, words_blank plain]
      cases search : strstr console word with
      | none =>
          rw [if_neg (not_starts search), find_past _ search,
            List.find?_cons_of_neg (not_starts search), get_d_blank, get_d_blank,
            blank_inj plain plain, ← wanted_eq]
          exact (and_iff_right rfl).trans inductive_hypothesis
      | some found =>
          rw [find_found _ search]
          dsimp only
          by_cases starts : console.isPrefixOf word
          · have here := List.isPrefixOf_iff_prefix.mp starts
            rw [strstr_here here] at search
            cases search
            rw [if_pos starts, named_self]
            exact iff_of_true rfl (Or.inl here)
          · have bare : 32 ∉ named word found := by
              rw [named, List.mem_append, not_or]
              exact ⟨fun member => plain (List.mem_of_mem_take member), console_plain⟩
            rw [if_neg starts, List.find?_cons_of_neg starts, get_d_blank, Option.getD_some,
              blank_inj bare plain, ← wanted_eq, named_same search, eq_comm (a := rest), wanted_same,
              search, Option.some_inj]
            refine (or_iff_right fun here => ?_).symm
            exact starts (List.isPrefixOf_iff_prefix.mpr here)

/-- The value of an argument is taken away. -/
theorem wanted_length (line : List UInt8) : (wanted line).length = finalSize line := by
  induction line using line_induction with
  | plain word plain =>
      rw [wanted_eq, emptied_plain plain, finalSize, words_plain plain]
      by_cases starts : console.isPrefixOf word
      · have long := (List.isPrefixOf_iff_prefix.mp starts).length_le
        rw [if_pos starts, List.find?_cons_of_pos starts]
        exact (Nat.sub_sub_self long).symm
      · rw [if_neg starts, List.find?_cons_of_neg starts]
        simp only [Option.getD_none, List.find?_nil, List.length_append, List.length_cons]
        omega
  | blank word rest plain inductive_hypothesis =>
      rw [wanted_eq, emptied_blank plain, finalSize, words_blank plain]
      by_cases starts : console.isPrefixOf word
      · have long := (List.isPrefixOf_iff_prefix.mp starts).length_le
        rw [if_pos starts, List.find?_cons_of_pos starts]
        simp only [Option.getD_some, List.length_append, List.length_cons]
        omega
      · rw [if_neg starts, List.find?_cons_of_neg starts, get_d_blank, ← wanted_eq,
          List.length_append, List.length_cons, inductive_hypothesis, finalSize]
        cases found : (words rest).find? fun word => console.isPrefixOf word with
        | none =>
            simp only [List.length_append, List.length_cons]
            omega
        | some value =>
            have within := word_length_le rest value (List.mem_of_find?_eq_some found)
            simp only [List.length_append, List.length_cons]
            omega

theorem fixed_terminated (line : CString) : 0 ∉ fixedText line.bytes := by
  have plain : 0 ∉ console := by decide
  have kept := line.terminated
  rw [fixedText, cutText]
  cases search : strstr console line.bytes with
  | none =>
      rw [Option.map_none, Option.getD_none, List.mem_append, List.mem_cons, not_or, not_or]
      exact ⟨kept, by decide, plain⟩
  | some found =>
      obtain ⟨_, parts⟩ := strstr_some search
      have behind : 0 ∉ found := fun member => kept (parts ▸ List.mem_append_right _ member)
      rw [Option.map_some, Option.getD_some, List.mem_append, List.mem_append, not_or, not_or]
      refine ⟨⟨fun member => kept (List.mem_of_mem_take member), plain⟩, ?_⟩
      cases cut : cutAt 32 found with
      | none => exact List.not_mem_nil
      | some pieces =>
          obtain ⟨front, rest⟩ := pieces
          rw [(cut_at_some cut).1] at behind
          exact fun member => behind (List.mem_append_right _ member)

end Built

/-! ### The buffer -/

section Buffer
variable {text : List UInt8} {stores : Stores UInt8}

theorem inside_iff (stores : Stores UInt8) (limit : Nat) :
    (∀ store ∈ stores, store.1 + store.2.length ≤ limit) ↔ extent stores ≤ limit := by
  induction stores with
  | nil => simp [extent]
  | cons store stores inductive_hypothesis =>
      rw [List.forall_mem_cons, inductive_hypothesis]
      exact (max_le_iff (a := store.1 + store.2.length) (b := extent stores)).symm

theorem buf_text_of (mem : Nat → UInt8) (terminated : 0 ∉ text)
    (stored : apply mem 0 stores = splice mem 0 (text ++ [0]))
    (ends : extent stores = text.length + 1) : bufText mem stores = text := by
  have all : ∀ byte ∈ text, decide (byte ≠ 0) = true := fun byte member =>
    decide_eq_true fun zero => terminated (zero ▸ member)
  have whole := slice_splice_same mem 0 (text ++ [0])
  rw [List.length_append, List.length_singleton] at whole
  rw [bufText, stored, ends, whole, List.takeWhile_append_of_pos all, List.takeWhile_cons_of_neg (by simp),
    List.append_nil]

/-- A later store covers an earlier one at the same place. -/
theorem splice_cover (mem : Nat → UInt8) (start : Nat) {first second : List UInt8}
    (shorter : first.length ≤ second.length) :
    splice (splice mem start first) start second = splice mem start second := by
  funext address
  unfold splice
  by_cases above : start ≤ address
  · by_cases within : address - start < second.length
    · simp [above, within]
    · have past : first.length ≤ address - start := by omega
      simp [above, List.getElem?_eq_none past]
  · simp [above]

/-- strncpy stops behind the `console=` that is found. -/
theorem strncpy_named {line found : List UInt8} (search : strstr console line = some found) :
    strncpy line (line.length - found.length + 8) = named line found := by
  obtain ⟨starts, parts⟩ := strstr_some search
  obtain ⟨behind, rfl⟩ := starts
  rw [named]
  generalize front_of : line.take (line.length - (console ++ behind).length) = front at parts ⊢
  have place : line.length - (console ++ behind).length = front.length := by
    rw [← parts, List.length_append, Nat.add_sub_cancel]
  have whole : line ++ [0] = (front ++ console) ++ (behind ++ [0]) := by
    rw [← parts, List.append_assoc, List.append_assoc, List.append_assoc]
  have size : front.length + 8 = (front ++ console).length := by
    rw [List.length_append]
    rfl
  rw [strncpy, place, whole, size, List.take_left]

theorem found_place {line found : List UInt8} (search : strstr console line = some found) :
    line.length - found.length + 8 = (named line found).length := by
  rw [← strncpy_named search, strncpy, List.length_take, List.length_append]
  obtain ⟨starts, parts⟩ := strstr_some search
  have long : 8 ≤ found.length := starts.length_le
  have within : found.length ≤ line.length := by
    rw [← parts, List.length_append]
    exact Nat.le_add_left _ _
  simp only [List.length_singleton]
  omega

/-- Two pieces behind one another, the later one terminated, are one string. -/
theorem pieces_of (mem : Nat → UInt8) (front back : List UInt8) :
    extent [(0, front), (front.length, strcpy back)] = (front ++ back).length + 1 ∧
      apply mem 0 [(0, front), (front.length, strcpy back)] = splice mem 0 (front ++ back ++ [0]) := by
  constructor
  · simp only [extent, strcpy, List.map_cons, List.map_nil, List.foldr_cons, List.foldr_nil,
      List.length_append, List.length_singleton]
    omega
  · have behind := splice_append mem 0 front (strcpy back)
    rw [strcpy, ← List.append_assoc] at behind
    exact behind

/-- The stores, whatever there is in the boot arguments, are those of one string. -/
theorem stores_of (line : CString) : ∃ stores,
    fixupSilentLinux true (some line) = some stores ∧
      extent stores = (fixedText line.bytes).length + 1 ∧
        ∀ mem, apply mem 0 stores = splice mem 0 (fixedText line.bytes ++ [0]) := by
  rw [fixupSilentLinux, if_pos rfl]
  refine ⟨_, rfl, ?_⟩
  rw [fixedText, cutText, fixCmdline]
  cases search : strstr console line.bytes with
  | none =>
      rw [Option.map_none, Option.getD_none]
      constructor
      · simp only [extent, strcpy, List.map_cons, List.map_nil, List.foldr_cons, List.foldr_nil,
          List.length_append, List.length_cons, List.length_nil]
        omega
      · intro mem
        -- strcat overwrites the NUL of strcpy
        have shorter : ([0] : List UInt8).length ≤ (strcpy (32 :: console)).length := by decide
        have covered := splice_cover (splice mem 0 line.bytes) (0 + line.bytes.length) shorter
        rw [splice_append, splice_append] at covered
        rw [List.append_assoc]
        exact covered
  | some found =>
      rw [Option.map_some, Option.getD_some]
      dsimp only
      rw [strncpy_named search, found_place search]
      have pieces := fun mem => pieces_of mem (named line.bytes found)
      cases cutAt 32 found with
      | none => exact ⟨(pieces default []).1, fun mem => (pieces mem []).2⟩
      | some cut => exact ⟨(pieces default (32 :: cut.2)).1, fun mem => (pieces mem (32 :: cut.2)).2⟩

/-- The stores for a line stay in the buffer where the string does. -/
theorem silenced_iff (line : CString) :
    (∀ stores, fixupSilentLinux true (some line) = some stores → Silenced (some line) stores) ↔
      (fixedText line.bytes).length < sizeofBuf ∧ fixedText line.bytes = wanted line.bytes := by
  obtain ⟨stores, run, ends, stored⟩ := stores_of line
  have text : ∀ mem, bufText mem stores = fixedText line.bytes := fun mem =>
    buf_text_of mem (fixed_terminated line) (stored mem) ends
  have inside := inside_iff stores sizeofBuf
  rw [ends] at inside
  constructor
  · intro good
    obtain ⟨below, wanted⟩ := good stores run
    exact ⟨inside.mp below, (text fun _ => 0).symm.trans (wanted fun _ => 0)⟩
  · rintro ⟨below, same⟩ others again
    cases run.symm.trans again
    exact ⟨inside.mpr below, fun mem => (text mem).trans same⟩

end Buffer

/-- The buffer holds the stores, and the string in it is the wanted one, exactly where the string is
shorter than the buffer and the first argument with `console=` in it is the argument `console=`. -/
theorem fixup_silent_linux_iff (silent : Bool) (cmdline : Option CString) :
    (∀ stores, fixupSilentLinux silent cmdline = some stores → Silenced cmdline stores) ↔
      (silent = true → ∀ line ∈ cmdline, finalSize line.bytes < sizeofBuf ∧ Named line.bytes) := by
  cases silent with
  | false => exact iff_of_true (fun stores run => nomatch run) (fun on => nomatch on)
  | true =>
      cases cmdline with
      | none =>
          refine iff_of_true ?_ (fun _ line member => nomatch member)
          intro stores run
          cases run
          refine ⟨by decide, fun mem => ?_⟩
          exact buf_text_of mem (by decide) rfl rfl
      | some line =>
          rw [silenced_iff]
          constructor
          · rintro ⟨below, same⟩ _ line ⟨⟩
            rw [← wanted_length, ← same]
            exact ⟨below, (fixed_iff_named line.bytes).mp same⟩
          · intro right
            obtain ⟨below, named⟩ := right rfl line rfl
            have same := (fixed_iff_named line.bytes).mpr named
            rw [← wanted_length, ← same] at below
            exact ⟨below, same⟩

def rootLine : CString := ⟨ascii "netconsole=6666 console=ttyS0", by decide⟩

/-- The text inside another argument is taken for the argument. -/
theorem netconsole_cut :
    ¬ ∀ stores, fixupSilentLinux true (some rootLine) = some stores → Silenced (some rootLine) stores := by
  intro good
  have stored := (good _ rfl).stored fun _ => 0
  revert stored
  decide

end UBoot.Image.SilentLinux
