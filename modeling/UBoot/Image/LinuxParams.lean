import UBoot.Library.BigEndian
import UBoot.Mtd.MtdParts

/-!
linux_params_init of lib_mips/mips_linux.c. It splits the boot arguments at the blanks outside
double quotes. The vector of the arguments and their strings stand in one area, the strings behind
LINUX_MAX_ARGS pointers.
-/

namespace UBoot.Image.LinuxParams

open Lib.Strings Library.Memory Library.BigEndian

def LINUX_MAX_ARGS : Nat := 256

def LINUX_MAX_ENVS : Nat := 256

/-- What the build is for; `virian` is `is_ar7241() || is_ar7242()`. -/
inductive Soc where
  | other
  | ar9100
  | atheros
  | ar7240 (virian : Bool)
deriving DecidableEq

def Soc.addsMem : Soc → Bool
  | .other => false
  | _ => true

def strstr (find : List UInt8) : List UInt8 → Option (List UInt8)
  | [] => if find = [] then some [] else none
  | c :: rest => if find.isPrefixOf (c :: rest) then some (c :: rest) else strstr find rest

/-- The position of the first `c` from `start` on. -/
def strchr (line : List UInt8) (start : Nat) (c : UInt8) : Option Nat :=
  (cutAt c (line.drop start)).map fun cut => start + cut.1.length

/-- The loop over the quotes in front of the next blank. -/
def quoteLoop (line : List UInt8) : (fuel : Nat) → (quote next : Option Nat) → Option Nat
  | fuel + 1, some quote, some next =>
      if quote < next then
        match strchr line (quote + 1) 34 with
        | none => none
        | some right =>
            quoteLoop line fuel (strchr line (right + 1) 34) (strchr line (right + 1) 32)
      else some next
  | _, _, next => next

/-- `next - line` behind the search. -/
def wordSize (line : List UInt8) : Nat :=
  (quoteLoop line line.length (strchr line 0 34) (strchr line 0 32)).getD line.length

structure Params where
  argc : Nat
  argp : Nat
  mem : Nat → UInt8

def Soc.revision : Soc → Option (List UInt8)
  | .ar7240 virian => some (if virian then ascii "virian" else ascii "python")
  | _ => none

def revstr : List UInt8 := ascii "REVISIONID"

/-- What the loop does with one word. -/
def storeArg (soc : Soc) (start : Nat) (params : Params) (word : List UInt8) : Params :=
  let mem := splice params.mem (start + 4 * params.argc) (wordBytes params.argp)
  let mem := splice mem params.argp (word ++ [0])
  let mem :=
    match soc.revision with
    | some name => if word = revstr then splice mem params.argp (name ++ [0]) else mem
    | none => mem
  { argc := params.argc + 1, argp := params.argp + (word.length + 1), mem := mem }

def argLoop (soc : Soc) (start : Nat) : (fuel : Nat) → (line : List UInt8) → Params → Params
  | 0, _, params => params
  | fuel + 1, line, params =>
      if line ≠ [] ∧ params.argc < LINUX_MAX_ARGS then
        let size := wordSize line
        argLoop soc start fuel (line.drop (size + 1)) (storeArg soc start params (line.take size))
      else params

/-- "mem=%luM". -/
def memstr (ramSize : BitVec 32) : List UInt8 :=
  ascii "mem=" ++ Mtd.MtdParts.decimal (ramSize.toNat >>> 20) ++ ascii "M"

/-- The memory size is added on some boards, unless the line has it. -/
def addsMem (soc : Soc) (line : List UInt8) : Bool := soc.addsMem && (strstr (ascii "mem=") line).isNone

def addMem (start : Nat) (ramSize : BitVec 32) (params : Params) : Params :=
  let mem := splice params.mem params.argp (memstr ramSize ++ [0])
  let mem := splice mem (start + 4 * params.argc) (wordBytes params.argp)
  { argc := params.argc + 1, argp := params.argp + ((memstr ramSize).length + 1), mem := mem }

/-- The vector with its null entry, in front of the loop. -/
def nullEntry (mem : Nat → UInt8) (start : Nat) : Params where
  argc := 1
  argp := start + 4 * LINUX_MAX_ARGS
  mem := splice mem start (wordBytes 0)

structure Linux where
  params : Params
  env : Nat
  envP : Nat
  envIdx : Nat

/-- linux_params_init. Without a line, strstr reads through the null pointer. -/
def linuxParamsInit (soc : Soc) (mem : Nat → UInt8) (start : Nat) (line : Option CString)
    (ramSize : BitVec 32) : Option Linux :=
  line.map fun line =>
    let params := argLoop soc start LINUX_MAX_ARGS line.bytes (nullEntry mem start)
    let params := if addsMem soc line.bytes then addMem start ramSize params else params
    let env := (params.argp + 15) / 16 * 16
    { params := { params with mem := splice params.mem env (wordBytes 0) }
      env := env, envP := env + 4 * LINUX_MAX_ENVS, envIdx := 0 }

/-! ### The words of a line -/

/-- The first blank outside quotes. -/
def blankAt : (inside : Bool) → List UInt8 → Option Nat
  | _, [] => none
  | inside, c :: rest =>
      if c = 32 ∧ inside = false then some 0
      else (blankAt (if c = 34 then !inside else inside) rest).map (· + 1)

def wordsFrom : (inside : Bool) → (word : List UInt8) → List UInt8 → List (List UInt8)
  | _, word, [] => if word = [] then [] else [word]
  | inside, word, c :: rest =>
      if c = 32 ∧ inside = false then word :: wordsFrom false [] rest
      else wordsFrom (if c = 34 then !inside else inside) (word ++ [c]) rest

/-- The words of a line: every blank outside quotes ends one, so that an empty word stands in front
of a blank at the start and between two blanks, and none behind a blank at the end. -/
def words (line : List UInt8) : List (List UInt8) := wordsFrom false [] line

section Blanks
variable {text front rest : List UInt8}

theorem blank_at_none (inside : Bool) (plain : 32 ∉ text) : blankAt inside text = none := by
  induction text generalizing inside with
  | nil => rfl
  | cons c text inductive_hypothesis =>
      rw [List.mem_cons, not_or] at plain
      rw [blankAt, if_neg fun both => plain.1 both.1.symm, inductive_hypothesis _ plain.2]
      rfl

theorem blank_at_first (plain : 32 ∉ front) (bare : 34 ∉ front) :
    blankAt false (front ++ 32 :: rest) = some front.length := by
  induction front with
  | nil => rfl
  | cons c front inductive_hypothesis =>
      rw [List.mem_cons, not_or] at plain bare
      rw [List.cons_append, blankAt, if_neg fun both => plain.1 both.1.symm,
        if_neg (Ne.symm bare.1), inductive_hypothesis plain.2 bare.2]
      rfl

/-- An open quote hides the blanks behind it. -/
theorem blank_at_open (bare : 34 ∉ text) : blankAt true text = none := by
  induction text with
  | nil => rfl
  | cons c text inductive_hypothesis =>
      rw [List.mem_cons, not_or] at bare
      rw [blankAt, if_neg fun both => Bool.noConfusion both.2, if_neg (Ne.symm bare.1),
        inductive_hypothesis bare.2]
      rfl

theorem blank_at_opens (plain : 32 ∉ front) (bare : 34 ∉ front) :
    blankAt false (front ++ 34 :: rest) = (blankAt true rest).map (· + (front.length + 1)) := by
  induction front with
  | nil =>
      rw [List.nil_append, blankAt, if_neg (by decide), if_pos rfl]
      rfl
  | cons c front inductive_hypothesis =>
      rw [List.mem_cons, not_or] at plain bare
      rw [List.cons_append, blankAt, if_neg fun both => plain.1 both.1.symm,
        if_neg (Ne.symm bare.1), inductive_hypothesis plain.2 bare.2, Option.map_map]
      rfl

theorem blank_at_closes (bare : 34 ∉ front) :
    blankAt true (front ++ 34 :: rest) = (blankAt false rest).map (· + (front.length + 1)) := by
  induction front with
  | nil =>
      rw [List.nil_append, blankAt, if_neg (by decide), if_pos rfl]
      rfl
  | cons c front inductive_hypothesis =>
      rw [List.mem_cons, not_or] at bare
      rw [List.cons_append, blankAt, if_neg fun both => Bool.noConfusion both.2,
        if_neg (Ne.symm bare.1), inductive_hypothesis bare.2, Option.map_map]
      rfl

theorem front_of_longer {other tail : List UInt8} {c d : UInt8}
    (same : front ++ c :: rest = other ++ d :: tail) (short : front.length ≤ other.length) :
    front = other.take front.length := by
  have cut := congrArg (List.take front.length) same
  rwa [List.take_left, List.take_append_of_le_length short] at cut

/-- The loop over the quotes finds the first blank outside them. -/
theorem quote_loop_eq (line : List UInt8) (fuel start : Nat) (enough : line.length ≤ start + fuel) :
    quoteLoop line fuel (strchr line start 34) (strchr line start 32) =
      (blankAt false (line.drop start)).map (start + ·) := by
  induction fuel generalizing start with
  | zero =>
      rw [strchr, strchr, List.drop_eq_nil_of_le (by exact enough)]
      rfl
  | succ fuel inductive_hypothesis =>
      have later : ∀ {front rest : List UInt8} {c : UInt8} {base : Nat},
          line.drop base = front ++ c :: rest → line.drop (base + front.length + 1) = rest := by
        intro front rest c base parts
        rw [Nat.add_assoc, ← List.drop_drop, parts, ← List.drop_drop, List.drop_left]
        rfl
      cases blank : cutAt 32 (line.drop start) with
      | none =>
          have none : strchr line start 32 = none := by rw [strchr, blank]; rfl
          rw [none, blank_at_none false (cut_at_absent blank)]
          cases strchr line start 34 with
          | none => rfl
          | some quote => rfl
      | some cut =>
          obtain ⟨front, rest⟩ := cut
          obtain ⟨parts, plain⟩ := cut_at_some blank
          have next : strchr line start 32 = some (start + front.length) := by rw [strchr, blank]; rfl
          cases opened : cutAt 34 (line.drop start) with
          | none =>
              have bare := cut_at_absent opened
              have none : strchr line start 34 = none := by rw [strchr, opened]; rfl
              rw [parts, List.mem_append, not_or] at bare
              rw [none, next, parts, blank_at_first plain bare.1]
              rfl
          | some cut =>
              obtain ⟨before, behind⟩ := cut
              obtain ⟨pieces, bare⟩ := cut_at_some opened
              have quote : strchr line start 34 = some (start + before.length) := by
                rw [strchr, opened]; rfl
              rw [quote, next, quoteLoop]
              by_cases first : before.length < front.length
              · have clear : 32 ∉ before := by
                  rw [front_of_longer (pieces.symm.trans parts) (Nat.le_of_lt first)]
                  exact fun member => plain (List.mem_of_mem_take member)
                rw [if_pos (Nat.add_lt_add_left first start), pieces, blank_at_opens clear bare,
                  strchr, later pieces]
                cases closed : cutAt 34 behind with
                | none =>
                    rw [blank_at_open (cut_at_absent closed)]
                    rfl
                | some cut =>
                    obtain ⟨inner, tail⟩ := cut
                    obtain ⟨halves, held⟩ := cut_at_some closed
                    have place : line.drop (start + before.length + 1 + inner.length + 1) = tail :=
                      later ((later pieces).trans halves)
                    dsimp only [Option.map_some]
                    rw [inductive_hypothesis _ (by omega), place, halves, blank_at_closes held,
                      Option.map_map, Option.map_map]
                    refine congrArg (fun f => Option.map f (blankAt false tail)) ?_
                    funext position
                    simp only [Function.comp_apply]
                    omega
              · have clear : 34 ∉ front := by
                  rw [front_of_longer (parts.symm.trans pieces) (Nat.not_lt.mp first)]
                  exact fun member => bare (List.mem_of_mem_take member)
                rw [if_neg fun less => first (Nat.lt_of_add_lt_add_left less), parts,
                  blank_at_first plain clear]
                rfl

theorem word_size_eq (line : List UInt8) :
    wordSize line = (blankAt false line).getD line.length := by
  rw [wordSize, quote_loop_eq line line.length 0 (by omega), List.drop_zero]
  simp only [Nat.zero_add, Option.map_id']

theorem words_from_eq (inside : Bool) (word line : List UInt8) :
    wordsFrom inside word line =
      match blankAt inside line with
      | some size => (word ++ line.take size) :: wordsFrom false [] (line.drop (size + 1))
      | none => if word ++ line = [] then [] else [word ++ line] := by
  induction line generalizing inside word with
  | nil =>
      rw [wordsFrom, blankAt, List.append_nil]
  | cons c rest inductive_hypothesis =>
      rw [wordsFrom, blankAt]
      by_cases ends : c = 32 ∧ inside = false
      · rw [if_pos ends, if_pos ends]
        dsimp only
        rw [List.take_zero, List.append_nil]
        rfl
      · rw [if_neg ends, if_neg ends, inductive_hypothesis]
        cases blankAt (if c = 34 then !inside else inside) rest with
        | none =>
            rw [List.append_assoc]
            rfl
        | some size =>
            dsimp only [Option.map_some]
            rw [List.append_assoc]
            rfl

/-- The words are what the loop cuts off, one after the other. -/
theorem words_next {line : List UInt8} (some_line : line ≠ []) :
    words line = line.take (wordSize line) :: words (line.drop (wordSize line + 1)) := by
  rw [words, words_from_eq, word_size_eq]
  cases blankAt false line with
  | none =>
      dsimp only [Option.getD_none]
      rw [List.nil_append, if_neg some_line, List.take_length, List.drop_eq_nil_of_le (Nat.le_succ _)]
      rfl
  | some size => rfl

/-- The blank that ends a word, and the quotes in front of it. -/
theorem blank_at_some {inside : Bool} {line : List UInt8} {size : Nat}
    (found : blankAt inside line = some size) :
    line = line.take size ++ 32 :: line.drop (size + 1) ∧ blankAt inside (line.take size) = none ∧
      ((line.take size).count 34 + inside.toNat) % 2 = 0 := by
  induction line generalizing inside size with
  | nil => cases found
  | cons c rest inductive_hypothesis =>
      rw [blankAt] at found
      by_cases ends : c = 32 ∧ inside = false
      · rw [if_pos ends] at found
        cases found
        rw [ends.1, ends.2]
        exact ⟨rfl, rfl, rfl⟩
      · rw [if_neg ends] at found
        obtain ⟨position, later, moved⟩ := Option.map_eq_some_iff.mp found
        rw [← moved]
        obtain ⟨parts, plain, quotes⟩ := inductive_hypothesis later
        refine ⟨congrArg (c :: ·) parts, ?_, ?_⟩
        · rw [List.take_succ_cons, blankAt, if_neg ends, plain]
          rfl
        · rw [List.take_succ_cons]
          by_cases quote : c = 34
          · rw [if_pos quote] at quotes
            rw [quote, List.count_cons_self]
            cases inside with
            | true =>
                rw [Bool.not_true, Bool.toNat_false] at quotes
                rw [Bool.toNat_true]
                omega
            | false =>
                rw [Bool.not_false, Bool.toNat_true] at quotes
                rw [Bool.toNat_false]
                omega
          · rw [if_neg quote] at quotes
            rw [List.count_cons_of_ne quote]
            exact quotes

end Blanks

/-- The strings are the words of a line: joined by single blanks they are the line, up to a blank at
its end; none has a blank outside quotes, and an open quote goes on to the end of the line. -/
structure WordsOf (line : List UInt8) (strings : List (List UInt8)) : Prop where
  joined : line = List.intercalate [32] strings ∨ line = List.intercalate [32] strings ++ [32]
  plain : ∀ word ∈ strings, blankAt false word = none
  closed : ∀ word ∈ strings.dropLast, word.count 34 % 2 = 0

theorem words_of (line : List UInt8) : WordsOf line (words line) := by
  induction size : line.length using Nat.strong_induction_on generalizing line with
  | h length inductive_hypothesis =>
      by_cases empty : line = []
      · rw [empty]
        exact ⟨Or.inl rfl, fun _ member => absurd member List.not_mem_nil,
          fun _ member => absurd member List.not_mem_nil⟩
      · have next := words_next empty
        rw [word_size_eq] at next
        cases found : blankAt false line with
        | none =>
            rw [found, Option.getD_none, List.take_length, List.drop_eq_nil_of_le (Nat.le_succ _)] at next
            have one : words line = [line] := next
            rw [one]
            refine ⟨Or.inl List.intercalate_singleton.symm, ?_, ?_⟩
            · intro word member
              rw [List.mem_singleton.mp member]
              exact found
            · exact fun _ member => absurd member List.not_mem_nil
        | some place =>
            obtain ⟨parts, plain, quotes⟩ := blank_at_some found
            rw [found, Option.getD_some] at next
            have shorter : (line.drop (place + 1)).length < length := by
              have whole := congrArg List.length parts
              rw [List.length_append, List.length_cons, List.length_take] at whole
              omega
            have rest := inductive_hypothesis _ shorter (line.drop (place + 1)) rfl
            rw [next]
            by_cases last : line.drop (place + 1) = []
            · rw [last] at parts ⊢
              have none : words [] = [] := rfl
              rw [none]
              refine ⟨Or.inr ?_, ?_, fun _ member => absurd member List.not_mem_nil⟩
              · rw [List.intercalate_singleton]
                exact parts
              · intro word member
                rw [List.mem_singleton.mp member]
                exact plain
            · have more : words (line.drop (place + 1)) ≠ [] := by
                rw [words_next last]
                exact List.cons_ne_nil _ _
              refine ⟨?_, ?_, ?_⟩
              · rw [List.intercalate_cons_of_ne_nil more]
                rcases rest.joined with whole | whole
                · left
                  rw [List.append_assoc, ← whole]
                  exact parts
                · right
                  rw [List.append_assoc, List.append_assoc, ← whole]
                  exact parts
              · exact List.forall_mem_cons.mpr ⟨plain, rest.plain⟩
              · rw [List.dropLast_cons_of_ne_nil more]
                exact List.forall_mem_cons.mpr ⟨quotes, rest.closed⟩

/-! ### The vector and the strings -/

/-- The vector has the arguments behind its null entry, and their strings stand behind the vector,
each with its NUL. -/
structure Arguments (start : Nat) (params : Params) (strings : List (List UInt8)) : Prop where
  count : params.argc = strings.length + 1
  inside : params.argc ≤ LINUX_MAX_ARGS
  above : start + 4 * LINUX_MAX_ARGS ≤ params.argp
  null : slice params.mem start 4 = wordBytes 0
  placed : ∀ i (bound : i < strings.length), ∃ place,
    slice params.mem (start + 4 * (i + 1)) 4 = wordBytes place ∧
    start + 4 * LINUX_MAX_ARGS ≤ place ∧ place + (strings[i].length + 1) ≤ params.argp ∧
    slice params.mem place (strings[i].length + 1) = strings[i] ++ [0]

section Stores
variable {start : Nat} {params : Params} {strings : List (List UInt8)}
  (stored : Arguments start params strings)
include stored

/-- Memory that is the same in front of `argp`. -/
theorem arguments_frame {mem : Nat → UInt8} (same : ∀ a < params.argp, mem a = params.mem a) :
    Arguments start { params with mem := mem } strings := by
  have above := stored.above
  have inside := stored.inside
  have count := stored.count
  refine ⟨stored.count, stored.inside, stored.above, ?_, ?_⟩
  · refine Eq.trans (slice_congr _ _ _ _ ?_) stored.null
    intro i bound
    exact same (start + i) (by unfold LINUX_MAX_ARGS at above; omega)
  · intro i bound
    obtain ⟨place, pointer, low, high, string⟩ := stored.placed i bound
    refine ⟨place, Eq.trans (slice_congr _ _ _ _ ?_) pointer, low, high,
      Eq.trans (slice_congr _ _ _ _ ?_) string⟩
    · intro j small
      exact same _ (by unfold LINUX_MAX_ARGS at above inside; omega)
    · intro j small
      exact same _ (by omega)

/-- One more argument, at the next place of the vector and of the strings. -/
theorem arguments_add {mem : Nat → UInt8} {argp : Nat} {string : List UInt8}
    (room : params.argc < LINUX_MAX_ARGS) (further : params.argp + (string.length + 1) ≤ argp)
    (pointer : slice mem (start + 4 * params.argc) 4 = wordBytes params.argp)
    (text : slice mem params.argp (string.length + 1) = string ++ [0])
    (same : ∀ a < params.argp, (a < start + 4 * params.argc ∨ start + 4 * params.argc + 4 ≤ a) →
      mem a = params.mem a) :
    Arguments start { argc := params.argc + 1, argp := argp, mem := mem } (strings ++ [string]) := by
  have above := stored.above
  have count := stored.count
  unfold LINUX_MAX_ARGS at above room
  have grown : params.argp ≤ argp := Nat.le_trans (Nat.le_add_right _ _) further
  refine ⟨?_, room, Nat.le_trans stored.above grown, ?_, ?_⟩
  · rw [List.length_append, List.length_singleton, ← count]
  · refine Eq.trans (slice_congr _ _ _ _ ?_) stored.null
    intro i small
    exact same _ (by omega) (by omega)
  · intro i bound
    rw [List.length_append, List.length_singleton] at bound
    by_cases last : i < strings.length
    · obtain ⟨place, old, low, high, kept⟩ := stored.placed i last
      rw [List.getElem_append_left last]
      unfold LINUX_MAX_ARGS at low
      refine ⟨place, Eq.trans (slice_congr _ _ _ _ ?_) old, low,
        Nat.le_trans high grown, Eq.trans (slice_congr _ _ _ _ ?_) kept⟩
      · intro j small
        exact same _ (by omega) (by omega)
      · intro j small
        exact same _ (by omega) (by omega)
    · have here : i = strings.length := by omega
      have place : start + 4 * (i + 1) = start + 4 * params.argc := by omega
      rw [List.getElem_append_right (by omega), place]
      simp only [here, Nat.sub_self, List.getElem_singleton]
      exact ⟨params.argp, pointer, stored.above, further, text⟩

end Stores

/-- What the kernel gets for a word. -/
def Soc.passed (soc : Soc) (word : List UInt8) : List UInt8 :=
  match soc.revision with
  | some name => if word = revstr then name else word
  | none => word

section Params
variable {soc : Soc} {start : Nat} {params : Params} {strings : List (List UInt8)}

theorem revision_short {name : List UInt8} (named : soc.revision = some name) :
    name.length ≤ revstr.length := by
  cases soc with
  | ar7240 virian =>
      cases virian with
      | true =>
          cases named
          decide
      | false =>
          cases named
          decide
  | other => cases named
  | ar9100 => cases named
  | atheros => cases named

theorem pointer_stored (start : Nat) (params : Params) {bytes : List UInt8} (four : bytes.length = 4) :
    slice (splice params.mem (start + 4 * params.argc) bytes) (start + 4 * params.argc) 4 = bytes ∧
      ∀ a < params.argp, (a < start + 4 * params.argc ∨ start + 4 * params.argc + 4 ≤ a) →
        splice params.mem (start + 4 * params.argc) bytes a = params.mem a := by
  constructor
  · rw [← four, slice_splice_same]
  · intro a _ outside
    exact splice_outside _ _ _ _ (by rw [four]; exact outside)

section Adds
variable (stored : Arguments start params strings) (room : params.argc < LINUX_MAX_ARGS)
include stored room

/-- A string is stored behind its pointer. -/
theorem arguments_store {mem : Nat → UInt8} {argp : Nat} {string : List UInt8}
    (further : params.argp + (string.length + 1) ≤ argp)
    (pointer : slice mem (start + 4 * params.argc) 4 = wordBytes params.argp)
    (same : ∀ a < params.argp, (a < start + 4 * params.argc ∨ start + 4 * params.argc + 4 ≤ a) →
      mem a = params.mem a) :
    Arguments start
      { argc := params.argc + 1, argp := argp, mem := splice mem params.argp (string ++ [0]) }
      (strings ++ [string]) := by
  have above := stored.above
  unfold LINUX_MAX_ARGS at above room
  have length : (string ++ [0]).length = string.length + 1 := List.length_append
  refine arguments_add stored room further ?_ ?_ ?_
  · rw [slice_splice_outside _ _ _ _ _ (by omega)]
    exact pointer
  · rw [← length, slice_splice_same]
  · intro a below outside
    rw [splice_outside _ _ _ _ (Or.inl below)]
    exact same a below outside

theorem store_arg_adds (word : List UInt8) :
    Arguments start (storeArg soc start params word) (strings ++ [soc.passed word]) := by
  obtain ⟨pointer, same⟩ := pointer_stored start params (word_bytes_length params.argp)
  have above := stored.above
  unfold LINUX_MAX_ARGS at above room
  unfold storeArg Soc.passed
  cases named : soc.revision with
  | none => exact arguments_store stored room (Nat.le_refl _) pointer same
  | some name =>
      dsimp only
      split
      · next replaced =>
          have short : name.length ≤ word.length := by
            rw [replaced]
            exact revision_short named
          refine arguments_store stored room (by omega) ?_ ?_
          · rw [slice_splice_outside _ _ _ _ _ (by omega)]
            exact pointer
          · intro a below outside
            rw [splice_outside _ _ _ _ (Or.inl below)]
            exact same a below outside
      · exact arguments_store stored room (Nat.le_refl _) pointer same

theorem add_mem_adds (ramSize : BitVec 32) :
    Arguments start (addMem start ramSize params) (strings ++ [memstr ramSize]) := by
  have above := stored.above
  have length : (memstr ramSize ++ [0]).length = (memstr ramSize).length + 1 := List.length_append
  unfold LINUX_MAX_ARGS at above
  have few : params.argc < 256 := room
  refine arguments_add stored room (Nat.le_refl _) ?_ ?_ ?_
  · rw [← word_bytes_length params.argp, slice_splice_same]
  · rw [slice_splice_outside _ _ _ _ _ (by rw [word_bytes_length]; omega), ← length,
      slice_splice_same]
  · intro a below outside
    rw [splice_outside _ _ _ _ (by rw [word_bytes_length]; exact outside),
      splice_outside _ _ _ _ (Or.inl below)]

end Adds

/-- The loop stores the words of the line while the vector has room. -/
theorem arg_loop_adds (fuel : Nat) (line : List UInt8) (params : Params)
    (strings : List (List UInt8)) (stored : Arguments start params strings)
    (enough : LINUX_MAX_ARGS < fuel + params.argc) :
    Arguments start (argLoop soc start fuel line params)
      (strings ++ ((words line).take (LINUX_MAX_ARGS - params.argc)).map soc.passed) := by
  induction fuel generalizing line params strings with
  | zero =>
      have inside := stored.inside
      omega
  | succ fuel inductive_hypothesis =>
      rw [argLoop]
      by_cases goes : line ≠ [] ∧ params.argc < LINUX_MAX_ARGS
      · rw [if_pos goes]
        have added := @store_arg_adds soc start params strings stored goes.2 (line.take (wordSize line))
        have later := inductive_hypothesis (line.drop (wordSize line + 1)) _ _ added
          (by simp only [storeArg]; omega)
        have left : LINUX_MAX_ARGS - params.argc = LINUX_MAX_ARGS - (params.argc + 1) + 1 := by
          omega
        rw [words_next goes.1, left, List.take_succ_cons, List.map_cons]
        rw [List.append_assoc] at later
        exact later
      · rw [if_neg goes]
        have none : ((words line).take (LINUX_MAX_ARGS - params.argc)).map soc.passed = [] := by
          by_cases empty : line = []
          · rw [empty]
            have nothing : words [] = [] := rfl
            rw [nothing, List.take_nil]
            rfl
          · have full : LINUX_MAX_ARGS - params.argc = 0 := by
              have limit : ¬ params.argc < LINUX_MAX_ARGS := fun less => goes ⟨empty, less⟩
              omega
            rw [full]
            rfl
        rw [none, List.append_nil]
        exact stored

end Params

/-- The strings that linux_params_init passes on: as many words as the vector has room for, and the
memory size. -/
def passedStrings (soc : Soc) (line : List UInt8) (ramSize : BitVec 32) : List (List UInt8) :=
  ((words line).take (LINUX_MAX_ARGS - 1)).map soc.passed ++
    if addsMem soc line then [memstr ramSize] else []

theorem null_entry_arguments (mem : Nat → UInt8) (start : Nat) :
    Arguments start (nullEntry mem start) [] where
  count := rfl
  inside := Nat.le_of_ble_eq_true rfl
  above := Nat.le_refl _
  null := slice_splice_same mem start (wordBytes 0)
  placed i bound := absurd bound (Nat.not_lt_zero i)

/-- The arguments behind the loop. -/
theorem loop_arguments (soc : Soc) (mem : Nat → UInt8) (start : Nat) (line : List UInt8) :
    Arguments start (argLoop soc start LINUX_MAX_ARGS line (nullEntry mem start))
      (((words line).take (LINUX_MAX_ARGS - 1)).map soc.passed) := by
  have added := @arg_loop_adds soc start LINUX_MAX_ARGS line _ [] (null_entry_arguments mem start)
    (Nat.lt_succ_self _)
  rwa [List.nil_append] at added

/-- A line that is set is split into its words, and every argument stands in the vector, unless the
memory size is to be added to a full one. -/
theorem params_init_arguments (soc : Soc) (mem : Nat → UInt8) (start : Nat) (line : CString)
    (ramSize : BitVec 32)
    (room : addsMem soc line.bytes = true → (words line.bytes).length < LINUX_MAX_ARGS - 1) :
    WordsOf line.bytes (words line.bytes) ∧
      ∃ linux, linuxParamsInit soc mem start (some line) ramSize = some linux ∧
        Arguments start linux.params (passedStrings soc line.bytes ramSize) := by
  refine ⟨words_of line.bytes, _, rfl, ?_⟩
  have looped := loop_arguments soc mem start line.bytes
  -- linux_env[0] is stored behind the strings
  have behind : ∀ argp a : Nat, a < argp → a < (argp + 15) / 16 * 16 := by
    intro argp a below
    omega
  dsimp only
  unfold passedStrings
  cases adds : addsMem soc line.bytes with
  | false =>
      rw [if_neg Bool.false_ne_true, if_neg Bool.false_ne_true, List.append_nil]
      refine arguments_frame looped ?_
      exact fun a below => splice_outside _ _ _ _ (Or.inl (behind _ a below))
  | true =>
      have few : (argLoop soc start LINUX_MAX_ARGS line.bytes (nullEntry mem start)).argc <
          LINUX_MAX_ARGS := by
        have count := looped.count
        have left := room adds
        rw [List.length_map, List.length_take] at count
        unfold LINUX_MAX_ARGS at count left ⊢
        omega
      rw [if_pos rfl, if_pos rfl]
      refine arguments_frame (add_mem_adds looped few ramSize) ?_
      exact fun a below => splice_outside _ _ _ _ (Or.inl (behind _ a below))

/-- Behind a full vector the memory size is an argument more than there is room for. -/
theorem full_vector_exceeded (soc : Soc) (mem : Nat → UInt8) (start : Nat) (line : CString)
    (ramSize : BitVec 32) (adds : addsMem soc line.bytes = true)
    (full : LINUX_MAX_ARGS - 1 ≤ (words line.bytes).length) :
    ∃ linux, linuxParamsInit soc mem start (some line) ramSize = some linux ∧
      linux.params.argc = LINUX_MAX_ARGS + 1 := by
  refine ⟨_, rfl, ?_⟩
  have count := (loop_arguments soc mem start line.bytes).count
  rw [List.length_map, List.length_take, Nat.min_eq_left full] at count
  dsimp only
  rw [adds, if_pos rfl, addMem, count]
  rfl

theorem quoted_terminated : 0 ∉ ascii "root=31:02 init=\"/bin/sh -c\"" := by decide

theorem quoted_room : (words (ascii "root=31:02 init=\"/bin/sh -c\"")).length < LINUX_MAX_ARGS - 1 := by
  decide

/-- A line of two words, with a blank inside quotes. -/
theorem quoted_arguments :
    WordsOf (ascii "root=31:02 init=\"/bin/sh -c\"") (words (ascii "root=31:02 init=\"/bin/sh -c\"")) ∧
      ∃ linux, linuxParamsInit .atheros (fun _ => 0) 0xa0002000
          (some ⟨ascii "root=31:02 init=\"/bin/sh -c\"", quoted_terminated⟩) 0x2000000 = some linux ∧
        Arguments 0xa0002000 linux.params
          (passedStrings .atheros (ascii "root=31:02 init=\"/bin/sh -c\"") 0x2000000) :=
  params_init_arguments .atheros _ _ ⟨_, quoted_terminated⟩ _ fun _ => quoted_room

/-- Every word is passed on as it is, also of a line that is not set, which has none. -/
def PassesWords (soc : Soc) (mem : Nat → UInt8) (start : Nat) (line : Option CString)
    (ramSize : BitVec 32) : Prop :=
  ∃ linux, linuxParamsInit soc mem start line ramSize = some linux ∧
    Arguments start linux.params (words ((line.map CString.bytes).getD []) ++
      if addsMem soc ((line.map CString.bytes).getD []) then [memstr ramSize] else [])

def manyWords : List UInt8 := ascii "mem=32M" ++ (List.replicate 255 (ascii " a")).flatten

theorem many_terminated : 0 ∉ manyWords := by decide +kernel

theorem many_words_length : (words manyWords).length = 256 := by decide +kernel

/-- The vector has no place for the 256th word. -/
theorem last_word_dropped :
    ¬ PassesWords .atheros (fun _ => 0) 0xa0002000 (some ⟨manyWords, many_terminated⟩) 0x2000000 := by
  rintro ⟨linux, -, stored⟩
  have count := stored.count
  have inside := stored.inside
  have line : words (((some (CString.mk manyWords many_terminated)).map CString.bytes).getD []) =
      words manyWords := rfl
  rw [List.length_append, line, many_words_length] at count
  unfold LINUX_MAX_ARGS at inside
  omega

end UBoot.Image.LinuxParams
