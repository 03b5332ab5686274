import UBoot.Library.Memory
import UBoot.Shell.FindCmd

/-!
cmd_auto_complete of common/command.c, with complete_cmdv, var_complete and env_complete. A name
that completes a word is handed on as a pointer, so a candidate is its text with the memory behind
its NUL. var_complete is the only completion of arguments that is ever installed. The lines and the
lists of names that go to the console are left out.
-/

namespace UBoot.Shell.AutoComplete

open Lib.Strings Library.Memory ParseLine RunCommand FindCmd

def cfgPrompt : List UInt8 := ascii "ar7240> "

def cfgCbsize : Nat := 512

def cfgMaxargs : Nat := 16

/-- The entries of cmdv. -/
def maxv : Nat := 20

/-- sizeof(tmp_buf) in var_complete. -/
def tmpBufSize : Nat := 512

structure Candidate where
  text : List UInt8
  behind : Nat → UInt8

/-- The memory from the pointer on. -/
def Candidate.memory (candidate : Candidate) (i : Nat) : UInt8 :=
  if i < candidate.text.length then candidate.text.getD i 0
  else if i = candidate.text.length then 0
  else candidate.behind (i - candidate.text.length - 1)

/-- The string at a place. -/
def stringFrom (mem : Nat → UInt8) : (fuel place : Nat) → List UInt8
  | 0, _ => []
  | fuel + 1, place => if mem place = 0 then [] else mem place :: stringFrom mem fuel (place + 1)

/-- The command table, with the memory behind the names and behind "...". -/
structure CompletionTable where
  entries : List CmdTbl
  complete : CmdTbl → Bool
  behind : CmdTbl → Nat → UInt8
  dots : Nat → UInt8
  clean : ∀ cmdtp ∈ entries, 0 ∉ cmdtp.name

structure Environment where
  strings : List (List UInt8)
  clean : ∀ text ∈ strings, 0 ∉ text

/-- A variable up to its '='. -/
def varName (text : List UInt8) : List UInt8 := text.takeWhile fun c => c ≠ 61

/-! ### The candidates -/

section Candidates
variable (table : CompletionTable)

def dotsCandidate : Candidate := ⟨ascii "...", table.dots⟩

/-- The loops of complete_cmdv over the table; the list of all commands has an empty key. -/
def commandLoop (key : List UInt8) : List CmdTbl → (nFound : Nat) → List Candidate
  | [], _ => []
  | cmdtp :: rest, nFound =>
      if ¬ key.isPrefixOf cmdtp.name then commandLoop key rest nFound
      -- too many!
      else if maxv - 2 ≤ nFound then [dotsCandidate table]
      else ⟨cmdtp.name, table.behind cmdtp⟩ :: commandLoop key rest (nFound + 1)

inductive Found where
  | copied (place : Nat) (text : List UInt8)
  | dots

/-- The loop of env_complete, which copies the names into its buffer. -/
def envLoop (var : List UInt8) : List (List UInt8) → (found bufsz buf : Nat) → (Nat → UInt8) →
    List Found × (Nat → UInt8)
  | [], _, _, _, mem => ([], mem)
  | text :: rest, found, bufsz, buf, mem =>
      let lval := varName text
      if 0 < var.length ∧ ¬ var.isPrefixOf lval then envLoop var rest found bufsz buf mem
      else if maxv - 2 ≤ found ∨ bufsz < lval.length + 1 then ([.dots], mem)
      else
        let later := envLoop var rest (found + 1) (bufsz - (lval.length + 1))
          (buf + lval.length + 1) (splice mem buf (lval ++ [0]))
        (.copied buf lval :: later.1, later.2)

def candidateOf (mem : Nat → UInt8) : Found → Candidate
  | .copied place text => ⟨text, fun i => mem (place + text.length + 1 + i)⟩
  | .dots => dotsCandidate table

/-- env_complete; `tmpBuf` is what its buffer and the memory behind held before. -/
def envComplete (env : Environment) (tmpBuf : Nat → UInt8) (var : List UInt8) : List Candidate :=
  let run := envLoop var env.strings 0 tmpBufSize 0 tmpBuf
  run.1.map (candidateOf table run.2)

def isSpace (lastChar : UInt8) : Bool := lastChar == 0 || isBlank lastChar

def varComplete (env : Environment) (tmpBuf : Nat → UInt8) (argv : List (List UInt8))
    (lastChar : UInt8) : List Candidate :=
  match argv with
  | [_] => if isSpace lastChar then envComplete table env tmpBuf [] else []
  | [_, word] => if isSpace lastChar then [] else envComplete table env tmpBuf word
  | _ => []

def completeCmdv (env : Environment) (tmpBuf : Nat → UInt8) (argv : List (List UInt8))
    (lastChar : UInt8) : List Candidate :=
  match argv with
  | [] => commandLoop table [] table.entries 0
  | cmd :: rest =>
      if rest ≠ [] ∨ isSpace lastChar then
        match findCmd table.entries cmd with
        | some cmdtp => if table.complete cmdtp then varComplete table env tmpBuf argv lastChar else []
        | none => []
      else commandLoop table (commandName cmd) table.entries 0

end Candidates

/-! ### The completion -/

/-- The words of a line, `left` of them at most. -/
def makeArgv : (left : Nat) → List UInt8 → List (List UInt8)
  | 0, _ => []
  | left + 1, line =>
      match line.dropWhile isBlank with
      | [] => []
      | c :: text =>
          (c :: text).takeWhile (fun c => !isBlank c) ::
            match (c :: text).dropWhile fun c => !isBlank c with
            | [] => []
            | _ :: rest => makeArgv left rest

/-- How many characters the first `len` of `s` and those of `t` have in common. -/
def prefixWith : (len : Nat) → (s t : List UInt8) → Nat
  | len + 1, c :: s, d :: t => if d = c then prefixWith len s t + 1 else 0
  | _, _, _ => 0

def findCommonPrefix : List (List UInt8) → Nat
  | [] => 0
  | anchor :: rest => rest.foldl (fun len t => prefixWith len anchor t) anchor.length

structure Console where
  buf : List UInt8
  np : Nat
  colp : Nat

/-- What is to be appended, without and with its separator; `k` is strlen(argv[argc - 1]). -/
def completion (cmdv : List Candidate) (k : Nat) : Option (List UInt8 × List UInt8) :=
  match cmdv with
  | [] => none
  | [one] => some (stringFrom one.memory (2 ^ 32) k, [32])
  | first :: _ =>
      let j := findCommonPrefix (cmdv.map Candidate.text)
      if j ≠ 0 ∧ k < j then some (slice first.memory k (j - k), []) else none

/-- The length of the last argument. Where there is none, `stray` is the length of the string that
argv[-1] happens to point to. -/
def lastLength (argv : List (List UInt8)) (stray : Nat) : Nat :=
  match argv.getLast? with
  | some word => word.length
  | none => stray

def cmdAutoComplete (promptText : List UInt8) (table : CompletionTable) (env : Environment)
    (tmpBuf : Nat → UInt8) (stray : Nat) (console : Console) : Int × Console :=
  if promptText ≠ cfgPrompt then (0, console)
  else
    let lastChar := console.buf.getLast?.getD 0
    let argv := makeArgv cfgMaxargs console.buf
    let cmdv := completeCmdv table env tmpBuf argv lastChar
    if cmdv.length = 0 then (if 1 < argv.length then 0 else 1, console)
    else
      match completion cmdv (lastLength argv stray) with
      | none => (1, console)
      | some (s, sep) =>
          let k := s.length + sep.length
          -- make sure it fits
          if cfgCbsize - 2 ≤ console.np + k then (1, console)
          else (1, ⟨console.buf ++ s ++ sep, console.np + k, console.colp + k⟩)

/-! ### What a TAB may do -/

/-- The line that readline has when it calls cmd_auto_complete. -/
structure ConsoleLine where
  text : List UInt8
  colp : Nat
  clean : 0 ∉ text
  short : text.length < cfgCbsize - 2

def ConsoleLine.console (line : ConsoleLine) : Console := ⟨line.text, line.text.length, line.colp⟩

/-- The word at the cursor; behind a blank it is empty. -/
def completedWord (text : List UInt8) : List UInt8 :=
  if endsSolid text then (words text).getLast?.getD [] else []

/-- Arguments of the command are completed. -/
def Completes (table : CompletionTable) (cmd : List UInt8) : Prop :=
  (findCmd table.entries cmd).any table.complete = true

instance (table : CompletionTable) (cmd : List UInt8) : Decidable (Completes table cmd) :=
  inferInstanceAs (Decidable (_ = true))

def varNames (env : Environment) (var : List UInt8) : List (List UInt8) :=
  (env.strings.map varName).filter fun name => var.isPrefixOf name

def commandNames (table : CompletionTable) (key : List UInt8) : List (List UInt8) :=
  (matching key table.entries).map CmdTbl.name

/-- The names that the word at the cursor may become. -/
def matchingNames (table : CompletionTable) (env : Environment) (text : List UInt8) :
    List (List UInt8) :=
  match words text with
  | [] => commandNames table []
  | [word] =>
      if endsSolid text then commandNames table (commandName word)
      else if Completes table word then varNames env []
      else []
  | [cmd, word] => if endsSolid text ∧ Completes table cmd then varNames env word else []
  | _ => []

/-- The word goes on as a name does; a blank may follow the only name. -/
def Continues (word : List UInt8) (names : List (List UInt8)) (added : List UInt8) : Prop :=
  ∃ text blank, added = text ++ blank ∧ (∃ name ∈ names, word ++ text <+: name) ∧
    (blank = [] ∨ blank = [32] ∧ names.length = 1)

structure TabRight (word : List UInt8) (names : List (List UInt8)) (before after : Console) :
    Prop where
  buf : after.buf = before.buf ∨
    ∃ added, after.buf = before.buf ++ added ∧ Continues word names added
  np : after.np = after.buf.length
  colp : after.colp + before.np = before.colp + after.np
  short : after.np < cfgCbsize

section Conditions
variable (table : CompletionTable) (env : Environment) (tmpBuf : Nat → UInt8) (text : List UInt8)

/-- What complete_cmdv lists for the line. -/
def listed : List Candidate :=
  completeCmdv table env tmpBuf ((words text).take cfgMaxargs) (text.getLast?.getD 0)

def shared : Nat := findCommonPrefix ((listed table env tmpBuf text).map Candidate.text)

/-- The text is looked for at a wrong place: -/
def Misplaced : Prop :=
  match words text with
  -- there is no last argument, but its length is taken
  | [] => (commandNames table []).length = 1 ∨ shared table env tmpBuf text ≠ 0
  | [word] =>
      if endsSolid text then
        -- the word has a suffix that the name has not
        ∃ name ∈ (commandNames table (commandName word)).head?, ¬ word <+: name ∧
          ((commandNames table (commandName word)).length = 1 ∨
            word.length < shared table env tmpBuf text)
      else
        -- the last argument is the command, and not the empty word behind it
        Completes table word ∧ ((listed table env tmpBuf text).length = 1 ∨
          word.length < shared table env tmpBuf text)
  | [cmd, word] =>
      -- the first name is longer than the buffer of var_complete, and "..." stands for it
      endsSolid text = true ∧ Completes table cmd ∧
        ∃ name ∈ (varNames env word).head?, tmpBufSize < name.length + 1
  | _ => False

/-- What stands there does not fit, or it goes on like a name by accident. -/
def Accident (stray : Nat) : Prop :=
  match completion (listed table env tmpBuf text)
      (lastLength ((words text).take cfgMaxargs) stray) with
  | none => True
  | some (s, sep) => cfgCbsize - 2 ≤ text.length + (s.length + sep.length) ∨
      Continues (completedWord text) (matchingNames table env text) (s ++ sep)

end Conditions

/-! ### The words of the line -/

theorem make_argv_words (left : Nat) (line : List UInt8) :
    makeArgv left line = (words line).take left := by
  induction left generalizing line with
  | zero => rw [makeArgv, List.take_zero]
  | succ left inductive_hypothesis =>
      cases skipped : line.dropWhile isBlank with
      | nil =>
          have none_left : words line = [] := by rw [← words_skip, skipped]; rfl
          rw [makeArgv, skipped, none_left, List.take_nil]
      | cons c text =>
          have first : isBlank c = false := by
            have head := List.head?_dropWhile_not isBlank line
            rw [skipped] at head
            exact head
          have same : words line = words (c :: text) := by rw [← words_skip, skipped]
          obtain ⟨word, begun, solid, taken, whole⟩ := word_split c text first
          rw [makeArgv, skipped]
          dsimp only
          rw [taken]
          cases tail : (c :: text).dropWhile (fun c => !isBlank c) with
          | nil =>
              rw [tail, List.append_nil] at whole
              rw [same, whole, words_last word begun solid, List.take_succ_cons, List.take_nil]
          | cons d rest =>
              have blank : isBlank d = true := by
                have head := List.head?_dropWhile_not (fun c => !isBlank c) (c :: text)
                rw [tail] at head
                simpa using head
              rw [tail] at whole
              rw [same, whole, words_first word rest d begun solid blank, List.take_succ_cons]
              exact congrArg (word :: ·) (inductive_hypothesis rest)

theorem is_space_iff {text : List UInt8} (clean : 0 ∉ text) :
    isSpace (text.getLast?.getD 0) = true ↔ endsSolid text = false := by
  unfold endsSolid isSpace
  cases last : text.getLast? with
  | none => exact ⟨fun _ => rfl, fun _ => rfl⟩
  | some c =>
      have present : (c == 0) = false := by
        rw [beq_eq_false_iff_ne]
        rintro rfl
        exact clean (List.mem_of_getLast? last)
      rw [Option.getD_some, Option.any_some, present, Bool.false_or]
      cases isBlank c <;> decide

/-! ### The text of a candidate -/

theorem memory_inside (candidate : Candidate) {i : Nat} (inside : i < candidate.text.length) :
    candidate.memory i = candidate.text[i] := by
  rw [Candidate.memory, if_pos inside, List.getD_eq_getElem?_getD, List.getElem?_eq_getElem inside,
    Option.getD_some]

theorem string_from_memory {candidate : Candidate} (clean : 0 ∉ candidate.text) (fuel : Nat) :
    ∀ {place : Nat}, place ≤ candidate.text.length →
      stringFrom candidate.memory fuel place = (candidate.text.drop place).take fuel := by
  induction fuel with
  | zero => exact fun _ => List.take_zero.symm
  | succ fuel inductive_hypothesis =>
      intro place inside
      rcases Nat.lt_or_eq_of_le inside with within' | ended
      · have byte := memory_inside candidate within'
        have more : candidate.text[place] ≠ 0 := fun zero =>
          clean (zero ▸ List.getElem_mem within')
        rw [stringFrom, byte, if_neg more, inductive_hypothesis within',
          List.drop_eq_getElem_cons within', List.take_succ_cons]
      · have nul : candidate.memory place = 0 := by
          rw [Candidate.memory, if_neg (by omega), if_pos ended]
        rw [stringFrom, if_pos nul, ended, List.drop_length, List.take_nil]

theorem slice_memory (candidate : Candidate) {k j : Nat} (inside : j ≤ candidate.text.length) :
    slice candidate.memory k (j - k) = (candidate.text.take j).drop k := by
  have length : (candidate.text.take j).length = j := by
    rw [List.length_take, Nat.min_eq_left inside]
  apply List.ext_getElem
  · rw [slice_length, List.length_drop, length]
  · intro i left _
    rw [slice_length] at left
    rw [slice_getElem, List.getElem_drop, List.getElem_take, memory_inside]

theorem prefix_with_le (s t : List UInt8) (len : Nat) : prefixWith len s t ≤ len := by
  induction len generalizing s t with
  | zero => exact Nat.le_refl 0
  | succ len inductive_hypothesis =>
      cases s with
      | nil => exact Nat.zero_le _
      | cons c s =>
          cases t with
          | nil => exact Nat.zero_le _
          | cons d t =>
              rw [prefixWith]
              split
              · exact Nat.succ_le_succ (inductive_hypothesis s t)
              · exact Nat.zero_le _

theorem find_common_prefix_le (anchor : List UInt8) (rest : List (List UInt8)) :
    findCommonPrefix (anchor :: rest) ≤ anchor.length := by
  have shorter (len : Nat) : rest.foldl (fun len t => prefixWith len anchor t) len ≤ len := by
    induction rest generalizing len with
    | nil => exact Nat.le_refl len
    | cons t rest inductive_hypothesis =>
        exact Nat.le_trans (inductive_hypothesis _) (prefix_with_le anchor t len)
  exact shorter anchor.length

section Completions
variable {first : Candidate} {rest : List Candidate} {k : Nat} {text sep : List UInt8}

theorem completion_one : completion [first] k = some (stringFrom first.memory (2 ^ 32) k, [32]) := rfl

theorem completion_more (more : rest ≠ []) :
    completion (first :: rest) k =
      if findCommonPrefix ((first :: rest).map Candidate.text) ≠ 0 ∧
          k < findCommonPrefix ((first :: rest).map Candidate.text) then
        some (slice first.memory k (findCommonPrefix ((first :: rest).map Candidate.text) - k), [])
      else none := by
  cases rest with
  | nil => exact absurd rfl more
  | cons second rest => rfl

/-- Text is taken from the only candidate, or where the common prefix is longer. -/
theorem completion_taken (taken : completion (first :: rest) k = some (text, sep)) :
    rest = [] ∨ k < findCommonPrefix ((first :: rest).map Candidate.text) := by
  by_cases more : rest = []
  · exact .inl more
  · rw [completion_more more] at taken
    split at taken
    · next longer => exact .inr longer.2
    · cases taken

theorem completion_nonempty {cmdv : List Candidate} (taken : completion cmdv k = some (text, sep)) :
    text ++ sep ≠ [] := by
  cases cmdv with
  | nil => cases taken
  | cons first rest =>
      by_cases more : rest = []
      · rw [more, completion_one] at taken
        obtain ⟨rfl, rfl⟩ := Prod.mk.inj (Option.some.inj taken)
        exact List.append_ne_nil_of_right_ne_nil _ (List.cons_ne_nil _ _)
      · rw [completion_more more] at taken
        split at taken
        · next longer =>
            obtain ⟨rfl, rfl⟩ := Prod.mk.inj (Option.some.inj taken)
            rw [List.append_nil, ← List.length_pos_iff, slice_length]
            omega
        · cases taken

/-- A word that begins the first name goes on as that name does. -/
theorem completion_continues {word : List UInt8} {names : List (List UInt8)}
    (named : first.text ∈ names) (clean : 0 ∉ first.text) (front : word <+: first.text)
    (only : rest = [] → names.length = 1)
    (taken : completion (first :: rest) word.length = some (text, sep)) :
    Continues word names (text ++ sep) := by
  obtain ⟨tail, whole⟩ := front
  have behind : first.text.drop word.length = tail := by
    rw [← whole, List.drop_left]
  by_cases more : rest = []
  · rw [more, completion_one] at taken
    obtain ⟨rfl, rfl⟩ := Prod.mk.inj (Option.some.inj taken)
    have inside : word.length ≤ first.text.length := by
      rw [← whole, List.length_append]
      exact Nat.le_add_right _ _
    refine ⟨_, [32], rfl, ⟨first.text, named, ?_⟩, .inr ⟨rfl, only more⟩⟩
    rw [string_from_memory clean _ inside, behind]
    rw [← whole]
    exact (List.prefix_append_right_inj word).mpr (List.take_prefix _ tail)
  · rw [completion_more more] at taken
    split at taken
    · next longer =>
        obtain ⟨rfl, rfl⟩ := Prod.mk.inj (Option.some.inj taken)
        have inside := find_common_prefix_le first.text (rest.map Candidate.text)
        rw [← List.map_cons] at inside
        refine ⟨_, [], rfl, ⟨first.text, named, ?_⟩, .inl rfl⟩
        rw [slice_memory first inside]
        have start : word = (first.text.take
            (findCommonPrefix ((first :: rest).map Candidate.text))).take word.length := by
          rw [List.take_take, Nat.min_eq_left longer.2.le, ← whole, List.take_left]
        nth_rewrite 1 [start]
        rw [List.take_append_drop]
        exact List.take_prefix _ _
    · cases taken

end Completions

/-! ### The candidates for the names -/

section Lists
variable {table : CompletionTable} {env : Environment} {tmpBuf : Nat → UInt8}

theorem command_loop_nil (key : List UInt8) (entries : List CmdTbl) (nFound : Nat) :
    commandLoop table key entries nFound = [] ↔ matching key entries = [] := by
  induction entries with
  | nil => exact ⟨fun _ => rfl, fun _ => rfl⟩
  | cons cmdtp rest inductive_hypothesis =>
      rw [commandLoop]
      by_cases front : key.isPrefixOf cmdtp.name
      · have more : matching key (cmdtp :: rest) = cmdtp :: matching key rest :=
          List.filter_cons_of_pos front
        rw [if_neg (not_not.mpr front), more]
        split <;> exact ⟨fun same => absurd same (List.cons_ne_nil _ _),
          fun same => absurd same (List.cons_ne_nil _ _)⟩
      · have same : matching key (cmdtp :: rest) = matching key rest :=
          List.filter_cons_of_neg front
        rw [if_pos front, same, inductive_hypothesis]

/-- The candidates begin with the first name, and there is one for one name. -/
theorem command_loop_first {key : List UInt8} {entries : List CmdTbl} {first : CmdTbl}
    {more : List CmdTbl} (names : matching key entries = first :: more) :
    ∃ rest, commandLoop table key entries 0 = ⟨first.name, table.behind first⟩ :: rest ∧
      (rest = [] ↔ more = []) := by
  induction entries with
  | nil => cases names
  | cons cmdtp entries inductive_hypothesis =>
      rw [commandLoop]
      by_cases front : key.isPrefixOf cmdtp.name
      · have listed : matching key (cmdtp :: entries) = cmdtp :: matching key entries :=
          List.filter_cons_of_pos front
        rw [listed] at names
        obtain ⟨rfl, rfl⟩ := List.cons_eq_cons.mp names
        rw [if_neg (not_not.mpr front), if_neg (by decide)]
        exact ⟨_, rfl, command_loop_nil key entries 1⟩
      · have same : matching key (cmdtp :: entries) = matching key entries :=
          List.filter_cons_of_neg front
        rw [same] at names
        rw [if_pos front]
        exact inductive_hypothesis names

def varsFrom (var : List UInt8) (strings : List (List UInt8)) : List (List UInt8) :=
  (strings.map varName).filter fun name => var.isPrefixOf name

theorem skips_iff (var lval : List UInt8) :
    (0 < var.length ∧ ¬ var.isPrefixOf lval) ↔ ¬ var.isPrefixOf lval := by
  constructor
  · exact And.right
  · intro other
    refine ⟨?_, other⟩
    rw [List.length_pos_iff]
    rintro rfl
    exact other List.isPrefixOf_nil_left

theorem vars_from_cons (var text : List UInt8) (rest : List (List UInt8)) :
    varsFrom var (text :: rest) =
      if var.isPrefixOf (varName text) then varName text :: varsFrom var rest
      else varsFrom var rest := by
  rw [varsFrom, List.map_cons, List.filter_cons]
  rfl

theorem env_loop_nil (var : List UInt8) (strings : List (List UInt8)) (found bufsz buf : Nat)
    (mem : Nat → UInt8) :
    (envLoop var strings found bufsz buf mem).1 = [] ↔ varsFrom var strings = [] := by
  induction strings with
  | nil => exact ⟨fun _ => rfl, fun _ => rfl⟩
  | cons text rest inductive_hypothesis =>
      rw [envLoop, vars_from_cons]
      dsimp only
      by_cases front : var.isPrefixOf (varName text)
      · rw [if_neg (by rw [skips_iff]; exact not_not.mpr front), if_pos front]
        split <;> exact ⟨fun same => absurd same (List.cons_ne_nil _ _),
          fun same => absurd same (List.cons_ne_nil _ _)⟩
      · rw [if_pos ((skips_iff _ _).mpr front), if_neg front]
        exact inductive_hypothesis

/-- The candidates begin with the first variable, unless its name is too long for the buffer. -/
theorem env_loop_first {var name : List UInt8} {strings more : List (List UInt8)}
    {mem : Nat → UInt8} (names : varsFrom var strings = name :: more) :
    (envLoop var strings 0 tmpBufSize 0 mem).1 = [.dots] ∧ tmpBufSize < name.length + 1 ∨
      ¬ tmpBufSize < name.length + 1 ∧
        ∃ rest, (envLoop var strings 0 tmpBufSize 0 mem).1 = .copied 0 name :: rest ∧
          (rest = [] ↔ more = []) := by
  induction strings with
  | nil => cases names
  | cons text strings inductive_hypothesis =>
      rw [vars_from_cons] at names
      rw [envLoop]
      dsimp only
      by_cases front : var.isPrefixOf (varName text)
      · rw [if_pos front] at names
        obtain ⟨rfl, rfl⟩ := List.cons_eq_cons.mp names
        rw [if_neg (by rw [skips_iff]; exact not_not.mpr front)]
        by_cases long : tmpBufSize < (varName text).length + 1
        · rw [if_pos (.inr long)]
          exact .inl ⟨rfl, long⟩
        · have room : ¬ (maxv - 2 ≤ 0 ∨ tmpBufSize < (varName text).length + 1) := by
            rintro (none_left | none_left)
            · exact absurd none_left (by decide)
            · exact long none_left
          rw [if_neg room]
          exact .inr ⟨long, _, rfl, env_loop_nil _ _ _ _ _ _⟩
      · rw [if_neg front] at names
        rw [if_pos ((skips_iff _ _).mpr front)]
        exact inductive_hypothesis names

theorem env_complete_nil (var : List UInt8) :
    envComplete table env tmpBuf var = [] ↔ varNames env var = [] := by
  unfold envComplete
  dsimp only
  rw [List.map_eq_nil_iff, env_loop_nil]
  rfl

theorem env_complete_first {var name : List UInt8} {more : List (List UInt8)}
    (names : varNames env var = name :: more) (room : ¬ tmpBufSize < name.length + 1) :
    ∃ behind rest, envComplete table env tmpBuf var = ⟨name, behind⟩ :: rest ∧
      (rest = [] ↔ more = []) := by
  rcases @env_loop_first var name env.strings more tmpBuf names with
    ⟨-, long⟩ | ⟨-, rest, run, one⟩
  · exact absurd long room
  · unfold envComplete
    dsimp only
    rw [run]
    exact ⟨_, _, rfl, by rw [List.map_eq_nil_iff, one]⟩

end Lists

/-! ### A TAB -/

section Tab
variable (table : CompletionTable) (env : Environment) (tmpBuf : Nat → UInt8) (stray : Nat)
  (line : ConsoleLine)

/-- The console behind a TAB in the monitor. -/
theorem tab_outcome :
    (cmdAutoComplete cfgPrompt table env tmpBuf stray line.console).2 =
      match completion (listed table env tmpBuf line.text)
          (lastLength ((words line.text).take cfgMaxargs) stray) with
      | none => line.console
      | some (s, sep) =>
          if cfgCbsize - 2 ≤ line.text.length + (s.length + sep.length) then line.console
          else ⟨line.text ++ s ++ sep, line.text.length + (s.length + sep.length),
            line.colp + (s.length + sep.length)⟩ := by
  unfold cmdAutoComplete ConsoleLine.console
  rw [if_neg (not_not.mpr rfl)]
  dsimp only
  rw [make_argv_words]
  unfold listed
  generalize completeCmdv table env tmpBuf ((words line.text).take cfgMaxargs)
    (line.text.getLast?.getD 0) = cmdv
  cases cmdv with
  | nil => rfl
  | cons first rest =>
      have some_listed : (first :: rest).length ≠ 0 := Nat.succ_ne_zero _
      rw [if_neg some_listed]
      cases completion (first :: rest) (lastLength ((words line.text).take cfgMaxargs) stray) with
      | none => rfl
      | some taken =>
          dsimp only
          split <;> rfl

theorem unchanged_right (word : List UInt8) (names : List (List UInt8)) :
    TabRight word names line.console line.console :=
  ⟨.inl rfl, rfl, rfl, Nat.lt_of_lt_of_le line.short (Nat.sub_le _ _)⟩

theorem tab_accident_iff :
    TabRight (completedWord line.text) (matchingNames table env line.text) line.console
        (cmdAutoComplete cfgPrompt table env tmpBuf stray line.console).2 ↔
      Accident table env tmpBuf line.text stray := by
  rw [tab_outcome]
  unfold Accident
  cases taken : completion (listed table env tmpBuf line.text)
      (lastLength ((words line.text).take cfgMaxargs) stray) with
  | none => exact ⟨fun _ => trivial, fun _ => unchanged_right line _ _⟩
  | some pair =>
      obtain ⟨s, sep⟩ := pair
      dsimp only
      by_cases full : cfgCbsize - 2 ≤ line.text.length + (s.length + sep.length)
      · rw [if_pos full]
        exact ⟨fun _ => .inl full, fun _ => unchanged_right line _ _⟩
      · rw [if_neg full]
        constructor
        · intro right
          refine .inr ?_
          have appended : line.text ++ s ++ sep = line.text ++ (s ++ sep) := List.append_assoc _ _ _
          rcases right.buf with same | ⟨added, same, continues⟩
          · have nothing : line.text ++ (s ++ sep) = line.text ++ [] :=
              appended.symm.trans (same.trans (List.append_nil _).symm)
            exact absurd (List.append_cancel_left nothing) (completion_nonempty taken)
          · rw [List.append_cancel_left (appended.symm.trans same)]
            exact continues
        · rintro (none_left | continues)
          · exact absurd none_left full
          · have room : line.text.length + (s.length + sep.length) < cfgCbsize - 2 :=
              Nat.lt_of_not_le full
            refine ⟨.inr ⟨s ++ sep, List.append_assoc _ _ _, continues⟩, ?_, ?_, ?_⟩
            · dsimp only
              rw [List.length_append, List.length_append, Nat.add_assoc]
            · change line.colp + (s.length + sep.length) + line.text.length =
                line.colp + (line.text.length + (s.length + sep.length))
              omega
            · exact Nat.lt_of_lt_of_le room (Nat.sub_le _ _)

end Tab

/-! ### The right place -/

section Places
variable {table : CompletionTable} {env : Environment} {tmpBuf : Nat → UInt8} {stray : Nat}
  {text : List UInt8}

/-- Nothing is listed, or the last argument is the word and begins the first name. -/
theorem accident_of_first {first : Candidate} {rest : List Candidate} {word : List UInt8}
    (candidates : listed table env tmpBuf text = first :: rest)
    (last : lastLength ((words text).take cfgMaxargs) stray = word.length)
    (at_cursor : completedWord text = word) (named : first.text ∈ matchingNames table env text)
    (clean : 0 ∉ first.text) (only : rest = [] → (matchingNames table env text).length = 1)
    (front : rest = [] ∨ word.length < shared table env tmpBuf text → word <+: first.text) :
    Accident table env tmpBuf text stray := by
  unfold Accident
  rw [candidates, last, at_cursor]
  cases taken : completion (first :: rest) word.length with
  | none => exact trivial
  | some pair =>
      obtain ⟨s, sep⟩ := pair
      have begins : word <+: first.text := by
        refine front ((completion_taken taken).imp id fun longer => ?_)
        rw [shared, candidates]
        exact longer
      exact .inr (completion_continues named clean begins only taken)

/-- Nothing is taken from several candidates with no longer a common prefix. -/
theorem accident_of_short (several : (listed table env tmpBuf text).length ≠ 1)
    (short : ¬ lastLength ((words text).take cfgMaxargs) stray < shared table env tmpBuf text) :
    Accident table env tmpBuf text stray := by
  unfold Accident
  rw [shared] at short
  cases candidates : listed table env tmpBuf text with
  | nil => exact trivial
  | cons first rest =>
      rw [candidates] at several short
      cases taken : completion (first :: rest)
          (lastLength ((words text).take cfgMaxargs) stray) with
      | none => exact trivial
      | some pair =>
          obtain ⟨s, sep⟩ := pair
          rcases completion_taken taken with alone | longer
          · rw [alone] at several
            exact absurd rfl several
          · exact absurd longer short

theorem accident_of_nil (nothing : listed table env tmpBuf text = []) :
    Accident table env tmpBuf text stray := by
  unfold Accident
  rw [nothing]
  exact trivial

/-- The arguments of a command are completed by var_complete. -/
theorem complete_argument {cmd : List UInt8} {rest : List (List UInt8)} {lastChar : UInt8}
    (behind : rest ≠ [] ∨ isSpace lastChar = true) :
    completeCmdv table env tmpBuf (cmd :: rest) lastChar =
      if Completes table cmd then varComplete table env tmpBuf (cmd :: rest) lastChar else [] := by
  rw [completeCmdv, if_pos behind]
  cases found : findCmd table.entries cmd with
  | none =>
      have without : ¬ Completes table cmd := by
        rw [Completes, found]
        exact Bool.noConfusion
      rw [if_neg without]
  | some cmdtp =>
      have same : Completes table cmd ↔ table.complete cmdtp = true := by
        rw [Completes, found, Option.any_some]
      dsimp only
      by_cases completes : table.complete cmdtp = true
      · rw [if_pos completes, if_pos (same.mpr completes)]
      · rw [if_neg completes, if_neg (mt same.mp completes)]

theorem command_clean {key : List UInt8} {first : CmdTbl} {more : List CmdTbl}
    (names : matching key table.entries = first :: more) :
    key <+: first.name ∧ 0 ∉ first.name := by
  have member : first ∈ matching key table.entries := by
    rw [names]
    exact List.mem_cons_self
  obtain ⟨entry, front⟩ := mem_matching.mp member
  exact ⟨front, table.clean first entry⟩

theorem var_clean {var name : List UInt8} (member : name ∈ varNames env var) :
    var <+: name ∧ 0 ∉ name := by
  obtain ⟨listed, front⟩ := List.mem_filter.mp member
  obtain ⟨text, string, rfl⟩ := List.mem_map.mp listed
  exact ⟨List.isPrefixOf_iff_prefix.mp front,
    fun nul => env.clean text string ((List.takeWhile_sublist _).subset nul)⟩

theorem no_word_right (none_typed : words text = [])
    (right : ¬ Misplaced table env tmpBuf text) : Accident table env tmpBuf text stray := by
  unfold Misplaced at right
  rw [none_typed] at right
  dsimp only at right
  obtain ⟨several, short⟩ := not_or.mp right
  have candidates : listed table env tmpBuf text = commandLoop table [] table.entries 0 := by
    rw [listed, none_typed]
    rfl
  refine accident_of_short ?_ (fun longer => ?_)
  · intro one
    rw [candidates] at one
    cases names : matching [] table.entries with
    | nil =>
        rw [(command_loop_nil [] table.entries 0).mpr names] at one
        cases one
    | cons first more =>
        obtain ⟨rest, run, alone⟩ := @command_loop_first table _ _ _ _ names
        rw [run, List.length_cons, Nat.succ_inj, List.length_eq_zero_iff, alone] at one
        rw [commandNames, names, one] at several
        exact several rfl
  · rw [not_not.mp short] at longer
    exact Nat.not_lt_zero _ longer

theorem command_word_right {word : List UInt8} (clean : 0 ∉ text) (typed : words text = [word])
    (solid : endsSolid text = true) (right : ¬ Misplaced table env tmpBuf text) :
    Accident table env tmpBuf text stray := by
  unfold Misplaced at right
  rw [typed] at right
  dsimp only at right
  rw [if_pos solid] at right
  have no_blank : ¬ isSpace (text.getLast?.getD 0) = true := by
    rw [is_space_iff clean, solid]
    exact Bool.noConfusion
  have candidates : listed table env tmpBuf text =
      commandLoop table (commandName word) table.entries 0 := by
    rw [listed, typed]
    exact if_neg (not_or.mpr ⟨fun more => more rfl, no_blank⟩)
  cases names : matching (commandName word) table.entries with
  | nil =>
      refine accident_of_nil ?_
      rw [candidates]
      exact (command_loop_nil _ _ _).mpr names
  | cons first more =>
      obtain ⟨rest, run, alone⟩ := @command_loop_first table _ _ _ _ names
      have listed_names : matchingNames table env text = first.name :: more.map CmdTbl.name := by
        rw [matchingNames, typed]
        dsimp only
        rw [if_pos solid, commandNames, names, List.map_cons]
      refine accident_of_first (candidates.trans run) (by rw [typed]; rfl) ?_ ?_
        (command_clean names).2 ?_ ?_
      · rw [completedWord, if_pos solid, typed]
        rfl
      · rw [listed_names]
        exact List.mem_cons_self
      · intro one
        rw [listed_names, alone.mp one]
        rfl
      · intro taken
        by_contra other
        refine right ⟨first.name, ?_, other, ?_⟩
        · rw [commandNames, names, List.map_cons]
          exact rfl
        · refine taken.imp (fun one => ?_) id
          rw [commandNames, names, alone.mp one]
          rfl

theorem behind_command_right {word : List UInt8} (clean : 0 ∉ text) (typed : words text = [word])
    (blank : endsSolid text = false) (right : ¬ Misplaced table env tmpBuf text) :
    Accident table env tmpBuf text stray := by
  unfold Misplaced at right
  rw [typed] at right
  dsimp only at right
  have open_word : ¬ endsSolid text = true := by
    rw [blank]
    exact Bool.noConfusion
  rw [if_neg open_word] at right
  by_cases completes : Completes table word
  · obtain ⟨several, short⟩ := not_or.mp fun taken => right ⟨completes, taken⟩
    refine accident_of_short several ?_
    rw [typed]
    exact short
  · refine accident_of_nil ?_
    rw [listed, typed]
    exact (complete_argument (.inr ((is_space_iff clean).mpr blank))).trans (if_neg completes)

theorem argument_right {cmd word : List UInt8} (clean : 0 ∉ text) (typed : words text = [cmd, word])
    (right : ¬ Misplaced table env tmpBuf text) : Accident table env tmpBuf text stray := by
  unfold Misplaced at right
  rw [typed] at right
  dsimp only at right
  have candidates : listed table env tmpBuf text = if Completes table cmd then
      varComplete table env tmpBuf [cmd, word] (text.getLast?.getD 0) else [] := by
    rw [listed, typed]
    exact complete_argument (.inl (List.cons_ne_nil _ _))
  by_cases completes : Completes table cmd
  · rw [if_pos completes] at candidates
    cases solid : endsSolid text with
    | false =>
        refine accident_of_nil (candidates.trans ?_)
        exact if_pos ((is_space_iff clean).mpr solid)
    | true =>
        have no_blank : ¬ isSpace (text.getLast?.getD 0) = true := by
          rw [is_space_iff clean, solid]
          exact Bool.noConfusion
        have vars : listed table env tmpBuf text = envComplete table env tmpBuf word :=
          candidates.trans (if_neg no_blank)
        have listed_names : matchingNames table env text = varNames env word := by
          rw [matchingNames, typed]
          exact if_pos ⟨solid, completes⟩
        cases names : varNames env word with
        | nil => exact accident_of_nil (vars.trans ((env_complete_nil word).mpr names))
        | cons name more =>
            have room : ¬ tmpBufSize < name.length + 1 := fun long =>
              right ⟨solid, completes, name, by rw [names]; rfl, long⟩
            obtain ⟨behind, rest, run, alone⟩ :=
              @env_complete_first table env tmpBuf word name more names room
            have member : name ∈ varNames env word := by
              rw [names]
              exact List.mem_cons_self
            obtain ⟨front, nul⟩ := var_clean member
            refine accident_of_first (vars.trans run) (by rw [typed]; rfl) ?_ ?_ nul ?_
              (fun _ => front)
            · rw [completedWord, if_pos solid, typed]
              rfl
            · rw [listed_names]
              exact member
            · intro one
              rw [listed_names, names, alone.mp one]
              rfl
  · exact accident_of_nil (candidates.trans (if_neg completes))

theorem many_words_right {cmd word third : List UInt8} {more : List (List UInt8)}
    (typed : words text = cmd :: word :: third :: more) : Accident table env tmpBuf text stray := by
  refine accident_of_nil ?_
  rw [listed, typed]
  refine (complete_argument (.inl (List.cons_ne_nil _ _))).trans ?_
  split <;> rfl

theorem placed_right (clean : 0 ∉ text) (right : ¬ Misplaced table env tmpBuf text) :
    Accident table env tmpBuf text stray := by
  match typed : words text with
  | [] => exact no_word_right typed right
  | [word] =>
      cases solid : endsSolid text with
      | true => exact command_word_right clean typed solid right
      | false => exact behind_command_right clean typed solid right
  | [cmd, word] => exact argument_right clean typed right
  | _ :: _ :: _ :: _ => exact many_words_right typed

end Places

/-- A command without a suffix is never misplaced. -/
theorem plain_word_placed (table : CompletionTable) (env : Environment) (tmpBuf : Nat → UInt8)
    {text word : List UInt8} (typed : words text = [word]) (solid : endsSolid text = true)
    (plain : 46 ∉ word) : ¬ Misplaced table env tmpBuf text := by
  have whole : commandName word = word := by
    refine List.takeWhile_eq_self_iff.mpr fun c member => decide_eq_true ?_
    rintro rfl
    exact plain member
  unfold Misplaced
  rw [typed]
  dsimp only
  rw [if_pos solid, whole]
  rintro ⟨name, head, other, -⟩
  obtain ⟨cmdtp, entry, rfl⟩ := List.mem_map.mp (List.mem_of_mem_head? head)
  exact other (mem_matching.mp entry).2

/-- cp and md, one behind the other in memory. -/
def copyTable : CompletionTable where
  entries := [⟨ascii "cp", 4, true, .other 0⟩, ⟨ascii "md", 3, true, .other 1⟩]
  complete := fun _ => false
  behind := fun cmdtp i => if cmdtp.name = ascii "cp" then (ascii "md").getD i 0 else 0
  dots := fun _ => 0
  clean := by decide

def copyLine : ConsoleLine where
  text := ascii "cp.b"
  colp := 12
  clean := by decide
  short := by decide

end UBoot.Shell.AutoComplete
