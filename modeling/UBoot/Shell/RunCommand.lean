import UBoot.Shell.ParseLine
import UBoot.Shell.Segments

/-!
run_command of the monitor with the commands that call it again, run, bootd and
autoscr, and the loop that reads the lines. Every command that a line comes to is noted
with the commands it was called through.
-/

namespace UBoot.Shell.RunCommand

open Lib.Strings ProcessMacros Segments ParseLine

inductive CommandFn where
  | bootd
  | run
  | autoscr
  | other (index : Nat)
  deriving DecidableEq

structure CmdTbl where
  name : List UInt8
  maxargs : Nat
  repeatable : Bool
  cmd : CommandFn

def findLoop (key : List UInt8) : List CmdTbl → (temp : Option CmdTbl) → (nFound : Nat) →
    Option CmdTbl
  | [], temp, nFound => if nFound = 1 then temp else none
  | cmdtp :: rest, temp, nFound =>
      if key.isPrefixOf cmdtp.name then
        if key.length = cmdtp.name.length then some cmdtp
        else findLoop key rest (some cmdtp) (nFound + 1)
      else findLoop key rest temp nFound

/-- The name is compared up to its first dot. -/
def findCmd (table : List CmdTbl) (cmd : List UInt8) : Option CmdTbl :=
  findLoop (cmd.takeWhile fun c => c ≠ 46) table none 0

/-- What the commands work on: the environment, and whether the user has pressed control C. -/
structure World where
  getenv : List UInt8 → Option CString
  ctrlc : Bool

/-- The table, what the functions of the other commands do, and the lines of the script that autoscr
accepts. The rest is memory that run_command finds: the text behind finaltoken, argv, and the byte
in front of cmdbuf. -/
structure Monitor where
  cbsize : Nat
  maxargs : Nat
  table : List CmdTbl
  effect : Nat → (flag : Nat) → (argc : Nat) → Argv → World → Int × World
  script : (argc : Nat) → Argv → World → Option (List CString)
  behind : World → List UInt8
  stack : World → Argv
  before : World → UInt8

def CMD_FLAG_REPEAT : Nat := 1
def CMD_FLAG_BOOTD : Nat := 2

/-- A command that run_command came to, with the chain of the commands it was called by. -/
structure Seen where
  callers : List CommandFn
  getenv : List UInt8 → Option CString
  token : List UInt8
  call : Option (CommandFn × Nat × Argv)
  interrupted : Bool

/-- No result is there while the call still runs. -/
structure Outcome where
  log : List Seen
  result : Option (Int × World)

/-- What parse_line reads from finaltoken on. -/
def finalText (monitor : Monitor) (world : World) (token : List UInt8) : List UInt8 :=
  let written := processMacros world.getenv monitor.cbsize token
  if 0 ∈ written then written.takeWhile (· ≠ 0) else written ++ monitor.behind world

def doRun (again : CString → World → Outcome) : (names : List (List UInt8)) → World → Outcome
  | [], world => ⟨[], some (0, world)⟩
  | name :: names, world =>
      match world.getenv name with
      | none => ⟨[], some (1, world)⟩
      | some arg =>
          let ran := again arg world
          match ran.result with
          | none => ran
          | some (rc, world) =>
              if rc = -1 then ⟨ran.log, some (1, world)⟩
              else
                let later := doRun again names world
                ⟨ran.log ++ later.log, later.result⟩

/-- The lines of a script, to the first one that fails. -/
def autoscript (again : CString → World → Outcome) : List CString → World → Outcome
  | [], world => ⟨[], some (0, world)⟩
  | text :: lines, world =>
      let ran := again text world
      match ran.result with
      | none => ran
      | some (rc, world) =>
          if rc < 0 then ⟨ran.log, some (1, world)⟩
          else
            let later := autoscript again lines world
            ⟨ran.log ++ later.log, later.result⟩

section Line

variable (monitor : Monitor)
variable (again : List CommandFn → (flag : Nat) → Option CString → World → Outcome)
variable (callers : List CommandFn)

def callFn (cmd : CommandFn) (flag argc : Nat) (argv : Argv) (world : World) : Outcome :=
  match cmd with
  | .bootd =>
      let ran := again (.bootd :: callers) flag (world.getenv (ascii "bootcmd")) world
      ⟨ran.log, ran.result.map fun ended => (if ended.1 < 0 then 1 else 0, ended.2)⟩
  | .run =>
      if argc < 2 then ⟨[], some (1, world)⟩
      else
        doRun (fun arg world => again (.run :: callers) flag (some arg) world)
          ((List.range argc).tail.map fun i => (argv i).getD []) world
  | .autoscr =>
      match monitor.script argc argv world with
      | none => ⟨[], some (1, world)⟩
      | some lines => autoscript (fun text world => again (.autoscr :: callers) 0 (some text) world) lines world
  | .other index => ⟨[], some (monitor.effect index flag argc argv world)⟩

structure LineState where
  world : World
  argv : Argv
  flag : Nat
  rc : Int
  repeatable : Bool

/-- The command that is called for the arguments; without one, rc becomes -1. -/
def accepted (flag : Nat) (parsed : Nat × Argv) : Option CmdTbl :=
  if parsed.1 = 0 then none
  else
    match findCmd monitor.table ((parsed.2 0).getD []) with
    | none => none
    | some cmdtp =>
        if cmdtp.maxargs < parsed.1 then none
        -- avoid "bootd" recursion
        else if cmdtp.cmd = .bootd ∧ flag &&& CMD_FLAG_BOOTD ≠ 0 then none
        else some cmdtp

def flagFor (cmd : CommandFn) (flag : Nat) : Nat :=
  if cmd = .bootd then flag ||| CMD_FLAG_BOOTD else flag

def runTokens : List (List UInt8) → LineState → Outcome
  | [], line => ⟨[], some (if line.rc ≠ 0 then line.rc else if line.repeatable then 1 else 0, line.world)⟩
  | token :: rest, line =>
      let parsed := parseLine monitor.maxargs (finalText monitor line.world token) line.argv
      match accepted monitor line.flag parsed with
      | none =>
          let later := runTokens rest { line with argv := parsed.2, rc := -1 }
          ⟨⟨callers, line.world.getenv, token, none, false⟩ :: later.log, later.result⟩
      | some cmdtp =>
          let flag := flagFor cmdtp.cmd line.flag
          let called := callFn monitor again callers cmdtp.cmd flag parsed.1 parsed.2 line.world
          let seen := fun interrupted =>
            Seen.mk callers line.world.getenv token (some (cmdtp.cmd, parsed)) interrupted
          match called.result with
          | none => ⟨seen false :: called.log, none⟩
          | some (code, world) =>
              -- if stopped then not repeatable
              if world.ctrlc then ⟨seen true :: called.log, some (0, world)⟩
              else
                let later := runTokens rest
                  ⟨world, parsed.2, flag, if code ≠ 0 then -1 else line.rc,
                    line.repeatable && cmdtp.repeatable⟩
                ⟨seen false :: called.log ++ later.log, later.result⟩

end Line

/-- The calls of run_command may be nested without an end; `depth` is how deep they are followed. -/
def runCommand (monitor : Monitor) : (depth : Nat) → (callers : List CommandFn) → (flag : Nat) →
    (cmd : Option CString) → World → Outcome
  | 0, _, _, _, _ => ⟨[], none⟩
  | depth + 1, callers, flag, cmd, world =>
      let world := { world with ctrlc := false }
      match cmd with
      | none => ⟨[], some (-1, world)⟩
      | some cmd =>
          if cmd.bytes = [] ∨ monitor.cbsize ≤ cmd.bytes.length then ⟨[], some (-1, world)⟩
          else
            runTokens monitor (runCommand monitor depth) callers
              (splitLine (monitor.before world) cmd.bytes)
              ⟨world, monitor.stack world, flag, 0, true⟩

/-! ### The main loop -/

/-- What readline returns with. -/
inductive Entered where
  | line (text : CString)
  | interrupt

structure Main where
  lastcommand : CString
  rc : Int
  world : World

theorem no_text : (0 : UInt8) ∉ ([] : List UInt8) := List.not_mem_nil

def noCommand : CString := ⟨[], no_text⟩

def forget (main : Main) : Main :=
  if main.rc ≤ 0 then { main with lastcommand := noCommand } else main

/-- One turn of the main loop, or only its log when the command runs on. -/
def mainTurn (monitor : Monitor) (depth : Nat) (main : Main) : Entered → List Seen × Option Main
  | .interrupt => ([], some (forget main))
  | .line text =>
      let flag := if text.bytes = [] then CMD_FLAG_REPEAT else 0
      let lastcommand := if text.bytes = [] then main.lastcommand else text
      let ran := runCommand monitor depth [] flag (some lastcommand) main.world
      (ran.log, ran.result.map fun ended => forget ⟨lastcommand, ended.1, ended.2⟩)

def mainLoop (monitor : Monitor) (depth : Nat) : List Entered → Main → List Seen
  | [], _ => []
  | entered :: rest, main =>
      match mainTurn monitor depth main entered with
      | (log, none) => log
      | (log, some next) => log ++ mainLoop monitor depth rest next

/-! ### What the log holds -/

section Logs

variable (monitor : Monitor)
variable (again : List CommandFn → (flag : Nat) → Option CString → World → Outcome)
variable (callers : List CommandFn) (holds : Seen → Prop)

theorem do_run_log (nested : CString → World → Outcome)
    (inner : ∀ text world, ∀ seen ∈ (nested text world).log, holds seen)
    (names : List (List UInt8)) (world : World) :
    ∀ seen ∈ (doRun nested names world).log, holds seen := by
  induction names generalizing world with
  | nil => exact fun seen member => absurd member List.not_mem_nil
  | cons name names induction =>
      intro seen member
      unfold doRun at member
      cases value : world.getenv name with
      | none =>
          rw [value] at member
          exact absurd member List.not_mem_nil
      | some arg =>
          rw [value] at member
          cases ran : (nested arg world).result with
          | none =>
              simp only [ran] at member
              exact inner arg world seen member
          | some ended =>
              simp only [ran] at member
              split at member
              · exact inner arg world seen member
              · rcases List.mem_append.mp member with before | later
                · exact inner arg world seen before
                · exact induction ended.2 seen later

theorem autoscript_log (nested : CString → World → Outcome)
    (inner : ∀ text world, ∀ seen ∈ (nested text world).log, holds seen)
    (lines : List CString) (world : World) :
    ∀ seen ∈ (autoscript nested lines world).log, holds seen := by
  induction lines generalizing world with
  | nil => exact fun seen member => absurd member List.not_mem_nil
  | cons text lines induction =>
      intro seen member
      unfold autoscript at member
      cases ran : (nested text world).result with
      | none =>
          simp only [ran] at member
          exact inner text world seen member
      | some ended =>
          simp only [ran] at member
          split at member
          · exact inner text world seen member
          · rcases List.mem_append.mp member with before | later
            · exact inner text world seen before
            · exact induction ended.2 seen later

/-- The flag that a command hands on: the lines of a script run with none. -/
def passedFlag (cmd : CommandFn) (flag : Nat) : Nat := if cmd = .autoscr then 0 else flag

theorem call_fn_log (cmd : CommandFn) (flag argc : Nat) (argv : Argv) (world : World)
    (inner : ∀ text world,
      ∀ seen ∈ (again (cmd :: callers) (passedFlag cmd flag) text world).log, holds seen) :
    ∀ seen ∈ (callFn monitor again callers cmd flag argc argv world).log, holds seen := by
  cases cmd with
  | bootd => exact inner (world.getenv (ascii "bootcmd")) world
  | run =>
      unfold callFn
      dsimp only
      split
      · exact fun seen member => absurd member List.not_mem_nil
      · exact do_run_log holds _ (fun text world => inner (some text) world) _ world
  | autoscr =>
      unfold callFn
      dsimp only
      cases monitor.script argc argv world with
      | none => exact fun seen member => absurd member List.not_mem_nil
      | some lines =>
          exact autoscript_log holds _ (fun text world => inner (some text) world) lines world
  | other index => exact fun seen member => absurd member List.not_mem_nil

/-- What run_command notes of one of its commands. -/
def noted (token : List UInt8) (line : LineState) (interrupted : Bool) : Seen :=
  let parsed := parseLine monitor.maxargs (finalText monitor line.world token) line.argv
  ⟨callers, line.world.getenv, token,
    (accepted monitor line.flag parsed).map fun cmdtp => (cmdtp.cmd, parsed), interrupted⟩

/-- A property holds of the whole log when it holds of each command of the line, and of the logs of
the calls in between. `good` is what the flag keeps. -/
theorem run_tokens_log (good : Nat → Prop)
    (keeps : ∀ cmd flag, good flag → good (flagFor cmd flag)) (tokens : List (List UInt8))
    (here : ∀ token ∈ tokens, ∀ line interrupted, good line.flag →
      holds (noted monitor callers token line interrupted))
    (inner : ∀ cmd flag, good flag → ∀ text world,
      ∀ seen ∈ (again (cmd :: callers) (passedFlag cmd (flagFor cmd flag)) text world).log, holds seen)
    (line : LineState) (start : good line.flag) :
    ∀ seen ∈ (runTokens monitor again callers tokens line).log, holds seen := by
  induction tokens generalizing line with
  | nil => exact fun seen member => absurd member List.not_mem_nil
  | cons token rest induction =>
      have rest_here := induction fun token member => here token (List.mem_cons_of_mem _ member)
      have first := here token List.mem_cons_self line
      intro seen member
      unfold runTokens at member
      unfold noted at first
      cases taken : accepted monitor line.flag
          (parseLine monitor.maxargs (finalText monitor line.world token) line.argv) with
      | none =>
          simp only [taken, List.mem_cons] at member
          simp only [taken, Option.map_none] at first
          rcases member with rfl | later
          · exact first false start
          · exact rest_here { line with argv := _, rc := -1 } start seen later
      | some cmdtp =>
          simp only [taken] at member
          simp only [taken, Option.map_some] at first
          have called := call_fn_log monitor again callers holds cmdtp.cmd
            (flagFor cmdtp.cmd line.flag)
            (parseLine monitor.maxargs (finalText monitor line.world token) line.argv).1
            (parseLine monitor.maxargs (finalText monitor line.world token) line.argv).2 line.world
            (inner cmdtp.cmd line.flag start)
          split at member
          · rcases List.mem_cons.mp member with rfl | within
            · exact first false start
            · exact called seen within
          · split at member
            · rcases List.mem_cons.mp member with rfl | within
              · exact first true start
              · exact called seen within
            · rcases List.mem_append.mp member with before | later
              · rcases List.mem_cons.mp before with rfl | within
                · exact first false start
                · exact called seen within
              · exact rest_here _ (keeps cmdtp.cmd line.flag start) seen later

end Logs

/-! ### bootd within bootd -/

/-- The commands that lead to a call through run and bootd alone, from the innermost on. -/
def route (callers : List CommandFn) : List CommandFn := callers.takeWhile (· ≠ .autoscr)

/-- A call within bootd has the flag. -/
def Flagged (callers : List CommandFn) (flag : Nat) : Prop :=
  .bootd ∈ route callers → flag &&& CMD_FLAG_BOOTD ≠ 0

/-- No bootd is called within another through run and bootd. -/
def Outermost (seen : Seen) : Prop :=
  ∀ parsed, seen.call = some (.bootd, parsed) → .bootd ∉ route seen.callers

theorem bootd_flag (flag : Nat) : (flag ||| CMD_FLAG_BOOTD) &&& CMD_FLAG_BOOTD ≠ 0 := by
  rw [Nat.and_comm, Nat.or_comm, Nat.and_or_distrib_left]
  intro none
  exact absurd (Nat.or_eq_zero_iff.mp none).1 (by decide)

theorem flagged_same (callers : List CommandFn) (cmd : CommandFn) (flag : Nat)
    (flagged : Flagged callers flag) : Flagged callers (flagFor cmd flag) := by
  intro within
  unfold flagFor
  split
  · exact bootd_flag flag
  · exact flagged within

theorem flagged_within (callers : List CommandFn) (cmd : CommandFn) (flag : Nat)
    (flagged : Flagged callers flag) :
    Flagged (cmd :: callers) (passedFlag cmd (flagFor cmd flag)) := by
  intro within
  unfold route at within
  rw [List.takeWhile_cons] at within
  split at within
  · next through =>
      have through : cmd ≠ .autoscr := by simpa using through
      rw [passedFlag, if_neg through]
      rcases List.mem_cons.mp within with first | later
      · rw [flagFor, if_pos first.symm]
        exact bootd_flag flag
      · exact flagged_same callers cmd flag flagged later
  · exact absurd within List.not_mem_nil

theorem accepted_bootd (monitor : Monitor) (flag : Nat) (parsed : Nat × Argv) (cmdtp : CmdTbl)
    (taken : accepted monitor flag parsed = some cmdtp) (bootd : cmdtp.cmd = .bootd) :
    flag &&& CMD_FLAG_BOOTD = 0 := by
  unfold accepted at taken
  split at taken
  · cases taken
  · split at taken
    · cases taken
    · split at taken
      · cases taken
      · split at taken
        · cases taken
        · next free =>
            cases taken
            exact not_not.mp fun set => free ⟨bootd, set⟩

theorem noted_outermost (monitor : Monitor) (callers : List CommandFn) (token : List UInt8)
    (line : LineState) (interrupted : Bool) (flagged : Flagged callers line.flag) :
    Outermost (noted monitor callers token line interrupted) := by
  intro parsed same within
  obtain ⟨cmdtp, taken, call⟩ := Option.map_eq_some_iff.mp same
  exact flagged within (accepted_bootd monitor line.flag _ cmdtp taken (congrArg Prod.fst call))

theorem command_outermost (monitor : Monitor) (depth : Nat) (callers : List CommandFn)
    (flag : Nat) (cmd : Option CString) (world : World) (flagged : Flagged callers flag) :
    ∀ seen ∈ (runCommand monitor depth callers flag cmd world).log, Outermost seen := by
  induction depth generalizing callers flag cmd world with
  | zero => exact fun seen member => absurd member List.not_mem_nil
  | succ depth induction =>
      unfold runCommand
      cases cmd with
      | none => exact fun seen member => absurd member List.not_mem_nil
      | some cmd =>
          dsimp only
          split
          · exact fun seen member => absurd member List.not_mem_nil
          · apply run_tokens_log monitor (runCommand monitor depth) callers Outermost
              (fun flag => Flagged callers flag)
            · exact fun cmd flag before => flagged_same callers cmd flag before
            · exact fun token _ line interrupted before =>
                noted_outermost monitor callers token line interrupted before
            · exact fun cmd flag before text world =>
                induction (cmd :: callers) _ text world (flagged_within callers cmd flag before)
            · exact flagged

/-- In no run of the main loop is bootd called within bootd, through run and bootd. -/
theorem bootd_never_nested (monitor : Monitor) (depth : Nat) (entered : List Entered) (main : Main) :
    ∀ seen ∈ mainLoop monitor depth entered main, Outermost seen := by
  induction entered generalizing main with
  | nil => exact fun seen member => absurd member List.not_mem_nil
  | cons one rest induction =>
      have turn : ∀ seen ∈ (mainTurn monitor depth main one).1, Outermost seen := by
        cases one with
        | interrupt => exact fun seen member => absurd member List.not_mem_nil
        | line text =>
            exact command_outermost monitor depth [] _ _ main.world
              (fun within => absurd within List.not_mem_nil)
      intro seen member
      unfold mainLoop at member
      cases ran : mainTurn monitor depth main one with
      | mk log next =>
          rw [ran] at turn
          cases next with
          | none =>
              simp only [ran] at member
              exact turn seen member
          | some next =>
              simp only [ran] at member
              rcases List.mem_append.mp member with now | later
              · exact turn seen now
              · exact induction next seen later

/-- A monitor with bootd and run. -/
def bootMonitor : Monitor where
  cbsize := 512
  maxargs := 16
  table := [⟨ascii "bootd", 1, true, .bootd⟩, ⟨ascii "run", 16, true, .run⟩]
  effect _ _ _ _ world := (0, world)
  script _ _ _ := none
  behind _ := []
  stack _ _ := none
  before _ := 0

theorem run_terminated : 0 ∉ ascii "run again" := by decide

theorem bootd_terminated : 0 ∉ ascii "bootd" := by decide

/-- The variables bootcmd and again lead from bootd to bootd. -/
def circle : World where
  getenv name := if name = ascii "bootcmd" then some ⟨_, run_terminated⟩ else some ⟨_, bootd_terminated⟩
  ctrlc := false

def circleLog : List Seen :=
  mainLoop bootMonitor 4 [.line ⟨_, bootd_terminated⟩] ⟨noCommand, 0, circle⟩

theorem circle_length : 2 < circleLog.length := by decide +kernel

/-- The bootd that run comes to is not called. -/
theorem circle_broken : Outermost (circleLog.get ⟨2, circle_length⟩) :=
  bootd_never_nested _ _ _ _ _ (List.get_mem _ _)

end UBoot.Shell.RunCommand
