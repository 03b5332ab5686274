import UBoot.Shell.RunCommand

/-!
The arguments of the commands. A command gets the words of its part of the line,
with a NULL behind them, and a part with too many words is refused. That can
fail only when the expansion fills its buffer, and for commands that take as many
arguments as parse_line can split off.
-/

namespace UBoot.Shell.Arguments

open Lib.Strings ProcessMacros Segments ParseLine RunCommand

def segmentWords (seen : Seen) : List (List UInt8) := words (expansion seen.getenv seen.token)

/-- What is said of each part of a line that run_command comes to. -/
structure Kept (monitor : Monitor) (seen : Seen) : Prop where
  refused : monitor.maxargs < (segmentWords seen).length → seen.call = none
  called : ∀ fn argc argv, seen.call = some (fn, argc, argv) →
    argc = (segmentWords seen).length ∧ (∀ i < argc, argv i = (segmentWords seen)[i]?) ∧
      argv argc = none

/-- The expansion is shorter than finaltoken; and parse_line comes to its end, or the command takes
fewer arguments than it splits off. -/
def Fits (monitor : Monitor) (seen : Seen) : Prop :=
  (expansion seen.getenv seen.token).length < monitor.cbsize ∧
    (Complete monitor.maxargs (expansion seen.getenv seen.token) ∨
      (findCmd monitor.table ((segmentWords seen).headD [])).all
        (fun cmdtp => cmdtp.maxargs < monitor.maxargs) = true)

instance (monitor : Monitor) (seen : Seen) : Decidable (Fits monitor seen) :=
  inferInstanceAs (Decidable (_ ∧ _))

theorem final_text_eq (monitor : Monitor) (world : World) (token : List UInt8)
    (text : 0 ∉ token) (room : (expansion world.getenv token).length < monitor.cbsize) :
    finalText monitor world token = expansion world.getenv token := by
  have solid := expansion_no_nul world.getenv token unread text
  have ended : ∀ c ∈ expansion world.getenv token, decide (c ≠ 0) = true := by
    intro c member
    apply decide_eq_true
    rintro rfl
    exact solid member
  unfold finalText
  rw [process_macros_eq, if_pos room]
  dsimp only
  rw [if_pos (by simp), List.takeWhile_append_of_pos ended]
  simp

theorem accepted_some (monitor : Monitor) (flag : Nat) (parsed : Nat × Argv) (cmdtp : CmdTbl)
    (taken : accepted monitor flag parsed = some cmdtp) :
    parsed.1 ≠ 0 ∧ findCmd monitor.table ((parsed.2 0).getD []) = some cmdtp ∧
      parsed.1 ≤ cmdtp.maxargs := by
  unfold accepted at taken
  split at taken
  · cases taken
  · next some_args =>
      split at taken
      · cases taken
      · next found =>
          split at taken
          · cases taken
          · next enough =>
              split at taken
              · cases taken
              · cases taken
                exact ⟨some_args, found, not_lt.mp enough⟩

theorem noted_kept (monitor : Monitor) (callers : List CommandFn) (token : List UInt8)
    (line : LineState) (interrupted : Bool) (text : 0 ∉ token)
    (fits : Fits monitor (noted monitor callers token line interrupted)) :
    Kept monitor (noted monitor callers token line interrupted) := by
  have same := final_text_eq monitor line.world token text fits.1
  by_cases complete : Complete monitor.maxargs (expansion line.world.getenv token)
  · have parsed := parse_complete monitor.maxargs _ line.argv complete
    rw [← same] at parsed
    constructor
    · intro many
      rcases complete with less | full
      · exact absurd many (not_lt.mpr less.le)
      · exact absurd many (not_lt.mpr full.1.le)
    · intro fn argc argv taken
      obtain ⟨cmdtp, -, result⟩ := Option.map_eq_some_iff.mp taken
      rw [show parseLine monitor.maxargs (finalText monitor line.world token) line.argv =
        (argc, argv) from (Prod.mk.inj result).2] at parsed
      rw [same] at parsed
      exact parsed
  · have parsed := parse_stopped monitor.maxargs _ line.argv complete
    have none : (noted monitor callers token line interrupted).call = none := by
      unfold noted
      dsimp only
      rw [same, Option.map_eq_none_iff]
      cases taken : accepted monitor line.flag
          (parseLine monitor.maxargs (expansion line.world.getenv token) line.argv) with
      | none => rfl
      | some cmdtp =>
          obtain ⟨args, found, enough⟩ := accepted_some monitor line.flag _ cmdtp taken
          have limited := fits.2.resolve_left complete
          rw [parsed.1] at args enough
          rw [parsed.2.2.1 0 (Nat.pos_of_ne_zero args)] at found
          have first : (segmentWords (noted monitor callers token line interrupted)).headD [] =
              ((words (expansion line.world.getenv token))[0]?).getD [] := by
            rw [List.headD_eq_head?_getD, List.head?_eq_getElem?]
            rfl
          rw [first, found, Option.all_some, decide_eq_true_eq] at limited
          omega
    constructor
    · exact fun _ => none
    · intro fn argc argv taken
      rw [none] at taken
      cases taken

/-! ### The parts of a line -/

theorem split_no_nul (text : List UInt8) (scan : Scan) (begun : 0 ∉ scan.token) (solid : 0 ∉ text) :
    ∀ token ∈ splitFrom scan text, 0 ∉ token := by
  induction text generalizing scan with
  | nil =>
      intro token member
      unfold splitFrom at member
      split at member
      · exact absurd member List.not_mem_nil
      · rw [List.mem_singleton.mp member]
        exact begun
  | cons c rest induction =>
      rw [List.mem_cons, not_or] at solid
      intro token member
      unfold splitFrom at member
      split at member
      · rcases List.mem_cons.mp member with rfl | later
        · exact begun
        · exact induction nextCommand List.not_mem_nil solid.2 token later
      · apply induction _ _ solid.2 token member
        simp [begun, solid.1]

/-- The calls of a line are noted with its own callers, those below it with more. -/
theorem callers_longer (monitor : Monitor) (depth : Nat) (callers : List CommandFn) (flag : Nat)
    (cmd : Option CString) (world : World) :
    ∀ seen ∈ (runCommand monitor depth callers flag cmd world).log, callers <:+ seen.callers := by
  induction depth generalizing callers flag cmd world with
  | zero => exact fun seen member => absurd member List.not_mem_nil
  | succ depth induction =>
      unfold runCommand
      cases cmd with
      | none => exact fun seen member => absurd member List.not_mem_nil
      | some cmd =>
          dsimp only
          split
          · exact fun seen member => absurd member List.not_mem_nil
          · apply run_tokens_log monitor (runCommand monitor depth) callers
              (fun seen => callers <:+ seen.callers) (fun _ => True)
            · exact fun _ _ _ => trivial
            · exact fun token _ line interrupted _ => List.suffix_rfl
            · exact fun cmd flag _ text world seen member =>
                (List.suffix_cons cmd callers).trans (induction (cmd :: callers) _ text world seen member)
            · trivial

theorem log_kept (monitor : Monitor) (depth : Nat) (callers : List CommandFn) (flag : Nat)
    (cmd : Option CString) (world : World) :
    ∀ seen ∈ (runCommand monitor depth callers flag cmd world).log,
      Fits monitor seen → Kept monitor seen := by
  induction depth generalizing callers flag cmd world with
  | zero => exact fun seen member => absurd member List.not_mem_nil
  | succ depth induction =>
      unfold runCommand
      cases cmd with
      | none => exact fun seen member => absurd member List.not_mem_nil
      | some cmd =>
          dsimp only
          split
          · exact fun seen member => absurd member List.not_mem_nil
          · apply run_tokens_log monitor (runCommand monitor depth) callers
              (fun seen => Fits monitor seen → Kept monitor seen) (fun _ => True)
            · exact fun _ _ _ => trivial
            · exact fun token member line interrupted _ =>
                noted_kept monitor callers token line interrupted
                  (split_no_nul cmd.bytes _ List.not_mem_nil cmd.terminated token member)
            · exact fun cmd flag _ text world => induction (cmd :: callers) _ text world
            · trivial

section Line

variable (monitor : Monitor)
variable (again : List CommandFn → (flag : Nat) → Option CString → World → Outcome)
variable (callers : List CommandFn)

theorem none_direct (cmd : CommandFn) (log : List Seen)
    (below : ∀ seen ∈ log, cmd :: callers <:+ seen.callers) :
    log.filter (fun seen => seen.callers = callers) = [] := by
  rw [List.filter_eq_nil_iff]
  intro seen member same
  have longer := (below seen member).length_le
  rw [of_decide_eq_true same] at longer
  exact Nat.not_succ_le_self _ longer

/-- A line that is not interrupted comes to all its parts, and returns -1 when one was refused. -/
theorem run_tokens_direct
    (below : ∀ cmd flag text world,
      ∀ seen ∈ (again (cmd :: callers) flag text world).log, cmd :: callers <:+ seen.callers)
    (tokens : List (List UInt8)) (line : LineState) (rc : Int) (last : World)
    (ended : (runTokens monitor again callers tokens line).result = some (rc, last))
    (calm : ∀ seen ∈ (runTokens monitor again callers tokens line).log, seen.interrupted = false) :
    ((runTokens monitor again callers tokens line).log.filter
        (fun seen => seen.callers = callers)).map Seen.token = tokens ∧
      ((line.rc = -1 ∨ ∃ seen ∈ (runTokens monitor again callers tokens line).log,
          seen.callers = callers ∧ seen.call = none) → rc = -1) := by
  induction tokens generalizing line with
  | nil =>
      constructor
      · rfl
      · rintro (failed | ⟨seen, member, -⟩)
        · simp only [runTokens, failed] at ended
          cases ended
          rfl
        · exact absurd member List.not_mem_nil
  | cons token rest induction =>
      unfold runTokens at ended calm ⊢
      cases taken : accepted monitor line.flag
          (parseLine monitor.maxargs (finalText monitor line.world token) line.argv) with
      | none =>
          simp only [taken] at ended calm ⊢
          obtain ⟨tokens, failed⟩ := induction { line with argv := _, rc := -1 } ended
            fun seen member => calm seen (List.mem_cons_of_mem _ member)
          constructor
          · rw [List.filter_cons_of_pos (by simp), List.map_cons, tokens]
          · exact fun _ => failed (Or.inl rfl)
      | some cmdtp =>
          simp only [taken] at ended calm ⊢
          have inner := none_direct callers cmdtp.cmd _
            (call_fn_log monitor again callers (fun seen => cmdtp.cmd :: callers <:+ seen.callers)
              cmdtp.cmd (flagFor cmdtp.cmd line.flag)
              (parseLine monitor.maxargs (finalText monitor line.world token) line.argv).1
              (parseLine monitor.maxargs (finalText monitor line.world token) line.argv).2 line.world
              (below cmdtp.cmd _))
          generalize callFn monitor again callers cmdtp.cmd (flagFor cmdtp.cmd line.flag)
            (parseLine monitor.maxargs (finalText monitor line.world token) line.argv).1
            (parseLine monitor.maxargs (finalText monitor line.world token) line.argv).2
            line.world = called at ended calm inner ⊢
          cases result : called.result with
          | none =>
              simp only [result] at ended
              cases ended
          | some after =>
              simp only [result] at ended calm ⊢
              by_cases stopped : after.2.ctrlc = true
              · simp only [stopped, if_true] at calm
                exact Bool.noConfusion (calm _ List.mem_cons_self)
              · simp only [stopped] at ended calm ⊢
                obtain ⟨tokens, failed⟩ := induction _ ended
                  fun seen member => calm seen (List.mem_append_right _ member)
                constructor
                · rw [if_neg Bool.false_ne_true, List.filter_append,
                    List.filter_cons_of_pos (by simp), inner, List.map_append, tokens]
                  rfl
                · rintro (before | ⟨seen, member, same, refused⟩)
                  · apply failed
                    left
                    dsimp only
                    split
                    · rfl
                    · exact before
                  · rcases List.mem_append.mp member with now | later
                    · rcases List.mem_cons.mp now with rfl | within
                      · cases refused
                      · exact absurd (List.mem_filter.mpr ⟨within, decide_eq_true same⟩)
                          (by rw [inner]; exact List.not_mem_nil)
                    · exact failed (Or.inr ⟨seen, later, same, refused⟩)

end Line

/-- In a run whose parts all fit, and that is not interrupted, every command gets its words, and a
part with too many words is refused and makes run_command return -1. -/
theorem arguments_kept (monitor : Monitor) (depth : Nat) (callers : List CommandFn) (flag : Nat)
    (cmd : CString) (world : World)
    (fits : ∀ seen ∈ (runCommand monitor depth callers flag (some cmd) world).log, Fits monitor seen)
    (calm : ∀ seen ∈ (runCommand monitor depth callers flag (some cmd) world).log,
      seen.interrupted = false) :
    (∀ seen ∈ (runCommand monitor depth callers flag (some cmd) world).log, Kept monitor seen) ∧
      ∀ rc last, (runCommand monitor depth callers flag (some cmd) world).result = some (rc, last) →
        cmd.bytes.length < monitor.cbsize →
        ((runCommand monitor depth callers flag (some cmd) world).log.filter
            (fun seen => seen.callers = callers)).map Seen.token =
          splitLine (monitor.before { world with ctrlc := false }) cmd.bytes ∧
        ((∃ seen ∈ (runCommand monitor depth callers flag (some cmd) world).log,
            seen.callers = callers ∧ monitor.maxargs < (segmentWords seen).length) → rc = -1) := by
  have kept := fun seen member => log_kept monitor depth callers flag (some cmd) world seen member
    (fits seen member)
  refine ⟨kept, ?_⟩
  intro rc last ended short
  cases depth with
  | zero => cases ended
  | succ depth =>
      by_cases empty : cmd.bytes = []
      · have nothing : (runCommand monitor (depth + 1) callers flag (some cmd) world).log = [] := by
          unfold runCommand
          dsimp only
          rw [if_pos (Or.inl empty)]
        rw [nothing, empty]
        refine ⟨rfl, ?_⟩
        rintro ⟨seen, member, -⟩
        exact absurd member List.not_mem_nil
      · have entered : runCommand monitor (depth + 1) callers flag (some cmd) world =
            runTokens monitor (runCommand monitor depth) callers
              (splitLine (monitor.before { world with ctrlc := false }) cmd.bytes)
              ⟨{ world with ctrlc := false }, monitor.stack { world with ctrlc := false }, flag, 0,
                true⟩ := by
          rw [runCommand, if_neg]
          rintro (none | long)
          · exact empty none
          · omega
        rw [entered] at ended calm kept ⊢
        obtain ⟨tokens, failed⟩ := run_tokens_direct monitor (runCommand monitor depth) callers
          (fun cmd flag text world => callers_longer monitor depth (cmd :: callers) flag text world)
          _ _ rc last ended calm
        refine ⟨tokens, ?_⟩
        rintro ⟨seen, member, same, many⟩
        exact failed (Or.inr ⟨seen, member, same, (kept seen member).refused many⟩)

/-- A monitor with one command that takes all arguments and one that takes one, which do nothing. -/
def twoCommands : Monitor where
  cbsize := 512
  maxargs := 16
  table := [⟨ascii "echo", 16, true, .other 0⟩, ⟨ascii "bootm", 2, true, .other 1⟩]
  effect _ _ _ _ world := (0, world)
  script _ _ _ := none
  behind _ := []
  stack _ _ := some (ascii "old")
  before _ := 0

def idle : World := ⟨fun _ => none, false⟩

theorem few_terminated : 0 ∉ ascii "echo a b;bootm 1 2 3 4 5 6 7 8 9 10 11 12 13 14 15 16" := by decide

def fewWords : CString := ⟨_, few_terminated⟩

/-- The second command of the line is refused for its sixteen arguments. -/
theorem bootm_refused :
    (runCommand twoCommands 1 [] 0 (some fewWords) idle).result.map Prod.fst = some (-1) := by
  have returns : (runCommand twoCommands 1 [] 0 (some fewWords) idle).result.isSome = true := by
    decide +kernel
  obtain ⟨⟨rc, last⟩, ended⟩ := Option.isSome_iff_exists.mp returns
  have refused := (arguments_kept twoCommands 1 [] 0 fewWords idle (by decide +kernel)
    (by decide +kernel)).2 rc last ended (by decide +kernel)
  rw [ended, Option.map_some, refused.2 (by decide +kernel)]

theorem many_terminated : 0 ∉ ascii "echo 1 2 3 4 5 6 7 8 9 10 11 12 13 14 15 16" := by decide

def manyWords : CString := ⟨_, many_terminated⟩

/-- The last of seventeen words is dropped, and the command is executed. -/
theorem dropped_word :
    (∃ seen ∈ (runCommand twoCommands 1 [] 0 (some manyWords) idle).log,
        twoCommands.maxargs < (segmentWords seen).length ∧ seen.call.isSome = true) ∧
      (runCommand twoCommands 1 [] 0 (some manyWords) idle).result.map Prod.fst = some 1 := by
  decide +kernel

end UBoot.Shell.Arguments
