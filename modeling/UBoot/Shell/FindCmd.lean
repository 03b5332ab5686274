import UBoot.Shell.RunCommand

/-!
find_cmd of common/command.c as a choice from a set of names. The loop remembers the last
abbreviation and how many it has met; a full match ends it.
-/

namespace UBoot.Shell.FindCmd

open RunCommand

/-- The entries between __u_boot_cmd_start and __u_boot_cmd_end. U_BOOT_CMD makes a symbol of each
name, so that no name can be linked twice. -/
structure CommandTable where
  entries : List CmdTbl
  distinct : (entries.map CmdTbl.name).Nodup

/-- A command up to its first dot. -/
def commandName (cmd : List UInt8) : List UInt8 := cmd.takeWhile fun c => c ≠ 46

/-- The entry with the name itself, or the only one whose name begins with it. -/
def Designates (entries : List CmdTbl) (word : List UInt8) (cmdtp : CmdTbl) : Prop :=
  cmdtp ∈ entries ∧
    (cmdtp.name = word ∨
      (∀ other ∈ entries, other.name ≠ word) ∧ word <+: cmdtp.name ∧
        ∀ other ∈ entries, word <+: other.name → other = cmdtp)

theorem full_match {key name : List UInt8} (front : key <+: name) :
    key.length = name.length ↔ name = key :=
  ⟨fun same => (front.eq_of_length same).symm, fun same => by rw [same]⟩

/-- The entries that a word may abbreviate. -/
def matching (key : List UInt8) (entries : List CmdTbl) : List CmdTbl :=
  entries.filter fun cmdtp => key.isPrefixOf cmdtp.name

theorem mem_matching {key : List UInt8} {entries : List CmdTbl} {cmdtp : CmdTbl} :
    cmdtp ∈ matching key entries ↔ cmdtp ∈ entries ∧ key <+: cmdtp.name := by
  unfold matching
  rw [List.mem_filter, List.isPrefixOf_iff_prefix]

/-- The loop without a full match ahead. -/
theorem find_loop_abbreviated (key : List UInt8) (entries : List CmdTbl)
    (none' : ∀ other ∈ entries, other.name ≠ key) (temp : Option CmdTbl) (nFound : Nat) :
    findLoop key entries temp nFound =
      if nFound + (matching key entries).length = 1 then (matching key entries).getLast?.or temp
      else none := by
  induction entries generalizing temp nFound with
  | nil => rfl
  | cons first rest inductive_hypothesis =>
      have later := inductive_hypothesis fun other member =>
        none' other (List.mem_cons_of_mem _ member)
      rw [findLoop]
      by_cases front : key.isPrefixOf first.name
      · have shorter : ¬ key.length = first.name.length := by
          rw [full_match (List.isPrefixOf_iff_prefix.mp front)]
          exact none' first List.mem_cons_self
        have more : matching key (first :: rest) = first :: matching key rest :=
          List.filter_cons_of_pos front
        rw [if_pos front, if_neg shorter, later, more, List.length_cons, List.getLast?_cons,
          Nat.add_right_comm, ← Nat.add_assoc]
        cases (matching key rest).getLast? <;> rfl
      · have same : matching key (first :: rest) = matching key rest :=
          List.filter_cons_of_neg front
        rw [if_neg front, later, same]

/-- The loop with a full match ahead: it ends at the first one. -/
theorem find_loop_full (key : List UInt8) (entries : List CmdTbl) (temp : Option CmdTbl)
    (nFound : Nat) (some' : ∃ cmdtp ∈ entries, cmdtp.name = key) :
    findLoop key entries temp nFound = entries.find? fun cmdtp => cmdtp.name = key := by
  induction entries generalizing temp nFound with
  | nil =>
      obtain ⟨cmdtp, member, _⟩ := some'
      exact absurd member List.not_mem_nil
  | cons first rest inductive_hypothesis =>
      rw [findLoop]
      by_cases same : first.name = key
      · have front : key.isPrefixOf first.name := by
          rw [same, List.isPrefixOf_iff_prefix]
        rw [if_pos front, if_pos (by rw [same]), List.find?_cons_of_pos (by simpa using same)]
      · have later : ∃ cmdtp ∈ rest, cmdtp.name = key := by
          obtain ⟨cmdtp, member, named⟩ := some'
          rcases List.mem_cons.mp member with rfl | behind
          · exact absurd named same
          · exact ⟨cmdtp, behind, named⟩
        rw [List.find?_cons_of_neg (by simpa using same)]
        split
        · next front =>
            rw [if_neg (by rw [full_match (List.isPrefixOf_iff_prefix.mp front)]; exact same)]
            exact inductive_hypothesis _ _ later
        · exact inductive_hypothesis _ _ later

section Table

variable (table : CommandTable)

theorem same_name {one other : CmdTbl} (oneIn : one ∈ table.entries)
    (otherIn : other ∈ table.entries) (same : one.name = other.name) : one = other :=
  List.inj_on_of_nodup_map table.distinct oneIn otherIn same

theorem entries_nodup : table.entries.Nodup := List.Nodup.of_map _ table.distinct

/-- A list without repetition that has one element and no other is that element alone. -/
theorem alone_iff {α : Type} {xs : List α} (distinct : xs.Nodup) (x : α) :
    (x ∈ xs ∧ ∀ y ∈ xs, y = x) ↔ xs = [x] := by
  constructor
  · rintro ⟨member, only⟩
    match xs, distinct, member, only with
    | [y], _, _, only => rw [only y List.mem_cons_self]
    | y :: z :: rest, distinct, _, only =>
        have first := only y List.mem_cons_self
        have second := only z (List.mem_cons_of_mem _ List.mem_cons_self)
        rw [first, second] at distinct
        exact absurd List.mem_cons_self (List.nodup_cons.mp distinct).1
  · rintro rfl
    exact ⟨List.mem_cons_self, fun y member => List.mem_singleton.mp member⟩

theorem find_cmd_iff (cmd : List UInt8) (cmdtp : CmdTbl) :
    findCmd table.entries cmd = some cmdtp ↔
      Designates table.entries (commandName cmd) cmdtp := by
  show findLoop (commandName cmd) table.entries none 0 = some cmdtp ↔ _
  generalize commandName cmd = key
  by_cases full : ∃ other ∈ table.entries, other.name = key
  · rw [find_loop_full key table.entries none 0 full]
    obtain ⟨other, otherIn, named⟩ := full
    constructor
    · intro found
      have member := List.mem_of_find?_eq_some found
      have same : cmdtp.name = key := by simpa using List.find?_some found
      exact ⟨member, .inl same⟩
    · rintro ⟨member, same | ⟨different, _⟩⟩
      · obtain ⟨first, found⟩ : ∃ first, table.entries.find? (fun c => c.name = key) = some first :=
          Option.isSome_iff_exists.mp (List.find?_isSome.mpr ⟨cmdtp, member, by simpa using same⟩)
        have named' : first.name = key := by simpa using List.find?_some found
        rw [found, same_name table (List.mem_of_find?_eq_some found) member
          (named'.trans same.symm)]
      · exact absurd named (different other otherIn)
  · have different : ∀ other ∈ table.entries, other.name ≠ key :=
      fun other member same => full ⟨other, member, same⟩
    rw [find_loop_abbreviated key table.entries different, Nat.zero_add, Option.or_none]
    have distinct : (matching key table.entries).Nodup := (entries_nodup table).filter _
    have alone := alone_iff distinct cmdtp
    simp only [mem_matching, and_imp] at alone
    unfold Designates
    constructor
    · intro found
      split at found
      · next one =>
          obtain ⟨only, single⟩ := List.length_eq_one_iff.mp one
          rw [single, List.getLast?_singleton] at found
          rw [Option.some.inj found] at single
          obtain ⟨⟨member, front⟩, rest⟩ := alone.mpr single
          exact ⟨member, .inr ⟨different, front, rest⟩⟩
      · cases found
    · rintro ⟨member, same | ⟨_, front, rest⟩⟩
      · exact absurd same (different cmdtp member)
      · rw [alone.mp ⟨⟨member, front⟩, rest⟩]
        rfl

theorem designates_perm {entries entries' : List CmdTbl} (perm : entries.Perm entries')
    (word : List UInt8) (cmdtp : CmdTbl) :
    Designates entries word cmdtp ↔ Designates entries' word cmdtp := by
  unfold Designates
  simp only [perm.mem_iff]

theorem command_name_suffix (word suffix : List UInt8) :
    commandName (word ++ 46 :: suffix) = commandName word := by
  unfold commandName
  induction word with
  | nil => rfl
  | cons c rest inductive_hypothesis =>
      by_cases dot : c = 46
      · rw [List.cons_append, List.takeWhile_cons_of_neg (by simpa using dot),
          List.takeWhile_cons_of_neg (by simpa using dot)]
      · rw [List.cons_append, List.takeWhile_cons_of_pos (by simpa using dot),
          List.takeWhile_cons_of_pos (by simpa using dot), inductive_hypothesis]

end Table

/-- find_cmd finds the entry that a word designates, whatever stands behind a dot and in whatever
order the entries were linked. -/
theorem find_cmd_designates (table : CommandTable) (cmd : List UInt8) :
    (∀ cmdtp, findCmd table.entries cmd = some cmdtp ↔
        Designates table.entries (commandName cmd) cmdtp) ∧
      (∀ suffix, findCmd table.entries (cmd ++ 46 :: suffix) = findCmd table.entries cmd) ∧
      ∀ other : CommandTable, other.entries.Perm table.entries →
        findCmd other.entries cmd = findCmd table.entries cmd := by
  refine ⟨find_cmd_iff table cmd, fun suffix => ?_, fun other perm => ?_⟩
  · apply Option.ext
    intro cmdtp
    rw [find_cmd_iff, find_cmd_iff, command_name_suffix]
  · apply Option.ext
    intro cmdtp
    rw [find_cmd_iff, find_cmd_iff]
    exact designates_perm perm _ cmdtp

end UBoot.Shell.FindCmd
