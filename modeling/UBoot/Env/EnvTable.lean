import UBoot.Env.Nvedit

/-!
The environment as a table of entries: the list of `name=value` strings that the
data area holds. An entry is found by the bytes in front of its first `=`; the
search loops of getenv and _do_setenv locate the first entry with a key.
-/

namespace UBoot.Env.EnvTable

open Lib.Strings Library.Memory Library.StringTable Nvedit

/-- The bytes in front of the first `=`, of an entry or of the name that setenv is given. -/
def key (entry : List UInt8) : List UInt8 := entry.takeWhile (· != 61)

def value (entry : List UInt8) : List UInt8 := (entry.dropWhile (· != 61)).tail

structure ValidEntry (entry : List UInt8) : Prop where
  terminated : 0 ∉ entry
  assigned : 61 ∈ entry

theorem ValidEntry.text {entry : List UInt8} (valid : ValidEntry entry) : Text entry :=
  ⟨valid.terminated, List.ne_nil_of_mem valid.assigned⟩

/-- The words, each after its separator. -/
def joinWords : UInt8 → List CString → List UInt8
  | _, [] => []
  | separator, word :: rest => separator :: (word.bytes ++ joinWords 32 rest)

def newEntry (name : List UInt8) (words : List CString) : List UInt8 := name ++ joinWords 61 words

/-- Where the first entry with a key stands in a table. -/
def locate (name : List UInt8) : List (List UInt8) → Nat → Option OldDef
  | [], _ => none
  | entry :: rest, start =>
      if key entry = name then some ⟨start, start + entry.length, start + name.length + 1⟩
      else locate name rest (start + entry.length + 1)

def lookup (entries : List (List UInt8)) (name : List UInt8) : Option (List UInt8) :=
  (entries.find? fun entry => key entry == name).map value

theorem entry_split {entry : List UInt8} (assigned : 61 ∈ entry) :
    entry = key entry ++ 61 :: value entry := by
  induction entry with
  | nil => exact absurd assigned List.not_mem_nil
  | cons c rest ih =>
      by_cases equals : c = 61
      · simp [key, value, equals]
      · have later : 61 ∈ rest := (List.mem_cons.mp assigned).resolve_left (Ne.symm equals)
        have tail := ih later
        simp only [key, value] at tail
        simp only [key, value, List.takeWhile_cons, List.dropWhile_cons, bne_iff_ne, ne_eq, equals,
          not_false_eq_true, if_true, List.cons_append]
        rw [← tail]

theorem key_append (front back : List UInt8) : key (front ++ 61 :: back) = key front := by
  induction front with
  | nil => rfl
  | cons c rest ih =>
      by_cases equals : c = 61
      · simp [key, equals]
      · simp only [key] at ih
        simp [key, equals, ih]

theorem key_of_no_equals {name : List UInt8} (plain : 61 ∉ name) : key name = name := by
  induction name with
  | nil => rfl
  | cons c rest ih =>
      have differs : c ≠ 61 := fun same => plain (same ▸ List.mem_cons_self)
      have tail := ih fun member => plain (List.mem_cons_of_mem c member)
      simp only [key] at tail
      simp [key, differs, tail]

theorem value_append {front : List UInt8} (plain : 61 ∉ front) (back : List UInt8) :
    value (front ++ 61 :: back) = back := by
  induction front with
  | nil => rfl
  | cons c rest ih =>
      have differs : c ≠ 61 := fun same => plain (same ▸ List.mem_cons_self)
      have tail := ih fun member => plain (List.mem_cons_of_mem c member)
      simp only [value] at tail
      simp [value, differs, tail]

theorem envmatch_eq {mem : Nat → UInt8} {start : Nat} {name entry : List UInt8}
    (valid : ValidEntry entry) (terminated : 0 ∉ name) (has : HasBytes mem start (entry ++ [0])) :
    envmatch mem name start =
      if key entry = key name then some (start + (key name).length + 1) else none := by
  induction name generalizing start entry with
  | nil =>
      cases entry with
      | nil => exact absurd valid.assigned List.not_mem_nil
      | cons c rest =>
          have first : mem start = c := has.1
          -- The name has ended, so only an equals sign matches.
          by_cases equals : c = 61
          · simp [envmatch, first, equals, key]
          · simp [envmatch, first, equals, key]
  | cons n more ih =>
      cases entry with
      | nil => exact absurd valid.assigned List.not_mem_nil
      | cons c rest =>
          have first : mem start = c := has.1
          have named : n ≠ 0 := fun zero => terminated (zero ▸ List.mem_cons_self)
          -- Both have a byte left: equal ones go on, different ones end the match, at an equals sign too.
          by_cases same : n = c
          · by_cases equals : c = 61
            · simp [envmatch, first, same, equals, key]
            · have later : 61 ∈ rest :=
                (List.mem_cons.mp valid.assigned).resolve_left (Ne.symm equals)
              have validRest : ValidEntry rest :=
                ⟨fun member => valid.terminated (List.mem_cons_of_mem c member), later⟩
              have tail := ih validRest (fun member => terminated (List.mem_cons_of_mem n member))
                has.2
              have shift : start + 1 + (key more).length + 1 = start + ((key more).length + 1) + 1 :=
                by omega
              rw [envmatch, first, if_pos same, if_neg (same ▸ equals), tail, shift]
              simp only [key, List.takeWhile_cons, same, bne_iff_ne, ne_eq, equals,
                not_false_eq_true, if_true, List.cons.injEq, true_and, List.length_cons]
              congr
          · rw [envmatch, first, if_neg same]
            by_cases nameEquals : n = 61
            · have entryOther : c ≠ 61 := fun equals => same (nameEquals.trans equals.symm)
              simp [key, nameEquals, entryOther]
            · by_cases entryEquals : c = 61
              · simp [key, nameEquals, entryEquals]
              · simp [key, nameEquals, entryEquals, Ne.symm same]

theorem table_cons_split {mem : Nat → UInt8} {start : Nat} {entry : List UInt8}
    {rest : List (List UInt8)} (has : HasBytes mem start (table (entry :: rest) ++ [0])) :
    HasBytes mem start (entry ++ [0]) ∧
      HasBytes mem (start + entry.length + 1) (table rest ++ [0]) := by
  have regroup : table (entry :: rest) ++ [0] = (entry ++ [0]) ++ (table rest ++ [0]) := by
    simp [table]
  rw [regroup, has_bytes_append] at has
  simpa [Nat.add_assoc] using has

theorem first_byte_ne_zero {mem : Nat → UInt8} {start : Nat} {entry : List UInt8}
    (text : Text entry) (has : HasBytes mem start (entry ++ [0])) : mem start ≠ 0 := by
  cases entry with
  | nil => exact absurd rfl text.nonempty
  | cons c rest => exact text_byte_ne_zero text.terminated has.1

theorem bounded_end_eq {mem : Nat → UInt8} {size fuel start : Nat} {text : List UInt8}
    (clean : 0 ∉ text) (has : HasBytes mem start (text ++ [0])) (inside : start + text.length ≤ size)
    (enough : text.length < fuel) : boundedEnd mem size fuel start = some (start + text.length) := by
  induction text generalizing fuel start with
  | nil =>
      cases fuel with
      | zero => exact absurd enough (Nat.not_lt_zero _)
      | succ fuel => exact if_pos has.1
  | cons c rest ih =>
      cases fuel with
      | zero => exact absurd enough (Nat.not_lt_zero _)
      | succ fuel =>
          simp only [List.length_cons] at inside enough ⊢
          have more := text_byte_ne_zero clean has.1
          rw [boundedEnd, if_neg more, if_neg (by omega),
            ih (fun member => clean (List.mem_cons_of_mem c member)) has.2 (by omega) (by omega)]
          congr 1
          omega

section Search
variable {mem : Nat → UInt8} {name : List UInt8} (terminated : 0 ∉ name)
include terminated

theorem find_old_eq {size fuel start : Nat} {entries : List (List UInt8)}
    (valid : ∀ entry ∈ entries, ValidEntry entry) (has : HasBytes mem start (table entries ++ [0]))
    (enough : entries.length ≤ fuel) (room : (table entries).length ≤ size) :
    findOld mem size name fuel start = locate (key name) entries start := by
  induction entries generalizing fuel start with
  | nil =>
      cases fuel with
      | zero => rfl
      | succ fuel => exact if_pos has.1
  | cons entry rest ih =>
      cases fuel with
      | zero => exact absurd enough (Nat.not_succ_le_zero _)
      | succ fuel =>
          have validEntry := valid entry List.mem_cons_self
          obtain ⟨here, later⟩ := table_cons_split has
          simp only [table, List.length_append, List.length_cons] at room
          have stop : stringEnd mem size start = start + entry.length :=
            string_end_eq validEntry.terminated here (by omega)
          have tail := ih (fun other member => valid other (List.mem_cons_of_mem entry member))
            later (Nat.le_of_succ_le_succ enough) (by omega)
          rw [findOld, if_neg (first_byte_ne_zero validEntry.text here), stop,
            envmatch_eq validEntry terminated here, locate]
          by_cases same : key entry = key name
          · simp only [same, if_true]
          · simp only [same, if_false, tail]

theorem getenv_loop_eq {size fuel start : Nat} {entries : List (List UInt8)}
    (valid : ∀ entry ∈ entries, ValidEntry entry) (has : HasBytes mem start (table entries ++ [0]))
    (enough : entries.length ≤ fuel) (room : start + (table entries).length ≤ size) :
    getenvLoop mem size name fuel start =
      (locate (key name) entries start).map OldDef.oldval := by
  induction entries generalizing fuel start with
  | nil =>
      cases fuel with
      | zero => rfl
      | succ fuel => exact if_pos has.1
  | cons entry rest ih =>
      cases fuel with
      | zero => exact absurd enough (Nat.not_succ_le_zero _)
      | succ fuel =>
          have validEntry := valid entry List.mem_cons_self
          obtain ⟨here, later⟩ := table_cons_split has
          simp only [table, List.length_append, List.length_cons] at room
          have stop : boundedEnd mem size (size + 1) start = some (start + entry.length) :=
            bounded_end_eq validEntry.terminated here (by omega) (by omega)
          have tail := ih (fun other member => valid other (List.mem_cons_of_mem entry member))
            later (Nat.le_of_succ_le_succ enough) (by omega)
          rw [getenvLoop, if_neg (first_byte_ne_zero validEntry.text here), stop]
          simp only [envmatch_eq validEntry terminated here, locate]
          by_cases same : key entry = key name
          · simp only [same, if_true, Option.map_some]
          · simp only [same, if_false, tail]

end Search

theorem locate_none {name : List UInt8} {entries : List (List UInt8)} {start : Nat}
    (absent : locate name entries start = none) : ∀ entry ∈ entries, key entry ≠ name := by
  induction entries generalizing start with
  | nil => exact fun entry member => absurd member List.not_mem_nil
  | cons entry rest ih =>
      by_cases same : key entry = name
      · rw [locate, if_pos same] at absent
        contradiction
      · rw [locate, if_neg same] at absent
        exact List.forall_mem_cons.mpr ⟨same, ih absent⟩

theorem locate_some {name : List UInt8} {entries : List (List UInt8)} {start : Nat} {old : OldDef}
    (found : locate name entries start = some old) :
    ∃ before entry after, entries = before ++ entry :: after ∧ key entry = name ∧
      (∀ other ∈ before, key other ≠ name) ∧
      old = ⟨start + (table before).length, start + (table before).length + entry.length,
        start + (table before).length + name.length + 1⟩ := by
  induction entries generalizing start with
  | nil => contradiction
  | cons entry rest ih =>
      by_cases same : key entry = name
      · rw [locate, if_pos same] at found
        injection found with position
        refine ⟨[], entry, rest, rfl, same, fun other member => absurd member List.not_mem_nil, ?_⟩
        rw [← position]
        rfl
      · rw [locate, if_neg same] at found
        obtain ⟨before, target, after, split, named, earlier, position⟩ := ih found
        refine ⟨entry :: before, target, after, by rw [split, List.cons_append], named,
          List.forall_mem_cons.mpr ⟨same, earlier⟩, ?_⟩
        have shift : start + entry.length + 1 + (table before).length =
            start + (table (entry :: before)).length := by
          simp only [table, List.length_append, List.length_cons]
          omega
        rw [position, shift]

theorem lookup_cons (entry : List UInt8) (rest : List (List UInt8)) (name : List UInt8) :
    lookup (entry :: rest) name =
      if key entry = name then some (value entry) else lookup rest name := by
  by_cases same : key entry = name
  · simp [lookup, same]
  · simp [lookup, same]

/-- getenv reads the table. -/
theorem locate_value {mem : Nat → UInt8} {size start : Nat} {entries : List (List UInt8)}
    {name : List UInt8} (valid : ∀ entry ∈ entries, ValidEntry entry)
    (has : HasBytes mem start (table entries ++ [0])) (room : (table entries).length ≤ size) :
    ((locate name entries start).map OldDef.oldval).map (stringAt mem size) =
      lookup entries name := by
  induction entries generalizing start with
  | nil => rfl
  | cons entry rest ih =>
      have validEntry := valid entry List.mem_cons_self
      obtain ⟨here, later⟩ := table_cons_split has
      simp only [table, List.length_append, List.length_cons] at room
      rw [lookup_cons, locate]
      by_cases same : key entry = name
      · have split := entry_split validEntry.assigned
        have length := congrArg List.length split
        simp only [List.length_append, List.length_cons] at length
        have tail : HasBytes mem (start + name.length + 1) (value entry ++ [0]) := by
          rw [split, List.append_assoc, has_bytes_append, same] at here
          exact here.2.2
        have clean : 0 ∉ value entry := fun member => validEntry.terminated (by
          rw [split]
          exact List.mem_append_right _ (List.mem_cons_of_mem _ member))
        simp only [same, if_true, Option.map_some]
        rw [string_at_eq clean tail (by omega)]
      · simp only [same, if_false]
        exact ih (fun other member => valid other (List.mem_cons_of_mem entry member)) later
          (by omega)

end UBoot.Env.EnvTable
