import UBoot.Env.EnvEdit
import UBoot.Library.Runs

/-!
_do_setenv as an operation on the table of entries, and the laws that follow:
the environment is a finite map, and no sequence of operations damages the
block or stores past its end.
-/

namespace UBoot.Env.Setenv

open Lib.Crc32 Lib.Strings Library.Memory Library.Runs Library.StringTable
open Nvedit EnvTable EnvEdit

/-- The data area holds exactly these entries: `name=value` strings, each with its NUL, one more
NUL behind the last, inside ENV_SIZE bytes, and no two with the same name. -/
structure HoldsTable (cfg : EnvConfig) (data : Buffer UInt8) (entries : List (List UInt8)) :
    Prop where
  holds : HasBytes data.mem 0 (block entries)
  fits : (block entries).length ≤ cfg.envSize
  valid : ∀ entry ∈ entries, ValidEntry entry
  distinct : (entries.map key).Nodup

def WellFormed (cfg : EnvConfig) (data : Buffer UInt8) : Prop :=
  ∃ entries, HoldsTable cfg data entries

def CrcMatches (cfg : EnvConfig) (state : EnvState) : Prop :=
  state.crc = crc32 0 (slice state.data.mem 0 cfg.envSize)

def without (entries : List (List UInt8)) (name : List UInt8) : List (List UInt8) :=
  entries.filter fun entry => key entry != name

section Table
variable {cfg : EnvConfig} {data : Buffer UInt8} {entries : List (List UInt8)}

theorem HoldsTable.texts (table : HoldsTable cfg data entries) : ∀ entry ∈ entries, Text entry :=
  fun entry member => (table.valid entry member).text

theorem env_size_le (cfg : EnvConfig) : cfg.envSize ≤ cfg.cfgEnvSize := Nat.sub_le _ _

theorem table_length_ge (entries : List (List UInt8)) :
    entries.length ≤ (table entries).length := by
  induction entries with
  | nil => exact Nat.le_refl 0
  | cons entry rest ih =>
      simp only [table, List.length_cons, List.length_append]
      omega

theorem table_lt_block (entries : List (List UInt8)) :
    (table entries).length < (block entries).length := by
  cases entries with
  | nil => decide
  | cons entry rest =>
      rw [block_length_of_ne_nil (List.cons_ne_nil entry rest)]
      exact Nat.lt_succ_self _

/-- getenv reads the map that the table stands for. -/
theorem getenv_string_eq {state : EnvState} (table : HoldsTable cfg state.data entries)
    (name : CString) : getenvString cfg state name = lookup entries (key name.bytes) := by
  have size := env_size_le cfg
  have fits := table.fits
  have count := table_length_ge entries
  have room := table_lt_block entries
  have has := has_table_of_block table.holds
  rw [getenvString, getenv, getenv_loop_eq name.terminated table.valid has (by omega) (by omega)]
  exact locate_value table.valid has (by omega)

theorem find_old_locate (table : HoldsTable cfg data entries) (name : CString) :
    findOld data.mem cfg.cfgEnvSize name.bytes cfg.cfgEnvSize 0 =
      locate (key name.bytes) entries 0 := by
  have size := env_size_le cfg
  have fits := table.fits
  have count := table_length_ge entries
  have room := table_lt_block entries
  exact find_old_eq name.terminated table.valid (has_table_of_block table.holds) (by omega)
    (by omega)

theorem without_absent {name : List UInt8} (absent : ∀ entry ∈ entries, key entry ≠ name) :
    without entries name = entries :=
  List.filter_eq_self.mpr fun entry member => by simpa using absent entry member

theorem without_split {before after : List (List UInt8)} {entry : List UInt8}
    {name : List UInt8} (distinct : ((before ++ entry :: after).map key).Nodup)
    (named : key entry = name) : without (before ++ entry :: after) name = before ++ after := by
  rw [List.map_append, List.map_cons, List.nodup_append] at distinct
  obtain ⟨_, later, apart⟩ := distinct
  have earlierOther : ∀ other ∈ before, key other ≠ name := fun other member same =>
    apart (key other) (List.mem_map_of_mem member) (key entry) List.mem_cons_self
      (same.trans named.symm)
  have laterOther : ∀ other ∈ after, key other ≠ name := fun other member same =>
    (List.nodup_cons.mp later).1 (by
      rw [named, ← same]
      exact List.mem_map_of_mem member)
  have front : without before name = before := without_absent earlierOther
  have back : without after name = after := without_absent laterOther
  unfold without at front back ⊢
  rw [List.filter_append, front, List.filter_cons_of_neg (by simp [named]), back]

theorem without_no_name (entries : List (List UInt8)) (name : List UInt8) :
    ∀ entry ∈ without entries name, key entry ≠ name := by
  intro entry member
  simpa using (List.mem_filter.mp member).2

theorem lookup_without_same (entries : List (List UInt8)) (name : List UInt8) :
    lookup (without entries name) name = none := by
  have absent : (without entries name).find? (fun entry => key entry == name) = none :=
    List.find?_eq_none.mpr fun entry member => by simpa using without_no_name entries name entry member
  rw [lookup, absent]
  rfl

theorem lookup_without_other (entries : List (List UInt8)) {name other : List UInt8}
    (differs : other ≠ name) : lookup (without entries name) other = lookup entries other := by
  induction entries with
  | nil => rfl
  | cons entry rest ih =>
      by_cases dropped : key entry = name
      · have next : without (entry :: rest) name = without rest name :=
          List.filter_cons_of_neg (by simp [dropped])
        have notFound : key entry ≠ other := fun same => differs (same.symm.trans dropped)
        rw [next, ih, lookup_cons, if_neg notFound]
      · have next : without (entry :: rest) name = entry :: without rest name :=
          List.filter_cons_of_pos (by simpa using dropped)
        rw [next, lookup_cons, lookup_cons, ih]

theorem lookup_append_other (entries : List (List UInt8)) (entry : List UInt8)
    {other : List UInt8} (differs : key entry ≠ other) :
    lookup (entries ++ [entry]) other = lookup entries other := by
  induction entries with
  | nil => rw [List.nil_append, lookup_cons, if_neg differs]
  | cons first rest ih => rw [List.cons_append, lookup_cons, lookup_cons, ih]

theorem lookup_append_new (entries : List (List UInt8)) (entry : List UInt8)
    (absent : ∀ other ∈ entries, key other ≠ key entry) :
    lookup (entries ++ [entry]) (key entry) = some (value entry) := by
  induction entries with
  | nil => rw [List.nil_append, lookup_cons, if_pos rfl]
  | cons first rest ih =>
      rw [List.cons_append, lookup_cons, if_neg (absent first List.mem_cons_self),
        ih fun other member => absent other (List.mem_cons_of_mem first member)]

theorem new_entry_valid (name value : CString) (more : List CString) :
    ValidEntry (newEntry name.bytes (value :: more)) := by
  have wordsClean : ∀ separator : UInt8, separator ≠ 0 → ∀ words,
      0 ∉ joinWords separator words := by
    intro separator nonzero words
    induction words generalizing separator with
    | nil => exact List.not_mem_nil
    | cons word rest ih =>
        simp only [joinWords, List.mem_cons, List.mem_append, not_or]
        exact ⟨Ne.symm nonzero, word.terminated, ih 32 (by decide)⟩
  refine ⟨?_, List.mem_append_right _ List.mem_cons_self⟩
  simp only [newEntry, List.mem_append, not_or]
  exact ⟨name.terminated, wordsClean 61 (by decide) _⟩

theorem new_entry_key (name : List UInt8) (value : CString) (more : List CString) :
    key (newEntry name (value :: more)) = key name := key_append name _

/-- The words joined by single spaces. -/
theorem new_entry_value {name : List UInt8} (plain : 61 ∉ name) (first : CString)
    (more : List CString) : value (newEntry name (first :: more)) =
      List.intercalate [32] ((first :: more).map CString.bytes) := by
  have joined : ∀ word words, word.bytes ++ joinWords 32 words =
      List.intercalate [32] ((word :: words).map CString.bytes) := by
    intro word words
    induction words generalizing word with
    | nil => simp [joinWords, List.intercalate]
    | cons next rest ih =>
        have tail := ih next
        simp only [List.map_cons, List.intercalate, List.intersperse] at tail ⊢
        simp only [joinWords, List.flatten_cons]
        rw [tail]
        simp
  rw [newEntry, joinWords, value_append plain]
  exact joined first more

end Table

section Operation
variable {cfg : EnvConfig} {state : EnvState} {entries : List (List UInt8)}

/-- The definition that setenv appends does not fit behind the entries that are kept. -/
def Overflows (cfg : EnvConfig) (entries : List (List UInt8)) (name : List UInt8)
    (words : List CString) : Prop :=
  cfg.envSize < (table (without entries (key name))).length + newLength name words

/-- What the tail of _do_setenv does to a table that has no entry with the name. -/
theorem setenv_tail_cases (table : HoldsTable cfg state.data entries) (name : CString)
    (absent : ∀ entry ∈ entries, key entry ≠ key name.bytes) (values : Values) :
    (values.argv2 = none ∧ (setenvTail cfg state name values).rcode = 0 ∧
      (setenvTail cfg state name values).state.data = state.data ∧
      CrcMatches cfg (setenvTail cfg state name values).state) ∨
    (∃ first more, values = .words (first :: more) ∧
      Overflows cfg entries name.bytes (first :: more) ∧
      (setenvTail cfg state name values).rcode = 1 ∧
      (setenvTail cfg state name values).state.data = state.data ∧
      (setenvTail cfg state name values).state.crc = state.crc) ∨
    (∃ first more, values = .words (first :: more) ∧
      ¬ Overflows cfg entries name.bytes (first :: more) ∧
      (setenvTail cfg state name values).rcode = 0 ∧
      HoldsTable cfg (setenvTail cfg state name values).state.data
        (entries ++ [newEntry name.bytes (first :: more)]) ∧
      StoresWithin state.data (setenvTail cfg state name values).state.data 0 cfg.envSize ∧
      CrcMatches cfg (setenvTail cfg state name values).state) := by
  -- The old entry is gone already.
  have kept : without entries (key name.bytes) = entries := without_absent absent
  cases values with
  | null => exact Or.inl ⟨rfl, rfl, rfl, rfl⟩
  | words list =>
      cases list with
      | nil => exact Or.inl ⟨rfl, rfl, rfl, rfl⟩
      | cons first more =>
          have size := env_size_le cfg
          have room : (block entries).length ≤ cfg.cfgEnvSize := table.fits.trans size
          rcases append_new_eq table.texts table.holds room name.bytes (first :: more) with
            ⟨overflow, appended⟩ | ⟨after, appended, fitting, holds, within⟩
          · right
            left
            refine ⟨first, more, rfl, ?_, ?_⟩
            · rw [Overflows, kept]
              exact overflow
            · simp only [setenvTail, appended, and_self]
          · right
            right
            refine ⟨first, more, rfl, ?_, ?_⟩
            · rw [Overflows, kept]
              omega
            · have valid := new_entry_valid name first more
              have named := new_entry_key name.bytes first more
              have length := new_length_eq name.bytes (first :: more)
              simp only [setenvTail, appended]
              refine ⟨trivial, ⟨holds, ?_, ?_, ?_⟩, within, rfl⟩
              · rw [block_length_of_ne_nil (by simp), table_append]
                simp only [Library.StringTable.table, List.length_append, List.length_cons,
                  List.length_nil]
                omega
              · intro entry member
                rcases List.mem_append.mp member with old | new
                · exact table.valid entry old
                · rw [List.mem_singleton.mp new]
                  exact valid
              · rw [List.map_append, List.map_cons, List.map_nil, named]
                refine List.nodup_append.mpr ⟨table.distinct, List.nodup_singleton _, ?_⟩
                intro old oldMember new newMember same
                obtain ⟨entry, member, rfl⟩ := List.mem_map.mp oldMember
                exact absent entry member (same.trans (List.mem_singleton.mp newMember))

/-- The state after an existing definition has been deleted. -/
theorem deleted_table (table : HoldsTable cfg state.data entries) {name : List UInt8} {old : OldDef}
    (found : locate name entries 0 = some old) :
    HoldsTable cfg (deleteOld cfg.cfgEnvSize state.data old) (without entries name) ∧
      StoresWithin state.data (deleteOld cfg.cfgEnvSize state.data old) 0 cfg.envSize ∧
      ∃ entry ∈ entries, key entry = name := by
  obtain ⟨before, entry, after, split, named, _, position⟩ := locate_some found
  subst split
  have size := env_size_le cfg
  have fits := table.fits
  have length := table_cons_length before entry after
  have total := table_lt_block (before ++ entry :: after)
  have kept := without_split table.distinct named
  rw [Nat.zero_add] at position
  obtain ⟨holds, within⟩ := delete_old_eq cfg.cfgEnvSize
    ((Library.StringTable.table before).length + name.length + 1) table.texts table.holds
    (by omega)
  rw [position, kept]
  refine ⟨⟨holds, ?_, ?_, ?_⟩, stores_widen within (Nat.le_refl 0) fits,
    entry, List.mem_append_right before List.mem_cons_self, named⟩
  · have entryLength := List.length_pos_of_ne_nil (table.texts entry
      (List.mem_append_right before List.mem_cons_self)).nonempty
    have whole := block_length_of_ne_nil (show before ++ entry :: after ≠ [] by simp)
    by_cases empty : before ++ after = []
    · rw [empty]
      have two : (block ([] : List (List UInt8))).length = 2 := rfl
      omega
    · rw [block_length_of_ne_nil empty, table_append, List.length_append]
      omega
  · exact fun other member => table.valid other (by
      rcases List.mem_append.mp member with front | back
      · exact List.mem_append_left _ front
      · exact List.mem_append_right _ (List.mem_cons_of_mem entry back))
  · have shorter : (before ++ after).Sublist (before ++ entry :: after) :=
      List.Sublist.append_left (List.sublist_cons_self entry after) before
    exact table.distinct.sublist (shorter.map key)

/-- All that setenv can do. -/
theorem do_setenv_cases (table : HoldsTable cfg state.data entries) {name : CString}
    {values : Values} {result : SetenvResult}
    (done : doSetenv cfg state name values = some result) :
    (result = ⟨1, state⟩ ∧ checkOld cfg state.globals name.bytes values = .refuse ∧
      ∃ entry ∈ entries, key entry = key name.bytes) ∨
    (values.argv2 = none ∧ result.rcode = 0 ∧
      HoldsTable cfg result.state.data (without entries (key name.bytes)) ∧
      StoresWithin state.data result.state.data 0 cfg.envSize ∧ CrcMatches cfg result.state) ∨
    (∃ first more, values = .words (first :: more) ∧
      Overflows cfg entries name.bytes (first :: more) ∧ result.rcode = 1 ∧
      HoldsTable cfg result.state.data (without entries (key name.bytes)) ∧
      StoresWithin state.data result.state.data 0 cfg.envSize ∧
      result.state.crc = state.crc ∧ (result.state.data = state.data ∨
        (∃ entry ∈ entries, key entry = key name.bytes) ∧
          ∃ globals, checkOld cfg state.globals name.bytes values = .proceed globals)) ∨
    (∃ first more, values = .words (first :: more) ∧
      ¬ Overflows cfg entries name.bytes (first :: more) ∧ result.rcode = 0 ∧
      HoldsTable cfg result.state.data
        (without entries (key name.bytes) ++ [newEntry name.bytes (first :: more)]) ∧
      StoresWithin state.data result.state.data 0 cfg.envSize ∧ CrcMatches cfg result.state) := by
  rw [doSetenv, find_old_locate table] at done
  -- No old entry: the tail works on the table as it is.
  split at done
  · rename_i missing
    have absent := locate_none missing
    have kept : without entries (key name.bytes) = entries := without_absent absent
    injection done with same
    rw [← same, kept]
    rcases setenv_tail_cases table name absent values with
      ⟨none, rcode, data, crc⟩ | ⟨first, more, shape, excess, rcode, data, crc⟩ |
      ⟨first, more, shape, fits, rcode, holds, within, crc⟩
    · refine Or.inr (Or.inl ⟨none, rcode, ?_, ?_, crc⟩)
      · rw [data]
        exact table
      · rw [data]
        exact stores_none _ _ _
    · refine Or.inr (Or.inr (Or.inl ⟨first, more, shape, excess, rcode, ?_, ?_, crc, Or.inl data⟩))
      · rw [data]
        exact table
      · rw [data]
        exact stores_none _ _ _
    · exact Or.inr (Or.inr (Or.inr ⟨first, more, shape, fits, rcode, holds, within, crc⟩))
  -- An old entry is checked, and deleted before the tail.
  · rename_i old found
    obtain ⟨deletedTable, within, entry, member, named⟩ := deleted_table table found
    have absent := without_no_name entries (key name.bytes)
    have again : without (without entries (key name.bytes)) (key name.bytes) =
        without entries (key name.bytes) := without_absent absent
    split at done
    · rename_i refused
      injection done with same
      exact Or.inl ⟨same.symm, refused, entry, member, named⟩
    · contradiction
    · rename_i globals checked
      injection done with same
      rw [← same]
      have tail := @setenv_tail_cases cfg
        ⟨deleteOld cfg.cfgEnvSize state.data old, state.crc, globals⟩ _ deletedTable name absent
        values
      rcases tail with
        ⟨none, rcode, data, crc⟩ | ⟨first, more, shape, excess, rcode, data, crc⟩ |
        ⟨first, more, shape, fits, rcode, holds, tailWithin, crc⟩
      · refine Or.inr (Or.inl ⟨none, rcode, ?_, ?_, crc⟩)
        · rw [data]
          exact deletedTable
        · rw [data]
          exact within
      · rw [Overflows, again] at excess
        refine Or.inr (Or.inr (Or.inl ⟨first, more, shape, excess, rcode, ?_, ?_, crc,
          Or.inr ⟨⟨entry, member, named⟩, globals, checked⟩⟩))
        · rw [data]
          exact deletedTable
        · rw [data]
          exact within
      · rw [Overflows, again] at fits
        exact Or.inr (Or.inr (Or.inr ⟨first, more, shape, fits, rcode, holds,
          stores_trans within tailWithin, crc⟩))

end Operation

section Map
variable {cfg : EnvConfig} {state : EnvState}

/-- Without a value, setenv refuses only to delete a console variable. -/
theorem check_old_refuse {globals : Globals} {name : List UInt8} {values : Values}
    (writable : writeProtected name = false) (unset : values.argv2 = none)
    (refused : checkOld cfg globals name values = .refuse) : consoleOf name ≠ none := by
  intro plain
  unfold checkOld checkBaudrate at refused
  simp only [writable, plain, unset, Bool.false_eq_true, if_false] at refused
  split at refused
  · contradiction
  · contradiction

/-- Only `baudrate` without a value makes setenv read a NULL string. -/
theorem do_setenv_returns (name : CString) (values : Values)
    (supplied : name.bytes = ascii "baudrate" → values.argv2 ≠ none) :
    ∃ result, doSetenv cfg state name values = some result := by
  have checked : checkBaudrate cfg state.globals name.bytes values ≠ .fault := by
    unfold checkBaudrate
    split
    · rename_i named
      cases text : values.argv2 with
      | none => exact absurd text (supplied named)
      | some text =>
          simp only
          split <;> simp
    · simp
  have noFault : checkOld cfg state.globals name.bytes values ≠ .fault := by
    unfold checkOld
    split
    · simp
    · split
      · simp
      · split
        · simp
        · exact checked
      · exact checked
  unfold doSetenv
  split
  · exact ⟨_, rfl⟩
  · cases check : checkOld cfg state.globals name.bytes values with
    | refuse => exact ⟨_, rfl⟩
    | fault => exact absurd check noFault
    | proceed globals => exact ⟨_, rfl⟩

end Map

def noGlobals : Globals := ⟨0, [], 0, 0, [], []⟩

/-- A data area that is zero behind its entries. -/
def filled (entries : List (List UInt8)) : Buffer UInt8 := ⟨fun i => (block entries).getD i 0, 0⟩

theorem filled_holds (cfg : EnvConfig) (entries : List (List UInt8))
    (fits : (block entries).length ≤ cfg.envSize) (valid : ∀ entry ∈ entries, ValidEntry entry)
    (distinct : (entries.map key).Nodup) : HoldsTable cfg (filled entries) entries :=
  ⟨has_bytes_getD [] (block entries) 0, fits, valid, distinct⟩

def smallConfig : EnvConfig := ⟨64, false, [9600, 115200], fun _ _ => 0⟩

/-- An environment that holds `stdin=serial` only. -/
def stdinSerial : EnvState := ⟨filled [ascii "stdin=serial"], 0, noGlobals⟩

theorem stdin_serial_well_formed : WellFormed smallConfig stdinSerial.data := by
  refine ⟨_, filled_holds smallConfig [ascii "stdin=serial"] (by decide) ?_ (by decide)⟩
  intro entry member
  rw [List.mem_singleton.mp member]
  exact ⟨by decide, by decide⟩

section Runs
variable {cfg : EnvConfig}

structure SetenvCall where
  name : CString
  values : Values

def setenvStep (cfg : EnvConfig) (state : EnvState) (call : SetenvCall) (after : EnvState) : Prop :=
  ∃ result, doSetenv cfg state call.name call.values = some result ∧ result.state = after

/-- One setenv keeps the block well-formed and stores inside ENV_SIZE only. -/
theorem setenv_step_well_formed {state after : EnvState} {call : SetenvCall}
    (wellFormed : WellFormed cfg state.data) (step : setenvStep cfg state call after) :
    WellFormed cfg after.data ∧ StoresWithin state.data after.data 0 cfg.envSize := by
  obtain ⟨entries, table⟩ := wellFormed
  obtain ⟨result, done, rfl⟩ := step
  rcases do_setenv_cases table done with
    ⟨same, _⟩ | ⟨_, _, kept, within, _⟩ | ⟨_, _, _, _, _, kept, within, _⟩ |
    ⟨_, _, _, _, _, kept, within, _⟩
  · rw [same]
    exact ⟨⟨entries, table⟩, stores_none _ _ _⟩
  · exact ⟨⟨_, kept⟩, within⟩
  · exact ⟨⟨_, kept⟩, within⟩
  · exact ⟨⟨_, kept⟩, within⟩

/-- No sequence of setenv operations damages the block or stores past its end. -/
theorem setenv_run_well_formed {before after : EnvState} {calls : List SetenvCall}
    (run : Run (setenvStep cfg) before calls after) (wellFormed : WellFormed cfg before.data)
    (inside : before.data.limit ≤ cfg.envSize) :
    WellFormed cfg after.data ∧ after.data.limit ≤ cfg.envSize := by
  refine run_preserves (setenvStep cfg)
    (fun state => WellFormed cfg state.data ∧ state.data.limit ≤ cfg.envSize) ?_ run
    ⟨wellFormed, inside⟩
  rintro state call next ⟨formed, low⟩ step
  obtain ⟨kept, within⟩ := setenv_step_well_formed formed step
  have limit := within.limit
  exact ⟨kept, by omega⟩

/-- The state after `setenv a b`. -/
def afterSetenvA : EnvState :=
  (setenvTail smallConfig stdinSerial ⟨ascii "a", by decide⟩
    (.words [⟨ascii "b", by decide⟩])).state

theorem setenv_small_run :
    WellFormed smallConfig afterSetenvA.data ∧ afterSetenvA.data.limit ≤ smallConfig.envSize := by
  have run : Run (setenvStep smallConfig) stdinSerial
      [⟨⟨ascii "a", by decide⟩, .words [⟨ascii "b", by decide⟩]⟩] afterSetenvA :=
    Run.next ⟨_, rfl, rfl⟩ (Run.refl _)
  exact setenv_run_well_formed run stdin_serial_well_formed (by decide)

end Runs

end UBoot.Env.Setenv
