import UBoot.Fdt.FtTree

/-!
What ft_get_prop finds in a flat tree, in terms of the calls that have built it. The path that it
keeps is not the one of the open nodes: at the end of a node the last character goes, and what is
behind the last slash, so that a name with a slash is not taken back as a whole, and a name without
a slash in front of it not at all.
-/

namespace UBoot.Fdt.FtGetProp

open Lib.Strings Library.Memory Library.BigEndian Library.StringTable FtBuild FtBlob FtTree

/-- The path behind a call; none when path or prop has been overrun. -/
def kept (path : List UInt8) : Call → Option (List UInt8)
  | .beginNode name =>
      if (path ++ name.bytes ++ [47]).length ≤ 255 then some (path ++ name.bytes ++ [47]) else none
  | .endNode => closePath path
  | .prop name _ => if (path ++ name.bytes).length ≤ 255 then some path else none

/-- A property with the wanted name at the path. -/
def Answers (wanted path : List UInt8) : Call → Prop
  | .prop name _ => path ++ name.bytes = wanted
  | _ => False

instance (wanted path : List UInt8) : (call : Call) → Decidable (Answers wanted path call)
  | .prop name _ => inferInstanceAs (Decidable (path ++ name.bytes = wanted))
  | .beginNode _ => inferInstanceAs (Decidable False)
  | .endNode => inferInstanceAs (Decidable False)

def callData : Call → List UInt8
  | .prop _ data => data
  | _ => []

/-- The data of the first property with the wanted name at the path that is kept to it. -/
def firstData (wanted : List UInt8) : List UInt8 → List Call → Option (List UInt8)
  | _, [] => none
  | path, call :: rest =>
      match kept path call with
      | none => none
      | some next =>
          if Answers wanted path call then some (callData call) else firstData wanted next rest

section Read
variable (base : Nat) (wanted path : List UInt8) {mem : Nat → UInt8} {names : List (List UInt8)}
  {p pStrings : Nat}

/-- The name of a property is read from the strings. -/
theorem string_read {name : List UInt8} (has : HasBytes mem pStrings (table names))
    (member : name ∈ names) (text : 0 ∉ name) (small : (table names).length < 2 ^ 31) :
    stringAt mem (2 ^ 32) (pStrings + indexIn names name) = name := by
  induction names generalizing pStrings with
  | nil => exact absurd member List.not_mem_nil
  | cons first rest ih =>
      have split : table (first :: rest) = (first ++ [0]) ++ table rest := by
        simp [table]
      rw [split, List.length_append, List.length_append, List.length_singleton] at small
      rw [split, has_bytes_append, List.length_append, List.length_singleton] at has
      rw [indexIn]
      by_cases here : first = name
      · rw [if_pos here, Nat.add_zero]
        rw [here] at has small
        exact string_at_eq text has.1 (by omega)
      · have later : name ∈ rest := (List.mem_cons.mp member).resolve_left fun same => here same.symm
        rw [if_neg here, ← Nat.add_assoc]
        exact ih has.2 later (by omega)

/-- One turn of the loop. -/
theorem get_loop_call {call : Call} (has : HasBytes mem p (encodeCall (indexIn names) call))
    (strings : HasBytes mem pStrings (table names)) (aligned : p % 4 = 0)
    (small : callSize call < 2 ^ 31) (few : (table names).length < 2 ^ 31)
    (named : ∀ name data, call = .prop name data → name.bytes ∈ names) (fuel : Nat) :
    getLoop base mem pStrings 0x10 wanted (fuel + 1) p path =
      match kept path call with
      | none => .overrun
      | some next =>
          if Answers wanted path call then .found (p + 12) (callData call).length
          else getLoop base mem pStrings 0x10 wanted fuel (p + callSize call) next := by
  cases call with
  | beginNode name =>
      obtain ⟨tag, text, next⟩ := begin_read has aligned small
      rw [getLoop, kept]
      simp only [tag, text, next, Answers]
      rw [if_neg (by decide), if_pos trivial]
      by_cases fits : (path ++ name.bytes ++ [47]).length ≤ 255
      · rw [if_pos fits, if_neg (by omega)]
        rfl
      · rw [if_neg fits, if_pos (by omega)]
  | endNode =>
      rw [getLoop, kept]
      simp only [end_read has, Answers]
      rw [if_neg (by decide), if_neg (by decide), if_pos trivial]
      cases closed : closePath path with
      | none => rfl
      | some next => rfl
  | prop name data =>
      have member := named name data rfl
      have inside := index_lt names member
      obtain ⟨tag, size, offset, -, next⟩ := prop_read has aligned small (by omega)
      have text := string_read strings member name.terminated few
      have rounded := align_four data.length
      simp only [callSize] at small
      have positive : toInt data.length = data.length := by
        unfold toInt
        omega
      rw [getLoop, kept]
      have unaligned : ¬ (0x10 < 0x10 ∧ (data.length : Int) ≥ 8) :=
        fun old => absurd old.1 (Nat.lt_irrefl 0x10)
      simp only [tag, size, offset, text, callData, positive]
      rw [if_neg (by decide), if_neg (by decide), if_neg (by decide), if_neg (by decide),
        if_neg (fun differs => differs rfl), if_neg unaligned, next]
      by_cases fits : (path ++ name.bytes).length ≤ 255
      · rw [if_pos fits, if_neg (by omega)]
        rfl
      · rw [if_neg fits, if_pos (by omega)]

theorem get_loop_end (has : HasBytes mem p (wordBytes ofDtEnd)) (fuel : Nat) :
    getLoop base mem pStrings 0x10 wanted (fuel + 1) p path = .null := by
  rw [← List.append_nil (wordBytes ofDtEnd)] at has
  have tag : word mem p = ofDtEnd := word_of_has (by decide) has
  rw [getLoop]
  simp only [tag]
  rfl

/-- The reader finds what the calls have put at the path that is kept to it, and nothing else. -/
theorem get_loop_calls (strings : HasBytes mem pStrings (table names))
    (few : (table names).length < 2 ^ 31) (calls : List Call) : ∀ fuel p path,
    HasBytes mem p (encode (indexIn names) calls ++ wordBytes ofDtEnd) → p % 4 = 0 →
      structSize calls < 2 ^ 31 → calls.length < fuel →
      (∀ name data, Call.prop name data ∈ calls → name.bytes ∈ names) →
        match firstData wanted path calls with
        | some data => ∃ t, getLoop base mem pStrings 0x10 wanted fuel p path =
            .found t data.length ∧ HasBytes mem t data
        | none => ∀ t sz, getLoop base mem pStrings 0x10 wanted fuel p path ≠ .found t sz := by
  induction calls with
  | nil =>
      intro fuel p path has _ _ enough _
      obtain ⟨fuel, rfl⟩ := Nat.exists_eq_add_one.mpr enough
      intro t sz
      rw [get_loop_end base wanted path has]
      exact GetProp.noConfusion
  | cons call rest ih =>
      intro fuel p path has aligned small enough named
      obtain ⟨fuel, rfl⟩ := Nat.exists_eq_add_one.mpr (Nat.zero_lt_of_lt enough)
      have size := encode_call_length (indexIn names) call
      have onWord := call_size_aligned call
      rw [encode_cons, List.append_assoc, has_bytes_append, size] at has
      rw [struct_size_cons] at small
      have turn := get_loop_call base wanted path has.1 strings aligned (by omega) few
        (fun name data same => named name data (by
          rw [same]
          exact List.mem_cons_self)) fuel
      rw [firstData, turn]
      cases kept path call with
      | none =>
          intro t sz
          exact GetProp.noConfusion
      | some next =>
          by_cases answers : Answers wanted path call
          · simp only [if_pos answers]
            refine ⟨p + 12, rfl, ?_⟩
            cases call with
            | beginNode name => exact answers.elim
            | endNode => exact answers.elim
            | prop name data =>
                have inside := index_lt names (named name data List.mem_cons_self)
                exact (prop_read has.1 aligned (by omega) (by omega)).2.2.2.1
          · simp only [if_neg answers]
            exact ih fuel (p + callSize call) next has.2 (by omega) (by omega)
              (Nat.lt_of_succ_lt_succ enough)
              (fun name data member => named name data (List.mem_cons_of_mem call member))

end Read

theorem ft_get_prop_calls {blob : Blob} {calls : List Call} {mem : Nat → UInt8}
    (tree : FlatTree blob calls mem) (fits : treeSize blob calls ≤ blob.maxSize)
    (wanted : List UInt8) :
    match firstData wanted [] calls with
    | some data => ∃ t, ftGetProp blob.base mem wanted = .found t data.length ∧ HasBytes mem t data
    | none => ∀ t sz, ftGetProp blob.base mem wanted ≠ .found t sz := by
  have small := blob.small
  have count := calls_le_struct calls
  have parts : anchor blob + structSize calls + 4 + (table (namesOf calls)).length =
      treeSize blob calls := rfl
  rw [ftGetProp, tree.version]
  exact get_loop_calls blob.base wanted tree.strings (by omega) calls (2 ^ 30) _ [] tree.body
    tree.onWord (by omega) (by omega) (fun _ _ member => member_name calls [] member)

end UBoot.Fdt.FtGetProp
