import UBoot.Mtd.PartLists

/-!
The text of the mtdparts variable: memsize_parse, part_parse and the parts of device_parse and
parse_mtdparts that read it, from common/cmd_jffs2.c, and what they make of a text that
generate_mtdparts wrote. Memory for the partitions never runs out.
-/

namespace UBoot.Mtd.PartText

open Lib.Strings MtdParts PartLists

/-! ### The readers -/

def memsizeParse (ptr : List UInt8) : Strtoul :=
  let parsed := simpleStrtoul ptr 0
  match parsed.rest with
  | [] => parsed
  | c :: rest =>
      -- each case falls through to the next
      if c = 71 ∨ c = 103 then ⟨parsed.value * 2 ^ 30 % 2 ^ 32, rest⟩
      else if c = 77 ∨ c = 109 then ⟨parsed.value * 2 ^ 20 % 2 ^ 32, rest⟩
      else if c = 75 ∨ c = 107 then ⟨parsed.value * 2 ^ 10 % 2 ^ 32, rest⟩
      else parsed

def minPartSize : UInt32 := 4096

def parseSize (p : List UInt8) : Option (UInt32 × List UInt8) :=
  match p with
  | 45 :: rest => some (sizeRemaining, rest)
  | p =>
      let parsed := memsizeParse p
      let size := UInt32.ofNat parsed.value
      if size < minPartSize then none else some (size, parsed.rest)

def parseOffset (p : List UInt8) : UInt32 × List UInt8 :=
  match p with
  | 64 :: rest => (UInt32.ofNat (memsizeParse rest).value, (memsizeParse rest).rest)
  | p => (offsetNotSpecified, p)

/-- "%08lx". -/
def hex08 (n : UInt32) : List UInt8 :=
  ((Nat.toDigits 16 n.toNat).map fun c => UInt8.ofNat c.toNat).leftpad 8 48

/-- The name, auto_name and what is left. -/
def parseName (size offset : UInt32) (p : List UInt8) : Option (List UInt8 × UInt8 × List UInt8) :=
  match p with
  | 40 :: rest =>
      match cutAt 41 rest with
      | none => none
      | some (name, rest) => if name = [] then none else some (name, 0, rest)
  | p => some (ascii "0x" ++ hex08 size ++ ascii "@0x" ++ hex08 offset, 1, p)

/-- MTD_WRITEABLE_CMD where the text says "ro". -/
def parseFlags (p : List UInt8) : UInt32 × List UInt8 :=
  match p with
  | 114 :: 111 :: rest => (1, rest)
  | p => (0, p)

/-- The next definition, or the end of the device. -/
def parseNext (size : UInt32) (p : List UInt8) : Option (List UInt8) :=
  match p with
  | [] => some []
  | 44 :: rest => if size = sizeRemaining then none else some rest
  | 59 :: rest => some (59 :: rest)
  | _ => none

def partParse (p : List UInt8) : Option (PartInfo × List UInt8) := do
  let (size, p) ← parseSize p
  let (offset, p) := parseOffset p
  let (name, autoName, p) ← parseName size offset p
  let (maskFlags, p) := parseFlags p
  let rest ← parseNext size p
  return (⟨name, autoName, size, offset, maskFlags⟩, rest)

/-- The definitions of a device. Each takes a character at least. -/
def partDefs : (fuel : Nat) → List UInt8 → Option (List PartInfo × List UInt8)
  | _, [] => some ([], [])
  | _, 59 :: rest => some ([], 59 :: rest)
  | 0, _ => none
  | fuel + 1, p => do
      let (part, p) ← partParse p
      let (parts, rest) ← partDefs fuel p
      return (part :: parts, rest)

def idFindByMtdId (mtdids : List MtdIds) (mtdId : List UInt8) : Option MtdIds :=
  mtdids.find? fun id => id.mtdId = mtdId

/-- What device_parse takes from the text: the id, the definitions and where the next device is. -/
def deviceText (mtdids : List MtdIds) (p : List UInt8) :
    Option (MtdIds × List PartInfo × List UInt8) := do
  let (mtdId, p) ← cutAt 58 p
  let id ← idFindByMtdId mtdids mtdId
  let (defs, p) ← partDefs p.length p
  return (id, defs, p.drop 1)

def deviceTexts (mtdids : List MtdIds) : (fuel : Nat) → List UInt8 →
    Option (List (MtdIds × List PartInfo))
  | _, [] => some []
  | 0, _ => none
  | fuel + 1, p => do
      let (id, defs, p) ← deviceText mtdids p
      let later ← deviceTexts mtdids fuel p
      return (id, defs) :: later

/-- parse_mtdparts up to the devices. -/
def mtdpartsDevices (mtdids : List MtdIds) (text : List UInt8) :
    Option (List (MtdIds × List PartInfo)) :=
  if ascii "mtdparts=" <+: text then deviceTexts mtdids (text.drop 9).length (text.drop 9) else none

/-! ### The fuel is enough -/

theorem strtoul_loop_rest (base : Nat) (cp : List UInt8) (result : Nat) :
    (strtoulLoop base cp result).rest.length < cp.length ∨
      strtoulLoop base cp result = ⟨result, cp⟩ := by
  induction cp generalizing result with
  | nil => exact .inr rfl
  | cons c rest inductive_hypothesis =>
      rw [strtoulLoop]
      split
      · refine .inl ?_
        rcases inductive_hypothesis ((result * base + digitValue c) % 2 ^ 32) with shorter | same
        · exact Nat.lt_succ_of_lt shorter
        · rw [same]
          exact Nat.lt_succ_self _
      · exact .inr rfl

theorem strtoul_rest (p : List UInt8) (base : Nat) :
    (simpleStrtoul p base).rest.length < p.length ∨ simpleStrtoul p base = ⟨0, p⟩ := by
  have behind (base : Nat) (front rest : List UInt8) (some_front : front ≠ []) :
      (strtoulLoop base rest 0).rest.length < (front ++ rest).length := by
    have := List.length_pos_iff.mpr some_front
    rw [List.length_append]
    rcases strtoul_loop_rest base rest 0 with shorter | same
    · omega
    · rw [same]
      dsimp only
      omega
  unfold simpleStrtoul
  split
  · rename_i c rest
    split
    · exact .inl (behind _ [48, 120] (c :: rest) (by decide))
    · exact .inl (behind _ [48] (120 :: c :: rest) (by decide))
  · rename_i rest _
    exact .inl (behind _ [48] rest (by decide))
  · exact strtoul_loop_rest _ p 0

theorem memsize_rest (p : List UInt8) :
    (memsizeParse p).rest.length ≤ p.length ∧
      ((memsizeParse p).value ≠ 0 → (memsizeParse p).rest.length < p.length) := by
  have number := strtoul_rest p 0
  have number_le : (simpleStrtoul p 0).rest.length ≤ p.length := by
    rcases number with shorter | same
    · exact Nat.le_of_lt shorter
    · rw [same]
  have plain (some_value : (simpleStrtoul p 0).value ≠ 0) :
      (simpleStrtoul p 0).rest.length < p.length := by
    rcases number with shorter | same
    · exact shorter
    · rw [same] at some_value
      exact absurd rfl some_value
  unfold memsizeParse
  dsimp only
  split
  · exact ⟨number_le, plain⟩
  · rename_i c rest behind
    have letter : rest.length < p.length := by
      rw [behind, List.length_cons] at number_le
      exact number_le
    split
    · exact ⟨Nat.le_of_lt letter, fun _ => letter⟩
    · split
      · exact ⟨Nat.le_of_lt letter, fun _ => letter⟩
      · split
        · exact ⟨Nat.le_of_lt letter, fun _ => letter⟩
        · exact ⟨number_le, plain⟩

theorem size_shorter {p rest : List UInt8} {size : UInt32}
    (read : parseSize p = some (size, rest)) : rest.length < p.length := by
  unfold parseSize at read
  split at read
  · cases read
    exact Nat.lt_succ_self _
  · dsimp only at read
    split at read
    · cases read
    · rename_i large
      cases read
      refine (memsize_rest _).2 fun zero => large ?_
      rw [zero]
      decide

theorem offset_rest (p : List UInt8) : (parseOffset p).2.length ≤ p.length := by
  unfold parseOffset
  split
  · exact Nat.le_succ_of_le (memsize_rest _).1
  · exact Nat.le_refl _

theorem name_rest {size offset : UInt32} {p name rest : List UInt8} {autoName : UInt8}
    (read : parseName size offset p = some (name, autoName, rest)) : rest.length ≤ p.length := by
  unfold parseName at read
  split at read
  · split at read
    · cases read
    · rename_i cut
      split at read
      · cases read
      · cases read
        exact Nat.le_succ_of_le (Nat.le_of_lt (cut_shorter cut))
  · cases read
    exact Nat.le_refl _

theorem flags_rest (p : List UInt8) : (parseFlags p).2.length ≤ p.length := by
  unfold parseFlags
  split
  · exact Nat.le_add_right _ 2
  · exact Nat.le_refl _

theorem next_rest {size : UInt32} {p rest : List UInt8} (read : parseNext size p = some rest) :
    rest.length ≤ p.length := by
  unfold parseNext at read
  split at read
  · cases read
    exact Nat.le_refl _
  · split at read
    · cases read
    · cases read
      exact Nat.le_succ _
  · cases read
    exact Nat.le_refl _
  · cases read

/-- A definition takes a character at least. -/
theorem part_shorter {p rest : List UInt8} {part : PartInfo}
    (read : partParse p = some (part, rest)) : rest.length < p.length := by
  obtain ⟨⟨size, behind_size⟩, size_read, read⟩ := Option.bind_eq_some_iff.mp read
  obtain ⟨⟨name, autoName, behind_name⟩, name_read, read⟩ := Option.bind_eq_some_iff.mp read
  obtain ⟨last, next_read, read⟩ := Option.bind_eq_some_iff.mp read
  cases read
  have at_size := size_shorter size_read
  have at_offset := offset_rest behind_size
  have at_name : behind_name.length ≤ (parseOffset behind_size).2.length := name_rest name_read
  have at_flags := flags_rest behind_name
  have at_next : rest.length ≤ (parseFlags behind_name).2.length := next_rest next_read
  omega

theorem part_defs_step (fuel : Nat) {c : UInt8} (more : c ≠ 59) (rest : List UInt8) :
    partDefs (fuel + 1) (c :: rest) =
      (partParse (c :: rest)).bind fun read =>
        (partDefs fuel read.2).map fun later => (read.1 :: later.1, later.2) := by
  rw [partDefs]
  · cases partParse (c :: rest) with
    | none => rfl
    | some read =>
        obtain ⟨part, p⟩ := read
        rw [Option.bind_eq_bind, Option.bind_some, Option.bind_some]
        dsimp only
        cases partDefs fuel p <;> rfl
  · exact fun same => List.cons_ne_nil c rest same
  · exact fun p same => more (List.cons_eq_cons.mp same).1

/-- The end of a device. -/
theorem part_defs_end (fuel : Nat) {tail : List UInt8} (closes : ∀ c ∈ tail.head?, c = 59) :
    partDefs fuel tail = some ([], tail) := by
  cases tail with
  | nil => cases fuel <;> rfl
  | cons c rest =>
      rw [closes c rfl]
      cases fuel <;> rfl

/-- Fuel for each character is enough, and more changes nothing. -/
theorem part_defs_enough {p : List UInt8} {one other : Nat} (enough : p.length ≤ one)
    (also : p.length ≤ other) : partDefs one p = partDefs other p := by
  induction one generalizing other p with
  | zero =>
      rw [List.length_eq_zero_iff.mp (Nat.le_zero.mp enough)]
      cases other <;> rfl
  | succ one inductive_hypothesis =>
      cases p with
      | nil => cases other <;> rfl
      | cons c rest =>
          by_cases ended : c = 59
          · rw [ended]
            cases other <;> rfl
          · obtain ⟨other, rfl⟩ := Nat.exists_eq_succ_of_ne_zero
              (Nat.ne_of_gt (Nat.lt_of_lt_of_le (Nat.succ_pos rest.length) also))
            rw [part_defs_step one ended, part_defs_step other ended]
            refine Option.bind_congr fun read parsed => ?_
            have shorter : read.2.length < rest.length + 1 := part_shorter parsed
            rw [List.length_cons] at enough also
            exact congrArg _ (inductive_hypothesis (by omega) (by omega))

theorem part_defs_rest {p rest : List UInt8} {fuel : Nat} {defs : List PartInfo}
    (read : partDefs fuel p = some (defs, rest)) : rest.length ≤ p.length := by
  induction fuel generalizing p defs with
  | zero =>
      unfold partDefs at read
      split at read
      · cases read
        exact Nat.le_refl _
      · cases read
        exact Nat.le_refl _
      · cases read
      · rename_i impossible _ _
        cases impossible
  | succ fuel inductive_hypothesis =>
      cases p with
      | nil =>
          cases read
          exact Nat.le_refl _
      | cons c p =>
          by_cases ended : c = 59
          · rw [ended] at read
            cases read
            exact Nat.le_refl _
          · rw [part_defs_step fuel ended] at read
            obtain ⟨⟨part, behind⟩, first, read⟩ := Option.bind_eq_some_iff.mp read
            obtain ⟨later, others, same⟩ := Option.map_eq_some_iff.mp read
            cases same
            exact Nat.le_trans (inductive_hypothesis others) (Nat.le_of_lt (part_shorter first))

theorem device_shorter {mtdids : List MtdIds} {p rest : List UInt8} {id : MtdIds}
    {defs : List PartInfo} (read : deviceText mtdids p = some (id, defs, rest)) :
    rest.length < p.length := by
  obtain ⟨⟨mtdId, behind_id⟩, cut, read⟩ := Option.bind_eq_some_iff.mp read
  obtain ⟨found, known, read⟩ := Option.bind_eq_some_iff.mp read
  obtain ⟨⟨parts, behind⟩, parts_read, read⟩ := Option.bind_eq_some_iff.mp read
  cases read
  have at_id := cut_shorter cut
  have at_parts := part_defs_rest parts_read
  rw [List.length_drop]
  omega

theorem device_texts_step (mtdids : List MtdIds) (fuel : Nat) {text : List UInt8} (more : text ≠ []) :
    deviceTexts mtdids (fuel + 1) text =
      (deviceText mtdids text).bind fun read =>
        (deviceTexts mtdids fuel read.2.2).map fun later => (read.1, read.2.1) :: later := by
  rw [deviceTexts]
  · cases deviceText mtdids text with
    | none => rfl
    | some read =>
        obtain ⟨id, defs, p⟩ := read
        rw [Option.bind_eq_bind, Option.bind_some, Option.bind_some]
        dsimp only
        cases deviceTexts mtdids fuel p <;> rfl
  · exact more

theorem device_texts_end (mtdids : List MtdIds) (fuel : Nat) :
    deviceTexts mtdids fuel [] = some [] := by
  cases fuel <;> rfl

theorem device_texts_enough (mtdids : List MtdIds) {p : List UInt8} {one other : Nat}
    (enough : p.length ≤ one) (also : p.length ≤ other) :
    deviceTexts mtdids one p = deviceTexts mtdids other p := by
  induction one generalizing other p with
  | zero =>
      rw [List.length_eq_zero_iff.mp (Nat.le_zero.mp enough), device_texts_end, device_texts_end]
  | succ one inductive_hypothesis =>
      cases p with
      | nil => rw [device_texts_end, device_texts_end]
      | cons c rest =>
          obtain ⟨other, rfl⟩ := Nat.exists_eq_succ_of_ne_zero
            (Nat.ne_of_gt (Nat.lt_of_lt_of_le (Nat.succ_pos rest.length) also))
          rw [device_texts_step mtdids one (List.cons_ne_nil c rest),
            device_texts_step mtdids other (List.cons_ne_nil c rest)]
          refine Option.bind_congr fun read parsed => ?_
          have shorter : read.2.2.length < rest.length + 1 := device_shorter parsed
          rw [List.length_cons] at enough also
          exact congrArg _ (inductive_hypothesis (by omega) (by omega))

/-! ### What the readers give -/

/-- A partition as part_parse leaves it, apart from its place. -/
structure Parsed (part : PartInfo) : Prop where
  name : part.autoName = 0 → part.name ≠ [] ∧ 41 ∉ part.name
  auto : part.autoName = 0 ∨ part.autoName = 1
  flags : part.maskFlags = 0 ∨ part.maskFlags = 1

theorem name_given {size offset : UInt32} {p name rest : List UInt8} {autoName : UInt8}
    (read : parseName size offset p = some (name, autoName, rest)) :
    (autoName = 0 → name ≠ [] ∧ 41 ∉ name) ∧ (autoName = 0 ∨ autoName = 1) := by
  unfold parseName at read
  split at read
  · split at read
    · cases read
    · rename_i cut
      split at read
      · cases read
      · rename_i some_name
        cases read
        exact ⟨fun _ => ⟨some_name, cut_plain cut⟩, .inl rfl⟩
  · cases read
    exact ⟨fun given => absurd given (by decide), .inr rfl⟩

theorem part_parsed {p rest : List UInt8} {part : PartInfo}
    (read : partParse p = some (part, rest)) : Parsed part := by
  obtain ⟨⟨size, behind_size⟩, size_read, read⟩ := Option.bind_eq_some_iff.mp read
  obtain ⟨⟨name, autoName, behind_name⟩, name_read, read⟩ := Option.bind_eq_some_iff.mp read
  obtain ⟨last, next_read, read⟩ := Option.bind_eq_some_iff.mp read
  cases read
  obtain ⟨given, auto⟩ := name_given name_read
  refine ⟨given, auto, ?_⟩
  show (parseFlags behind_name).1 = 0 ∨ (parseFlags behind_name).1 = 1
  unfold parseFlags
  split
  · exact .inr rfl
  · exact .inl rfl

theorem part_defs_parsed {fuel : Nat} {p rest : List UInt8} {defs : List PartInfo}
    (read : partDefs fuel p = some (defs, rest)) : ∀ part ∈ defs, Parsed part := by
  induction fuel generalizing p defs with
  | zero =>
      unfold partDefs at read
      split at read
      · cases read
        exact fun part member => absurd member List.not_mem_nil
      · cases read
        exact fun part member => absurd member List.not_mem_nil
      · cases read
      · rename_i impossible _ _
        cases impossible
  | succ fuel inductive_hypothesis =>
      cases p with
      | nil =>
          cases read
          exact fun part member => absurd member List.not_mem_nil
      | cons c p =>
          by_cases ended : c = 59
          · rw [ended] at read
            cases read
            exact fun part member => absurd member List.not_mem_nil
          · rw [part_defs_step fuel ended] at read
            obtain ⟨⟨part, behind⟩, first, read⟩ := Option.bind_eq_some_iff.mp read
            obtain ⟨later, others, same⟩ := Option.map_eq_some_iff.mp read
            cases same
            exact List.forall_mem_cons.mpr ⟨part_parsed first, inductive_hypothesis others⟩

/-- The id and the definitions of a device that the text describes. -/
theorem device_parsed {mtdids : List MtdIds} {p rest : List UInt8} {id : MtdIds}
    {defs : List PartInfo} (read : deviceText mtdids p = some (id, defs, rest)) :
    idFindByMtdId mtdids id.mtdId = some id ∧ 58 ∉ id.mtdId ∧ ∀ part ∈ defs, Parsed part := by
  obtain ⟨⟨mtdId, behind_id⟩, cut, read⟩ := Option.bind_eq_some_iff.mp read
  obtain ⟨found, known, read⟩ := Option.bind_eq_some_iff.mp read
  obtain ⟨⟨parts, behind⟩, parts_read, read⟩ := Option.bind_eq_some_iff.mp read
  cases read
  have same_name : id.mtdId = mtdId := by simpa using List.find?_some known
  rw [same_name]
  exact ⟨known, cut_plain cut, part_defs_parsed parts_read⟩

theorem device_texts_parsed {mtdids : List MtdIds} {fuel : Nat} {p : List UInt8}
    {devs : List (MtdIds × List PartInfo)} (read : deviceTexts mtdids fuel p = some devs) :
    ∀ dev ∈ devs, idFindByMtdId mtdids dev.1.mtdId = some dev.1 ∧ 58 ∉ dev.1.mtdId ∧
      ∀ part ∈ dev.2, Parsed part := by
  induction fuel generalizing p devs with
  | zero =>
      cases p with
      | nil =>
          cases read
          exact fun dev member => absurd member List.not_mem_nil
      | cons c p => cases read
  | succ fuel inductive_hypothesis =>
      cases p with
      | nil =>
          cases read
          exact fun dev member => absurd member List.not_mem_nil
      | cons c p =>
          rw [device_texts_step mtdids fuel (List.cons_ne_nil c p)] at read
          obtain ⟨⟨id, defs, behind⟩, first, read⟩ := Option.bind_eq_some_iff.mp read
          obtain ⟨later, others, same⟩ := Option.map_eq_some_iff.mp read
          cases same
          exact List.forall_mem_cons.mpr ⟨device_parsed first, inductive_hypothesis others⟩

end UBoot.Mtd.PartText
