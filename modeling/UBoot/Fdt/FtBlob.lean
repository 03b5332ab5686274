import UBoot.Fdt.FtBuild

/-!
What the builder leaves in the buffer. The structure grows upwards from the
reserve map and the strings grow downwards from the end; a call that does not
fit sets the overflow flag for good.
-/

namespace UBoot.Fdt.FtBlob

open Lib.Strings Library.Memory Library.BigEndian Library.StringTable FtBuild

/-! ## The format -/

/-- The data with the zeros that ft_put_bin puts behind it. -/
def padded (data : List UInt8) : List UInt8 := data ++ zeros (align data.length 4 - data.length)

/-- A call in the structure block; `pos` is the offset of a name in the strings. -/
def encodeCall (pos : List UInt8 → Nat) : Call → List UInt8
  | .beginNode name => wordBytes ofDtBeginNode ++ padded (name.bytes ++ [0])
  | .endNode => wordBytes ofDtEndNode
  | .prop name data =>
      wordBytes ofDtProp ++ wordBytes data.length ++ wordBytes (pos name.bytes) ++ padded data

def encode (pos : List UInt8 → Nat) (calls : List Call) : List UInt8 :=
  calls.flatMap (encodeCall pos)

def addName (names : List (List UInt8)) : Call → List (List UInt8)
  | .prop name _ => if name.bytes ∈ names then names else name.bytes :: names
  | _ => names

/-- The strings block, the last name first. -/
def namesOf (calls : List Call) : List (List UInt8) := calls.foldl addName []

/-- Where a name stands in the strings block. -/
def indexIn : List (List UInt8) → List UInt8 → Nat
  | [], _ => 0
  | first :: rest, name => if first = name then 0 else first.length + 1 + indexIn rest name

def callSize : Call → Nat
  | .beginNode name => 4 + align (name.bytes.length + 1) 4
  | .endNode => 4
  | .prop _ data => 12 + align data.length 4

def structSize (calls : List Call) : Nat := (calls.map callSize).sum

def stringsSize (calls : List Call) : Nat := (table (namesOf calls)).length

section Format

theorem align_four (n : Nat) : n ≤ align n 4 ∧ align n 4 < n + 4 ∧ align n 4 % 4 = 0 := by
  unfold align
  omega

theorem align_add {p : Nat} (aligned : p % 4 = 0) (n : Nat) : align (p + n) 4 = p + align n 4 := by
  unfold align
  omega

@[simp] theorem padded_length (data : List UInt8) : (padded data).length = align data.length 4 := by
  have bound := (align_four data.length).1
  simp only [padded, zeros, List.length_append, List.length_replicate]
  omega

theorem encode_call_length (pos : List UInt8 → Nat) (call : Call) :
    (encodeCall pos call).length = callSize call := by
  cases call with
  | beginNode name => simp [encodeCall, callSize]
  | endNode => rfl
  | prop name data =>
      simp only [encodeCall, callSize, List.length_append, word_bytes_length, padded_length]

theorem call_size_aligned (call : Call) : callSize call % 4 = 0 := by
  cases call with
  | beginNode name =>
      have rounded := align_four (name.bytes.length + 1)
      simp only [callSize]
      omega
  | endNode => rfl
  | prop name data =>
      have rounded := align_four data.length
      simp only [callSize]
      omega

theorem struct_size_cons (call : Call) (rest : List Call) :
    structSize (call :: rest) = callSize call + structSize rest := by
  simp [structSize]

theorem encode_cons (pos : List UInt8 → Nat) (call : Call) (rest : List Call) :
    encode pos (call :: rest) = encodeCall pos call ++ encode pos rest := by
  simp [encode]

@[simp] theorem encode_length (pos : List UInt8 → Nat) (calls : List Call) :
    (encode pos calls).length = structSize calls := by
  induction calls with
  | nil => rfl
  | cons call rest ih =>
      rw [encode_cons, List.length_append, encode_call_length, ih, struct_size_cons]

/-- A call takes a word at least. -/
theorem calls_le_struct (calls : List Call) : 4 * calls.length ≤ structSize calls := by
  induction calls with
  | nil => exact Nat.zero_le _
  | cons call rest ih =>
      have own : 4 ≤ callSize call := by
        cases call with
        | beginNode name => exact Nat.le_add_right _ _
        | endNode => exact Nat.le_refl _
        | prop name data => exact Nat.le_add_right_of_le (by decide)
      rw [struct_size_cons, List.length_cons]
      omega

theorem add_name_suffix (names : List (List UInt8)) (call : Call) : names <:+ addName names call := by
  cases call with
  | beginNode name => exact List.suffix_rfl
  | endNode => exact List.suffix_rfl
  | prop name data =>
      simp only [addName]
      split
      · exact List.suffix_rfl
      · exact List.suffix_cons _ _

theorem names_suffix (names : List (List UInt8)) (calls : List Call) :
    names <:+ calls.foldl addName names := by
  induction calls generalizing names with
  | nil => exact List.suffix_rfl
  | cons call rest ih => exact (add_name_suffix names call).trans (ih _)

theorem add_name_nodup {names : List (List UInt8)} (distinct : names.Nodup) (call : Call) :
    (addName names call).Nodup := by
  cases call with
  | beginNode name => exact distinct
  | endNode => exact distinct
  | prop name data =>
      simp only [addName]
      split
      · exact distinct
      · rename_i fresh
        exact List.nodup_cons.mpr ⟨fresh, distinct⟩

theorem names_nodup (calls : List Call) : (namesOf calls).Nodup := by
  have general : ∀ names : List (List UInt8), names.Nodup → (calls.foldl addName names).Nodup := by
    induction calls with
    | nil => exact fun names distinct => distinct
    | cons call rest ih => exact fun names distinct => ih _ (add_name_nodup distinct call)
  exact general [] List.nodup_nil

/-- A name stands where it was put, counted from the end of the strings. -/
theorem index_suffix {names all : List (List UInt8)} (suffix : names <:+ all) (distinct : all.Nodup)
    {name : List UInt8} (member : name ∈ names) :
    indexIn all name + (table names).length = indexIn names name + (table all).length := by
  obtain ⟨more, rfl⟩ := suffix
  induction more with
  | nil => rfl
  | cons first rest ih =>
      rw [List.cons_append, List.nodup_cons] at distinct
      have apart : first ≠ name := by
        rintro rfl
        exact distinct.1 (List.mem_append_right _ member)
      have previous := ih distinct.2
      rw [List.cons_append, indexIn, if_neg apart]
      simp only [table, List.length_append, List.length_cons]
      omega

end Format

/-! ## The buffer during the calls -/

/-- The bytes stand from the anchor on and the names in front of the end. -/
structure Holds (anchor maxSize : Nat) (start : Nat → UInt8) (cxt : FtCxt) (bytes : List UInt8)
    (names : List (List UInt8)) : Prop where
  running : cxt.overflow = false
  pBegin : cxt.pBegin = anchor
  pstrBegin : cxt.pstrBegin = maxSize
  p : cxt.p = anchor + bytes.length
  pstr : cxt.pstr + (table names).length = maxSize
  body : HasBytes cxt.mem anchor bytes
  strings : HasBytes cxt.mem cxt.pstr (table names)
  room : bytes = [] ∧ names = [] ∨ cxt.p ≤ cxt.pstr
  header : ∀ address, address < anchor → cxt.mem address = start address
  beyond : ∀ address, maxSize ≤ address → cxt.mem address = start address

/-- The flag is set because the bytes and the names do not fit. -/
structure Spilled (anchor maxSize : Nat) (start : Nat → UInt8) (cxt : FtCxt) (bytes : List UInt8)
    (names : List (List UInt8)) : Prop where
  overflow : cxt.overflow = true
  large : maxSize < anchor + bytes.length + (table names).length
  beyond : ∀ address, maxSize ≤ address → cxt.mem address = start address

def Fills (anchor maxSize : Nat) (start : Nat → UInt8) (cxt : FtCxt) (bytes : List UInt8)
    (names : List (List UInt8)) : Prop :=
  Holds anchor maxSize start cxt bytes names ∨ Spilled anchor maxSize start cxt bytes names

section Fill
variable {anchor maxSize : Nat} {start : Nat → UInt8} {cxt : FtCxt} {bytes : List UInt8}
  {names : List (List UInt8)}

theorem holds_running (holds : Holds anchor maxSize start cxt bytes names) :
    ¬ cxt.overflow = true := by
  rw [holds.running]
  exact Bool.false_ne_true

/-- Bytes that end in front of the strings go behind the others. -/
theorem holds_put (holds : Holds anchor maxSize start cxt bytes names) (more : List UInt8)
    (fits : cxt.p + more.length ≤ cxt.pstr) :
    Holds anchor maxSize start { cxt with mem := splice cxt.mem cxt.p more, p := cxt.p + more.length }
      (bytes ++ more) names where
  running := holds.running
  pBegin := holds.pBegin
  pstrBegin := holds.pstrBegin
  p := by
    have place := holds.p
    simp only [List.length_append]
    omega
  pstr := holds.pstr
  body := by
    have place := holds.p
    refine (has_bytes_append _ _ _ _).mpr ⟨has_splice_apart holds.body (Or.inl (by omega)), ?_⟩
    rw [← place]
    exact has_splice cxt.mem cxt.p more
  strings := has_splice_apart holds.strings (Or.inr fits)
  room := Or.inr fits
  header := by
    intro address below
    have place := holds.p
    exact (splice_outside cxt.mem cxt.p more address (Or.inl (by omega))).trans
      (holds.header address below)
  beyond := by
    intro address above
    have top := holds.pstr
    exact (splice_outside cxt.mem cxt.p more address (Or.inr (by omega))).trans
      (holds.beyond address above)

theorem spilled_put (spilled : Spilled anchor maxSize start cxt bytes names) (more : List UInt8) :
    Spilled anchor maxSize start cxt (bytes ++ more) names := by
  have large := spilled.large
  exact ⟨spilled.overflow, by rw [List.length_append]; omega, spilled.beyond⟩

theorem holds_spill (holds : Holds anchor maxSize start cxt bytes names) (more : List UInt8)
    (large : cxt.pstr < cxt.p + more.length) :
    Spilled anchor maxSize start { cxt with overflow := true } (bytes ++ more) names := by
  have place := holds.p
  have top := holds.pstr
  exact ⟨rfl, by rw [List.length_append]; omega, holds.beyond⟩

theorem put_word_fills (fills : Fills anchor maxSize start cxt bytes names) (v : Nat) :
    Fills anchor maxSize start (ftPutWord cxt v) (bytes ++ wordBytes v) names := by
  unfold ftPutWord
  rcases fills with holds | spilled
  · rw [if_neg (holds_running holds)]
    by_cases large : cxt.p + 4 > cxt.pstr
    · rw [if_pos large]
      exact Or.inr (holds_spill holds (wordBytes v) large)
    · rw [if_neg large]
      exact Or.inl (holds_put holds (wordBytes v) (Nat.not_lt.mp large))
  · rw [if_pos spilled.overflow]
    exact Or.inr (spilled_put spilled (wordBytes v))

/-- The two writes of ft_put_bin are one of the padded data. -/
theorem put_bin_mem (mem : Nat → UInt8) (p : Nat) (data : List UInt8) :
    (if data.length % 4 ≠ 0 then
        splice (splice mem p data) (p + data.length) (zeros (4 - data.length % 4))
      else splice mem p data) = splice mem p (padded data) := by
  have rounded := align_four data.length
  unfold padded
  split
  · have gap : 4 - data.length % 4 = align data.length 4 - data.length := by omega
    rw [splice_append, gap]
  · have gap : align data.length 4 - data.length = 0 := by omega
    rw [gap]
    simp [zeros]

theorem put_bin_fills (fills : Fills anchor maxSize start cxt bytes names)
    (aligned : (anchor + bytes.length) % 4 = 0) (data : List UInt8) :
    Fills anchor maxSize start (ftPutBin cxt data) (bytes ++ padded data) names := by
  unfold ftPutBin
  rcases fills with holds | spilled
  · have onWord : cxt.p % 4 = 0 := by rw [holds.p, aligned]
    simp only [if_neg (holds_running holds), align_add onWord]
    by_cases large : cxt.p + align data.length 4 > cxt.pstr
    · rw [if_pos large]
      exact Or.inr (holds_spill holds (padded data) (by rw [padded_length]; exact large))
    · rw [if_neg large, put_bin_mem]
      have put := holds_put holds (padded data) (by rw [padded_length]; omega)
      rw [padded_length] at put
      exact Or.inl put
  · simp only [if_pos spilled.overflow]
    exact Or.inr (spilled_put spilled (padded data))

/-- lookup_string finds the names that are there, where they are. -/
theorem lookup_loop_eq {p fuel : Nat} (name : CString) (texts : ∀ entry ∈ names, 0 ∉ entry)
    (has : HasBytes cxt.mem p (table names)) (ends : p + (table names).length = cxt.pstrBegin)
    (enough : names.length < fuel) (small : (table names).length < 2 ^ 32) :
    lookupLoop cxt name fuel p =
      if name.bytes ∈ names then some (p + indexIn names name.bytes - cxt.pBegin) else none := by
  induction names generalizing p fuel with
  | nil =>
      cases fuel with
      | zero => exact absurd enough (Nat.not_lt_zero _)
      | succ fuel =>
          have done : ¬ p < cxt.pstrBegin := by
            simp only [table, List.length_nil] at ends
            omega
          rw [lookupLoop, if_neg done]
          rfl
  | cons entry rest ih =>
      cases fuel with
      | zero => exact absurd enough (Nat.not_lt_zero _)
      | succ fuel =>
          have split : table (entry :: rest) = (entry ++ [0]) ++ table rest := by
            simp [table]
          rw [split, List.length_append, List.length_append, List.length_singleton] at ends small
          rw [split, has_bytes_append, List.length_append, List.length_singleton] at has
          have more : p < cxt.pstrBegin := by omega
          have string : stringAt cxt.mem (2 ^ 32) p = entry :=
            string_at_eq (texts entry List.mem_cons_self) has.1 (by omega)
          have later := ih (fun other member => texts other (List.mem_cons_of_mem entry member))
            has.2 (by omega) (Nat.lt_of_succ_lt_succ enough) (by omega)
          rw [lookupLoop, if_pos more]
          simp only [string]
          by_cases here : entry = name.bytes
          · rw [if_pos here, ← here, if_pos List.mem_cons_self, indexIn, if_pos rfl, Nat.add_zero]
          · rw [if_neg here, later, indexIn, if_neg here]
            by_cases member : name.bytes ∈ rest
            · have index : p + (entry.length + 1) + indexIn rest name.bytes - cxt.pBegin =
                  p + (entry.length + 1 + indexIn rest name.bytes) - cxt.pBegin := by omega
              rw [if_pos member, if_pos (List.mem_cons_of_mem _ member), index]
            · have absent : name.bytes ∉ entry :: rest := by
                rw [List.mem_cons, not_or]
                exact ⟨fun same => here same.symm, member⟩
              rw [if_neg member, if_neg absent]

theorem table_length_le (names : List (List UInt8)) : names.length ≤ (table names).length := by
  induction names with
  | nil => exact Nat.zero_le _
  | cons entry rest ih =>
      simp only [table, List.length_cons, List.length_append]
      omega

theorem lookup_string_eq (holds : Holds anchor maxSize start cxt bytes names)
    (small : maxSize < 2 ^ 31) (texts : ∀ entry ∈ names, 0 ∉ entry) (name : CString) :
    lookupString cxt name =
      if name.bytes ∈ names then some (cxt.pstr + indexIn names name.bytes - anchor) else none := by
  have top := holds.pstr
  have count := table_length_le names
  rw [lookupString, lookup_loop_eq name texts holds.strings (top.trans holds.pstrBegin.symm)
    (by omega) (by omega), holds.pBegin]

/-- A new name goes in front of the others. -/
theorem holds_name (holds : Holds anchor maxSize start cxt bytes names) (name : List UInt8)
    (fits : cxt.p + (name.length + 1) ≤ cxt.pstr) :
    Holds anchor maxSize start
      { cxt with mem := splice cxt.mem (cxt.pstr - (name.length + 1)) (name ++ [0]),
                 pstr := cxt.pstr - (name.length + 1) } bytes (name :: names) := by
  have place := holds.p
  have top := holds.pstr
  have size : (name ++ [0]).length = name.length + 1 := List.length_append
  have split : table (name :: names) = (name ++ [0]) ++ table names := by
    simp [table]
  refine ⟨holds.running, holds.pBegin, holds.pstrBegin, holds.p, ?_, ?_, ?_, ?_, ?_, ?_⟩
  · rw [split, List.length_append, size]
    show cxt.pstr - (name.length + 1) + _ = _
    omega
  · exact has_splice_apart holds.body (Or.inl (by omega))
  · rw [split]
    refine (has_bytes_append _ _ _ _).mpr ⟨has_splice _ _ _, ?_⟩
    have after : cxt.pstr - (name.length + 1) + (name ++ [0]).length = cxt.pstr := by
      rw [size]
      omega
    rw [after]
    exact has_splice_apart holds.strings (Or.inr (by omega))
  · right
    show cxt.p ≤ cxt.pstr - (name.length + 1)
    omega
  · intro address below
    exact (splice_outside _ _ _ address (Or.inl (by omega))).trans (holds.header address below)
  · intro address above
    exact (splice_outside _ _ _ address (Or.inr (by omega))).trans (holds.beyond address above)

/-! ### A call at a time -/

/-- Where a name is counted from while the strings stand at the end of the buffer: the offset that
ft_prop puts into the structure. -/
def posWhile (room : Nat) (names : List (List UInt8)) (name : List UInt8) : Nat :=
  room - ((table names).length - indexIn names name)

theorem index_lt (names : List (List UInt8)) {name : List UInt8} (member : name ∈ names) :
    indexIn names name + name.length < (table names).length := by
  induction names with
  | nil => exact absurd member List.not_mem_nil
  | cons first rest ih =>
      have split : (table (first :: rest)).length = first.length + 1 + (table rest).length := by
        simp only [table, List.length_append, List.length_cons]
        omega
      rw [split, indexIn]
      by_cases here : first = name
      · rw [if_pos here, here]
        omega
      · have later := ih ((List.mem_cons.mp member).resolve_left fun same => here same.symm)
        rw [if_neg here]
        omega

/-- The place of a name does not change when more names are put in front of it. -/
theorem pos_while_eq (holds : Holds anchor maxSize start cxt bytes names)
    {all : List (List UInt8)} (suffix : names <:+ all) (distinct : all.Nodup) {name : List UInt8}
    (member : name ∈ names) :
    cxt.pstr + indexIn names name - anchor = posWhile (maxSize - anchor) all name := by
  have place := holds.p
  have top := holds.pstr
  have shift := index_suffix suffix distinct member
  have inside := index_lt names member
  have room : cxt.p ≤ cxt.pstr := by
    rcases holds.room with none' | room
    · rw [none'.2] at member
      exact absurd member List.not_mem_nil
    · exact room
  unfold posWhile
  omega

theorem put_prop_fills (fills : Fills anchor maxSize start cxt bytes names)
    (aligned : (anchor + bytes.length) % 4 = 0) (off : Nat) (data : List UInt8) :
    Fills anchor maxSize start (ftPutProp cxt off data)
      (bytes ++ (wordBytes ofDtProp ++ wordBytes data.length ++ wordBytes off ++ padded data))
      names := by
  have tagged := put_word_fills fills ofDtProp
  have sized := put_word_fills tagged data.length
  have named := put_word_fills sized off
  have onWord : (anchor + (bytes ++ wordBytes ofDtProp ++ wordBytes data.length ++
      wordBytes off).length) % 4 = 0 := by
    simp only [List.length_append, word_bytes_length]
    omega
  have put := put_bin_fills named onWord data
  simp only [List.append_assoc] at put ⊢
  exact put

/-- A call leaves a spilled buffer as it is. -/
theorem spilled_call (spilled : Spilled anchor maxSize start cxt bytes names) (call : Call)
    (pos : List UInt8 → Nat) :
    Spilled anchor maxSize start (ftCall cxt call) (bytes ++ encodeCall pos call)
      (addName names call) := by
  have same : ftCall cxt call = cxt := by
    cases call <;>
      simp [ftCall, ftBeginNode, ftEndNode, ftProp, ftPutBin, ftPutWord, spilled.overflow]
  have grown : (table names).length ≤ (table (addName names call)).length := by
    obtain ⟨more, eq⟩ := add_name_suffix names call
    rw [← eq, table_append, List.length_append]
    exact Nat.le_add_left _ _
  have large := spilled.large
  rw [same]
  exact ⟨spilled.overflow, by rw [List.length_append]; omega, spilled.beyond⟩

theorem call_fills (fills : Fills anchor maxSize start cxt bytes names) (small : maxSize < 2 ^ 31)
    (texts : ∀ entry ∈ names, 0 ∉ entry) (aligned : (anchor + bytes.length) % 4 = 0)
    {all : List (List UInt8)} (distinct : all.Nodup) (call : Call)
    (suffix : addName names call <:+ all) :
    Fills anchor maxSize start (ftCall cxt call)
      (bytes ++ encodeCall (posWhile (maxSize - anchor) all) call) (addName names call) := by
  rcases fills with holds | spilled
  swap
  · exact Or.inr (spilled_call spilled call _)
  cases call with
  | beginNode name =>
      have begun := put_word_fills (Or.inl holds) ofDtBeginNode
      have onWord : (anchor + (bytes ++ wordBytes ofDtBeginNode).length) % 4 = 0 := by
        rw [List.length_append, word_bytes_length]
        omega
      have put := put_bin_fills begun onWord (name.bytes ++ [0])
      rw [List.append_assoc] at put
      exact put
  | endNode => exact put_word_fills (Or.inl holds) ofDtEndNode
  | prop name data =>
      have found := lookup_string_eq holds small texts name
      simp only [addName] at suffix ⊢
      simp only [ftCall, ftProp, if_neg (holds_running holds)]
      by_cases member : name.bytes ∈ names
      · rw [if_pos member] at found suffix ⊢
        rw [found]
        have put := put_prop_fills (Or.inl holds) aligned
          (cxt.pstr + indexIn names name.bytes - anchor) data
        rw [pos_while_eq holds suffix distinct member] at put
        rw [pos_while_eq holds suffix distinct member]
        exact put
      · rw [if_neg member] at found suffix ⊢
        rw [found]
        by_cases large : cxt.p + 12 + data.length + (name.bytes.length + 1) > cxt.pstr
        · have place := holds.p
          have top := holds.pstr
          have rounded := align_four data.length
          have size := encode_call_length (posWhile (maxSize - anchor) all) (.prop name data)
          simp only [if_pos large]
          refine Or.inr ⟨rfl, ?_, holds.beyond⟩
          simp only [callSize] at size
          simp only [table, List.length_append, List.length_cons, size]
          omega
        · have more := holds_name holds name.bytes (by omega)
          have first : indexIn (name.bytes :: names) name.bytes = 0 := by
            rw [indexIn, if_pos rfl]
          have place : cxt.pstr - (name.bytes.length + 1) - cxt.pBegin =
              posWhile (maxSize - anchor) all name.bytes := by
            rw [holds.pBegin, ← pos_while_eq more suffix distinct List.mem_cons_self, first]
            rfl
          simp only [if_neg large, place]
          exact put_prop_fills (Or.inl more) aligned _ data

theorem add_name_texts (texts : ∀ entry ∈ names, 0 ∉ entry) (call : Call) :
    ∀ entry ∈ addName names call, 0 ∉ entry := by
  cases call with
  | beginNode name => exact texts
  | endNode => exact texts
  | prop name data =>
      simp only [addName]
      split
      · exact texts
      · intro entry member
        rcases List.mem_cons.mp member with rfl | old
        · exact name.terminated
        · exact texts entry old

/-- The calls fill the buffer from both ends, or do not fit into it. -/
theorem calls_fill (small : maxSize < 2 ^ 31) {all : List (List UInt8)} (distinct : all.Nodup)
    (calls : List Call) : ∀ cxt bytes names, Fills anchor maxSize start cxt bytes names →
      (∀ entry ∈ names, 0 ∉ entry) → (anchor + bytes.length) % 4 = 0 →
      calls.foldl addName names <:+ all →
        Fills anchor maxSize start (calls.foldl ftCall cxt)
          (bytes ++ encode (posWhile (maxSize - anchor) all) calls)
          (calls.foldl addName names) := by
  induction calls with
  | nil =>
      intro cxt bytes names fills _ _ _
      rw [show encode (posWhile (maxSize - anchor) all) [] = [] from rfl, List.append_nil]
      exact fills
  | cons call rest ih =>
      intro cxt bytes names fills texts aligned suffix
      have whole := (names_suffix (addName names call) rest).trans suffix
      have called := call_fills fills small texts aligned distinct call whole
      have size := encode_call_length (posWhile (maxSize - anchor) all) call
      have onWord := call_size_aligned call
      have after := ih _ _ _ called (add_name_texts texts call)
        (by rw [List.length_append, size]; omega) suffix
      rw [List.append_assoc] at after
      exact after

end Fill

end UBoot.Fdt.FtBlob
