import UBoot.Fdt.FtBlob

/-!
The flat tree that ft_end_tree leaves. The strings are moved down behind the structure, and the
offsets in the structure, which were counted while the strings stood at the end of the buffer, are
corrected for that.
-/

namespace UBoot.Fdt.FtTree

open Lib.Strings Library.Memory Library.BigEndian Library.StringTable FtBuild FtBlob

/-- The reserve map has an entry of zeros only. -/
def anchor (blob : Blob) : Nat := presBegin blob + 16

/-- What the header, the structure and the strings take. -/
def treeSize (blob : Blob) (calls : List Call) : Nat :=
  anchor blob + structSize calls + 4 + stringsSize calls

/-- The parts of a flat tree, where its header says that they are. -/
structure FlatTree (blob : Blob) (calls : List Call) (mem : Nat → UInt8) : Prop where
  magic : word mem 0 = ofDtHeader
  totalsize : word mem 4 = align (treeSize blob calls) 16
  version : word mem 20 = 0x10
  lastCompVersion : word mem 24 = 0x10
  reserved : HasBytes mem (word mem 16) (zeros 16)
  body : HasBytes mem (word mem 8) (encode (indexIn (namesOf calls)) calls ++ wordBytes ofDtEnd)
  strings : HasBytes mem (word mem 12) (table (namesOf calls))
  onWord : word mem 8 % 4 = 0

section Words
variable {mem : Nat → UInt8} {start value : Nat}

theorem word_of_has {more : List UInt8} (bound : value < 2 ^ 32)
    (has : HasBytes mem start (wordBytes value ++ more)) : word mem start = value :=
  word_of_slice mem start value bound
    (slice_of_has ((has_bytes_append mem start (wordBytes value) more).mp has).1)

theorem word_set (mem : Nat → UInt8) (start : Nat) (bound : value < 2 ^ 32) :
    word (setWord mem start value) start = value :=
  word_of_slice _ start value bound (slice_splice_same mem start (wordBytes value))

theorem word_apart (mem : Nat → UInt8) (start other : Nat) (bytes : List UInt8)
    (apart : other + 4 ≤ start ∨ start + bytes.length ≤ other) :
    word (splice mem start bytes) other = word mem other :=
  word_congr fun i bound => splice_outside mem start bytes (other + i) (by omega)

end Words

/-! ## A call in the structure -/

section Calls
variable {pos : List UInt8 → Nat} {mem : Nat → UInt8} {p : Nat}

theorem begin_read {name : CString} (has : HasBytes mem p (encodeCall pos (.beginNode name)))
    (aligned : p % 4 = 0) (small : callSize (.beginNode name) < 2 ^ 31) :
    word mem p = ofDtBeginNode ∧ stringAt mem (2 ^ 32) (p + 4) = name.bytes ∧
      align (p + 4 + (name.bytes.length + 1)) 4 = p + callSize (.beginNode name) := by
  have tag : word mem p = ofDtBeginNode := word_of_has (by decide) has
  have behind := ((has_bytes_append mem p (wordBytes ofDtBeginNode) _).mp has).2
  have text := ((has_bytes_append mem (p + 4) (name.bytes ++ [0]) _).mp behind).1
  have rounded := align_four (name.bytes.length + 1)
  simp only [callSize] at small ⊢
  refine ⟨tag, string_at_eq name.terminated text (by omega), ?_⟩
  rw [align_add (by omega), Nat.add_assoc]

theorem end_read (has : HasBytes mem p (encodeCall pos .endNode)) :
    word mem p = ofDtEndNode := by
  rw [encodeCall, ← List.append_nil (wordBytes ofDtEndNode)] at has
  exact word_of_has (by decide) has

theorem prop_read {name : CString} {data : List UInt8}
    (has : HasBytes mem p (encodeCall pos (.prop name data))) (aligned : p % 4 = 0)
    (small : callSize (.prop name data) < 2 ^ 31) (bound : pos name.bytes < 2 ^ 32) :
    word mem p = ofDtProp ∧ word mem (p + 4) = data.length ∧ word mem (p + 8) = pos name.bytes ∧
      HasBytes mem (p + 12) data ∧
      align (p + 12 + data.length) 4 = p + callSize (.prop name data) := by
  have rounded := align_four data.length
  simp only [callSize] at small ⊢
  simp only [encodeCall, List.append_assoc] at has
  have tag : word mem p = ofDtProp := word_of_has (by decide) has
  have sized := ((has_bytes_append mem p (wordBytes ofDtProp) _).mp has).2
  have named := ((has_bytes_append mem (p + 4) (wordBytes data.length) _).mp sized).2
  have filled := ((has_bytes_append mem (p + 8) (wordBytes (pos name.bytes)) _).mp named).2
  refine ⟨tag, word_of_has (by omega) sized, word_of_has bound named, ?_, ?_⟩
  · exact ((has_bytes_append mem (p + 12) data _).mp filled).1
  · rw [align_add (by omega), Nat.add_assoc]

end Calls

/-! ## The correction of the offsets -/

/-- The offsets of the properties, less what the strings have been moved by. -/
def Moves (off : Nat) (pos pos' : List UInt8 → Nat) (calls : List Call) : Prop :=
  ∀ name data, Call.prop name data ∈ calls →
    pos name.bytes < 2 ^ 32 ∧ (pos name.bytes + 2 ^ 32 - off) % 2 ^ 32 = pos' name.bytes

section Fixup
variable {off : Nat} {pos pos' : List UInt8 → Nat} {mem : Nat → UInt8} {p : Nat}

/-- One turn of the loop steps over a call and corrects it. -/
theorem fixup_call {call : Call} (has : HasBytes mem p (encodeCall pos call)) (aligned : p % 4 = 0)
    (small : callSize call < 2 ^ 31) (moves : Moves off pos pos' [call]) (fuel : Nat) :
    ∃ after, fixup off (fuel + 1) p mem = fixup off fuel (p + callSize call) after ∧
      HasBytes after p (encodeCall pos' call) ∧
      ∀ address, address < p ∨ p + callSize call ≤ address → after address = mem address := by
  cases call with
  | beginNode name =>
      obtain ⟨tag, text, next⟩ := begin_read has aligned small
      refine ⟨mem, ?_, has, fun _ _ => rfl⟩
      rw [fixup]
      simp only [tag, text, next]
      rfl
  | endNode =>
      refine ⟨mem, ?_, has, fun _ _ => rfl⟩
      rw [fixup]
      simp only [end_read has]
      rfl
  | prop name data =>
      obtain ⟨bound, moved⟩ := moves name data (List.mem_singleton.mpr rfl)
      obtain ⟨tag, size, offset, -, next⟩ := prop_read has aligned small bound
      refine ⟨setWord mem (p + 8) (pos' name.bytes), ?_, ?_, ?_⟩
      · rw [fixup]
        simp only [tag, size, offset, next, moved]
        rfl
      · simp only [encodeCall, List.append_assoc] at has ⊢
        obtain ⟨tagged, behind⟩ := (has_bytes_append mem p (wordBytes ofDtProp) _).mp has
        obtain ⟨sized, behind⟩ :=
          (has_bytes_append mem (p + 4) (wordBytes data.length) _).mp behind
        have filled := ((has_bytes_append mem (p + 8) (wordBytes (pos name.bytes)) _).mp behind).2
        refine (has_bytes_append _ p (wordBytes ofDtProp) _).mpr
          ⟨has_splice_apart tagged (Or.inl (by simp only [word_bytes_length]; omega)), ?_⟩
        refine (has_bytes_append _ (p + 4) (wordBytes data.length) _).mpr
          ⟨has_splice_apart sized (Or.inl (by simp only [word_bytes_length]; omega)), ?_⟩
        exact (has_bytes_append _ (p + 8) (wordBytes (pos' name.bytes)) _).mpr
          ⟨has_splice mem (p + 8) _, has_splice_apart filled (Or.inr (Nat.le_refl _))⟩
      · intro address outside
        have rounded := align_four data.length
        simp only [callSize] at outside
        exact splice_outside mem (p + 8) _ address (by simp only [word_bytes_length]; omega)

theorem fixup_end (has : HasBytes mem p (wordBytes ofDtEnd)) (fuel : Nat) :
    fixup off (fuel + 1) p mem = (true, mem) := by
  rw [← List.append_nil (wordBytes ofDtEnd)] at has
  rw [fixup]
  simp only [word_of_has (by decide) has]
  rfl

theorem fixup_calls (calls : List Call) : ∀ fuel p mem,
    HasBytes mem p (encode pos calls ++ wordBytes ofDtEnd) → p % 4 = 0 →
      structSize calls < 2 ^ 31 → calls.length < fuel → Moves off pos pos' calls →
        ∃ after, fixup off fuel p mem = (true, after) ∧
          HasBytes after p (encode pos' calls ++ wordBytes ofDtEnd) ∧
          ∀ address, address < p ∨ p + structSize calls ≤ address →
            after address = mem address := by
  induction calls with
  | nil =>
      intro fuel p mem has _ _ enough _
      obtain ⟨fuel, rfl⟩ := Nat.exists_eq_add_one.mpr enough
      exact ⟨mem, fixup_end has fuel, has, fun _ _ => rfl⟩
  | cons call rest ih =>
      intro fuel p mem has aligned small enough moves
      obtain ⟨fuel, rfl⟩ := Nat.exists_eq_add_one.mpr (Nat.zero_lt_of_lt enough)
      have size := encode_call_length pos call
      have size' := encode_call_length pos' call
      have onWord := call_size_aligned call
      rw [encode_cons, List.append_assoc, has_bytes_append, size] at has
      rw [struct_size_cons] at small
      obtain ⟨once, turn, here, frame⟩ := fixup_call has.1 aligned (by omega)
        (fun name data member => moves name data (by
          rw [List.mem_singleton.mp member]
          exact List.mem_cons_self)) fuel
      have behind : HasBytes once (p + callSize call) (encode pos rest ++ wordBytes ofDtEnd) :=
        has_bytes_congr has.2 fun address above _ => frame address (Or.inr above)
      obtain ⟨after, run, there, rest'⟩ := ih fuel (p + callSize call) once behind (by omega)
        (by omega) (Nat.lt_of_succ_lt_succ enough)
        (fun name data member => moves name data (List.mem_cons_of_mem call member))
      refine ⟨after, turn.trans run, ?_, ?_⟩
      · rw [encode_cons, List.append_assoc, has_bytes_append, size']
        refine ⟨has_bytes_congr here fun address above below => ?_, there⟩
        exact rest' address (Or.inl (by rw [← size']; exact below))
      · intro address outside
        rw [struct_size_cons] at outside
        rw [rest' address (by omega), frame address (by omega)]

end Fixup

/-! ## From ft_begin to ft_end_tree -/

theorem pres_begin_eq (blob : Blob) : presBegin blob = 36 ∨ presBegin blob = 40 := by
  have aligned := blob.aligned
  unfold presBegin align
  omega

/-- The header that ft_begin writes in front of the anchor. -/
theorem begin_header (blob : Blob) (mem : Nat → UInt8) :
    word (ftBegin blob mem).mem 0 = ofDtHeader ∧ word (ftBegin blob mem).mem 16 = presBegin blob ∧
      word (ftBegin blob mem).mem 20 = 0x10 ∧ word (ftBegin blob mem).mem 24 = 0x10 ∧
      HasBytes (ftBegin blob mem).mem (presBegin blob) (zeros 16) := by
  have place := pres_begin_eq blob
  have front : ∀ other, other + 4 ≤ 36 → word (ftBegin blob mem).mem other =
      word (setWord (setWord (setWord (setWord (splice mem 0 (zeros 36)) 0 ofDtHeader) 20 0x10) 24
        0x10) 16 (presBegin blob)) other := fun other bound =>
    word_apart _ (presBegin blob) other (zeros 16) (Or.inl (by omega))
  have apart : ∀ (mem : Nat → UInt8) start value other, other + 4 ≤ start ∨ start + 4 ≤ other →
      word (setWord mem start value) other = word mem other := fun mem start value other apart =>
    word_apart mem start other (wordBytes value) (by rw [word_bytes_length]; exact apart)
  refine ⟨?_, ?_, ?_, ?_, has_splice _ _ _⟩
  · rw [front 0 (by decide), apart _ _ _ _ (by decide), apart _ _ _ _ (by decide),
      apart _ _ _ _ (by decide), word_set _ _ (by decide)]
  · rw [front 16 (by decide), word_set _ _ (by omega)]
  · rw [front 20 (by decide), apart _ _ _ _ (by decide), apart _ _ _ _ (by decide),
      word_set _ _ (by decide)]
  · rw [front 24 (by decide), apart _ _ _ _ (by decide), word_set _ _ (by decide)]

theorem begin_beyond (blob : Blob) (mem : Nat → UInt8) {address : Nat}
    (above : anchor blob ≤ address) : (ftBegin blob mem).mem address = mem address := by
  have place := pres_begin_eq blob
  have size : ∀ count, (zeros count).length = count := fun count => List.length_replicate
  unfold anchor at above
  simp only [ftBegin, setWord]
  rw [splice_outside _ _ _ _ (Or.inr (by rw [size]; omega)),
    splice_outside _ _ _ _ (Or.inr (by rw [word_bytes_length]; omega)),
    splice_outside _ _ _ _ (Or.inr (by rw [word_bytes_length]; omega)),
    splice_outside _ _ _ _ (Or.inr (by rw [word_bytes_length]; omega)),
    splice_outside _ _ _ _ (Or.inr (by rw [word_bytes_length]; omega)),
    splice_outside _ _ _ _ (Or.inr (by rw [size]; omega))]

theorem begun_holds (blob : Blob) (mem : Nat → UInt8) :
    Holds (anchor blob) blob.maxSize (ftBegin blob mem).mem (ftBeginTree blob (ftBegin blob mem))
      [] [] where
  running := rfl
  pBegin := rfl
  pstrBegin := rfl
  p := rfl
  pstr := rfl
  body := trivial
  strings := trivial
  room := Or.inl ⟨rfl, rfl⟩
  header := fun _ _ => rfl
  beyond := fun _ _ => rfl

/-- The offsets while the strings stand at the end of the buffer. -/
def posBefore (blob : Blob) (calls : List Call) : List UInt8 → Nat :=
  posWhile (blob.maxSize - anchor blob) (namesOf calls)

/-- The context behind the calls and the last tag. -/
theorem closed_fills (blob : Blob) (mem : Nat → UInt8) (calls : List Call) :
    Fills (anchor blob) blob.maxSize (ftBegin blob mem).mem
      (ftPutWord (calls.foldl ftCall (ftBeginTree blob (ftBegin blob mem))) ofDtEnd)
      (encode (posBefore blob calls) calls ++ wordBytes ofDtEnd) (namesOf calls) := by
  have place := pres_begin_eq blob
  have run := calls_fill blob.small (names_nodup calls) calls _ [] [] (Or.inl (begun_holds blob mem))
    (fun _ none' => absurd none' List.not_mem_nil)
    (by simp only [anchor, List.length_nil]; omega) List.suffix_rfl
  exact put_word_fills run ofDtEnd

theorem member_name {name : CString} {data : List UInt8} (calls : List Call) :
    ∀ names, Call.prop name data ∈ calls → name.bytes ∈ calls.foldl addName names := by
  induction calls with
  | nil => exact fun _ none' => absurd none' List.not_mem_nil
  | cons call rest ih =>
      intro names member
      rcases List.mem_cons.mp member with rfl | later
      · refine (names_suffix _ rest).subset ?_
        simp only [addName]
        split
        · assumption
        · exact List.mem_cons_self
      · exact ih _ later

theorem moves_down {blob : Blob} {calls : List Call} (fits : treeSize blob calls ≤ blob.maxSize) :
    Moves (blob.maxSize - anchor blob - stringsSize calls) (posBefore blob calls)
      (indexIn (namesOf calls)) calls := by
  intro name data member
  have inside := index_lt (namesOf calls) (member_name calls [] member)
  have small := blob.small
  simp only [treeSize, stringsSize, posBefore, posWhile] at fits ⊢
  omega

/-- The last writes of ft_end_tree, to a tree that ends at `size`. -/
def finish (mem : Nat → UInt8) (size pBegin pstrBegin : Nat) : Nat → UInt8 :=
  setWord (setWord (setWord (splice mem size (zeros (align size 16 - size))) 4 (align size 16)) 8
    pBegin) 12 pstrBegin

section Finish
variable (mem : Nat → UInt8) (size pBegin pstrBegin : Nat)

theorem align_sixteen (n : Nat) : n ≤ align n 16 ∧ align n 16 < n + 16 := by
  unfold align
  omega

theorem finish_apart (address : Nat) (header : address < 4 ∨ 16 ≤ address)
    (outside : address < size ∨ align size 16 ≤ address) :
    finish mem size pBegin pstrBegin address = mem address := by
  have rounded := align_sixteen size
  simp only [finish, setWord]
  rw [splice_outside _ _ _ _ (by rw [word_bytes_length]; omega),
    splice_outside _ _ _ _ (by rw [word_bytes_length]; omega),
    splice_outside _ _ _ _ (by rw [word_bytes_length]; omega),
    splice_outside _ _ _ _ (by simp only [zeros, List.length_replicate]; omega)]

theorem finish_words (small : size < 2 ^ 31) (begins : pBegin < 2 ^ 32)
    (strings : pstrBegin < 2 ^ 32) :
    word (finish mem size pBegin pstrBegin) 4 = align size 16 ∧
      word (finish mem size pBegin pstrBegin) 8 = pBegin ∧
      word (finish mem size pBegin pstrBegin) 12 = pstrBegin := by
  have rounded := align_sixteen size
  have apart : ∀ (mem : Nat → UInt8) start value other, other + 4 ≤ start ∨ start + 4 ≤ other →
      word (setWord mem start value) other = word mem other := fun mem start value other apart =>
    word_apart mem start other (wordBytes value) (by rw [word_bytes_length]; exact apart)
  refine ⟨?_, ?_, word_set _ _ strings⟩
  · rw [finish, apart _ _ _ _ (by decide), apart _ _ _ _ (by decide), word_set _ _ (by omega)]
  · rw [finish, apart _ _ _ _ (by decide), word_set _ _ begins]

end Finish

/-- ft_end_tree, behind the last tag. -/
theorem end_tree_eq {cxt closed : FtCxt} (put : ftPutWord cxt ofDtEnd = closed)
    (running : closed.overflow = false) {after : Nat → UInt8}
    (fixed : fixup (closed.pstrBegin - closed.pBegin - (closed.pstrBegin - closed.pstr)) (2 ^ 30)
      closed.pBegin (splice closed.mem (closed.pBegin + (closed.p - closed.pBegin))
        (slice closed.mem closed.pstr (closed.pstrBegin - closed.pstr))) = (true, after)) :
    (ftEndTree cxt).1 = 0 ∧ (ftEndTree cxt).2.mem =
      finish after (closed.pBegin + (closed.p - closed.pBegin) + (closed.pstrBegin - closed.pstr))
        closed.pBegin (closed.pBegin + (closed.p - closed.pBegin)) := by
  have goOn : ¬ closed.overflow = true := by
    rw [running]
    exact Bool.false_ne_true
  unfold ftEndTree
  simp only [put, if_neg goOn, fixed]
  exact ⟨trivial, rfl⟩

section Build
variable {blob : Blob} {mem : Nat → UInt8} {calls : List Call} {closed : FtCxt}

/-- The parts of the buffer behind the last tag, as ft_end_tree computes them. -/
structure Parts (blob : Blob) (calls : List Call) (closed : FtCxt) : Prop where
  structEnd : closed.pBegin + (closed.p - closed.pBegin) = anchor blob + (structSize calls + 4)
  strings : closed.pstrBegin - closed.pstr = stringsSize calls
  fits : treeSize blob calls ≤ blob.maxSize

theorem closed_parts (holds : Holds (anchor blob) blob.maxSize (ftBegin blob mem).mem closed
      (encode (posBefore blob calls) calls ++ wordBytes ofDtEnd) (namesOf calls)) :
    Parts blob calls closed := by
  have top := holds.pstr
  have place := holds.p
  have size : (encode (posBefore blob calls) calls ++ wordBytes ofDtEnd).length =
      structSize calls + 4 := by
    rw [List.length_append, encode_length, word_bytes_length]
  rw [size] at place
  have room : closed.p ≤ closed.pstr := by
    rcases holds.room with none' | room
    · have empty := congrArg List.length none'.1
      rw [size] at empty
      exact absurd empty (by simp)
    · exact room
  refine ⟨?_, ?_, ?_⟩
  · rw [holds.pBegin]
    omega
  · rw [holds.pstrBegin, stringsSize]
    omega
  · unfold treeSize stringsSize
    omega

/-- The structure corrected, behind the header of ft_begin and in front of the moved strings. -/
theorem fixed_tree (holds : Holds (anchor blob) blob.maxSize (ftBegin blob mem).mem closed
      (encode (posBefore blob calls) calls ++ wordBytes ofDtEnd) (namesOf calls)) :
    ∃ after, fixup (closed.pstrBegin - closed.pBegin - (closed.pstrBegin - closed.pstr)) (2 ^ 30)
        closed.pBegin (splice closed.mem (closed.pBegin + (closed.p - closed.pBegin))
          (slice closed.mem closed.pstr (closed.pstrBegin - closed.pstr))) = (true, after) ∧
      HasBytes after (anchor blob) (encode (indexIn (namesOf calls)) calls ++ wordBytes ofDtEnd) ∧
      HasBytes after (anchor blob + (structSize calls + 4)) (table (namesOf calls)) ∧
      ∀ address, address < anchor blob ∨ blob.maxSize ≤ address →
        after address = (ftBegin blob mem).mem address := by
  obtain ⟨structEnd, strings, fits⟩ := closed_parts holds
  have small := blob.small
  have place := pres_begin_eq blob
  have named : slice closed.mem closed.pstr (stringsSize calls) = table (namesOf calls) :=
    slice_of_has holds.strings
  have size : (encode (posBefore blob calls) calls ++ wordBytes ofDtEnd).length =
      structSize calls + 4 := by
    rw [List.length_append, encode_length, word_bytes_length]
  have total : anchor blob + structSize calls + 4 + (table (namesOf calls)).length ≤
      blob.maxSize := fits
  have body : HasBytes (splice closed.mem (anchor blob + (structSize calls + 4))
      (table (namesOf calls))) (anchor blob)
      (encode (posBefore blob calls) calls ++ wordBytes ofDtEnd) :=
    has_splice_apart holds.body (Or.inl (by rw [size]))
  have count := calls_le_struct calls
  obtain ⟨after, run, there, frame⟩ := fixup_calls calls (2 ^ 30) (anchor blob) _ body
    (by unfold anchor; omega) (by omega) (by omega) (moves_down fits)
  refine ⟨after, ?_, there, ?_, ?_⟩
  · rw [structEnd, strings, holds.pBegin, holds.pstrBegin, named]
    exact run
  · refine has_bytes_congr (has_splice closed.mem (anchor blob + (structSize calls + 4)) _) ?_
    intro address above _
    exact frame address (by omega)
  · intro address outside
    rw [frame address (by omega), splice_outside _ _ _ _ (by omega)]
    rcases outside with below | beyond
    · exact holds.header address below
    · exact holds.beyond address beyond

/-- A tree that ends in the buffer is finished. Its size is rounded up to sixteen bytes, and zeros
are written up to there, whether the buffer goes that far or not. -/
theorem built_fits (mem : Nat → UInt8) (fits : treeSize blob calls ≤ blob.maxSize) :
    (buildTree blob mem calls).1 = 0 ∧ FlatTree blob calls (buildTree blob mem calls).2.mem ∧
      ∀ address, blob.maxSize ≤ address → align (treeSize blob calls) 16 ≤ address →
        (buildTree blob mem calls).2.mem address = mem address := by
  rcases closed_fills blob mem calls with holds | spilled
  swap
  · have large := spilled.large
    rw [List.length_append, encode_length, word_bytes_length] at large
    unfold treeSize stringsSize at fits
    omega
  obtain ⟨after, fixed, body, strings, frame⟩ := fixed_tree holds
  obtain ⟨structEnd, stringsEnd, -⟩ := closed_parts holds
  obtain ⟨result, finished⟩ := end_tree_eq rfl holds.running fixed
  have size : anchor blob + (structSize calls + 4) + stringsSize calls = treeSize blob calls := by
    unfold treeSize
    omega
  rw [structEnd, stringsEnd, holds.pBegin, size] at finished
  have small := blob.small
  have place := pres_begin_eq blob
  have rounded := align_sixteen (treeSize blob calls)
  have bounds : anchor blob + structSize calls + 4 + (table (namesOf calls)).length =
      treeSize blob calls := rfl
  have high : 52 ≤ anchor blob := by
    unfold anchor
    omega
  -- in front of the anchor only the three words have changed
  have kept : ∀ address, address < 4 ∨ 16 ≤ address → address < anchor blob →
      (buildTree blob mem calls).2.mem address = (ftBegin blob mem).mem address := by
    intro address header below
    rw [buildTree, finished, finish_apart _ _ _ _ _ header (Or.inl (by omega))]
    exact frame address (Or.inl below)
  have behind : ∀ address, anchor blob ≤ address → address < treeSize blob calls →
      (buildTree blob mem calls).2.mem address = after address := by
    intro address above below
    rw [buildTree, finished, finish_apart _ _ _ _ _ (Or.inr (by omega)) (Or.inl below)]
  obtain ⟨magic, offset, version, lastCompVersion, reserved⟩ := begin_header blob mem
  obtain ⟨totalsize, structWord, stringsWord⟩ := finish_words after (treeSize blob calls)
    (anchor blob) (anchor blob + (structSize calls + 4)) (by omega) (by omega) (by omega)
  rw [← finished] at totalsize structWord stringsWord
  have wordKept : ∀ other, other < 1 ∨ 16 ≤ other → other + 4 ≤ anchor blob →
      word (buildTree blob mem calls).2.mem other = word (ftBegin blob mem).mem other :=
    fun other header below =>
      word_congr fun i bound => kept (other + i) (by omega) (by omega)
  have reserveWord := (wordKept 16 (by omega) (by omega)).trans offset
  refine ⟨result, ⟨?_, totalsize, ?_, ?_, ?_, ?_, ?_, ?_⟩, ?_⟩
  · exact (wordKept 0 (by omega) (by omega)).trans magic
  · exact (wordKept 20 (by omega) (by omega)).trans version
  · exact (wordKept 24 (by omega) (by omega)).trans lastCompVersion
  · rw [reserveWord]
    refine has_bytes_congr reserved fun address above below => kept address (by omega) ?_
    rw [zeros, List.length_replicate] at below
    exact below
  · rw [show word (buildTree blob mem calls).2.mem 8 = anchor blob from structWord]
    refine has_bytes_congr body fun address above below => behind address above ?_
    rw [List.length_append, encode_length, word_bytes_length] at below
    omega
  · rw [show word (buildTree blob mem calls).2.mem 12 = _ from stringsWord]
    exact has_bytes_congr strings fun address above below => behind address (by omega) (by omega)
  · rw [show word (buildTree blob mem calls).2.mem 8 = anchor blob from structWord]
    unfold anchor
    omega
  · intro address beyond far
    rw [buildTree, finished, finish_apart _ _ _ _ _ (Or.inr (by omega)) (Or.inr far),
      frame address (Or.inr beyond)]
    exact begin_beyond blob mem (by omega)

/-- A tree that does not end in the buffer is reported, and the buffer is all that has been written
if the header ends in it. -/
theorem built_spilled (mem : Nat → UInt8) (large : blob.maxSize < treeSize blob calls) :
    (buildTree blob mem calls).1 < 0 ∧ ∀ address, blob.maxSize ≤ address →
      (buildTree blob mem calls).2.mem address = (ftBegin blob mem).mem address := by
  rcases closed_fills blob mem calls with holds | spilled
  · have fits := (closed_parts holds).fits
    omega
  · have reported : buildTree blob mem calls =
        (-12, ftPutWord (calls.foldl ftCall (ftBeginTree blob (ftBegin blob mem))) ofDtEnd) := by
      rw [buildTree, ftEndTree]
      exact if_pos spilled.overflow
    rw [reported]
    exact ⟨show (-12 : Int) < 0 by decide, spilled.beyond⟩

end Build

end UBoot.Fdt.FtTree
