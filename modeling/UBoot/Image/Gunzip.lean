import UBoot.Library.Memory

/-!
gunzip of common/cmd_bootm.c: the header of the gzip format, and the result of inflate. inflate of
lib_generic/zlib.c is known by what it is called with and what its return codes say.
-/

namespace UBoot.Image.Gunzip

open Library.Memory

def HEAD_CRC : UInt8 := 2
def EXTRA_FIELD : UInt8 := 4
def ORIG_NAME : UInt8 := 8
def COMMENT : UInt8 := 0x10
def RESERVED : UInt8 := 0xe0
def DEFLATED : UInt8 := 8

def Z_OK : Int := 0
def Z_STREAM_END : Int := 1

structure Inflated where
  code : Int
  output : List UInt8

/-- inflate with Z_FINISH, given all of its input and the room for the output. `decodes input output`
says that the input begins with a complete stream of those bytes, and `stops` that it makes progress,
but the input or the room is at its end before the stream is. -/
structure Inflate where
  run : (input : List UInt8) → (space : Nat) → Inflated
  decodes : (input output : List UInt8) → Prop
  stops : (input : List UInt8) → (space : Nat) → Prop
  complete : ∀ input output space, decodes input output → output.length ≤ space →
    (run input space).code = Z_STREAM_END
  ended : ∀ input space, (run input space).code = Z_STREAM_END →
    decodes input (run input space).output ∧ (run input space).output.length ≤ space
  stopped : ∀ input space, (run input space).code = Z_OK ↔ stops input space

/-- The memory from `src` on, and `*lenp`. An int counts through the buffer. -/
structure Source where
  memory : Nat → UInt8
  len : Nat
  fits : len < 2 ^ 31

/-- The return value, `*lenp` behind the call, and the ranges that were read, as offsets from `src`. -/
structure Outcome where
  value : Int
  len : Nat
  reads : List (Nat × Nat)

/-- `while (src[i++] != 0)`, until the int is at its end. -/
def skipString (memory : Nat → UInt8) : (fuel i : Nat) → Option Nat
  | 0, _ => none
  | fuel + 1, i => if memory i = 0 then some (i + 1) else skipString memory fuel (i + 1)

/-- The loop, if the flag says that the string is there, with what it reads. -/
def skipField (memory : Nat → UInt8) (flag : Bool) (i : Nat) (reads : List (Nat × Nat)) :
    Option (Nat × List (Nat × Nat)) :=
  if flag then (skipString memory (2 ^ 31) i).map fun next => (next, reads ++ [(i, next)])
  else some (i, reads)

/-- The length of the extra field, if it is there. -/
def skipExtra (memory : Nat → UInt8) (flag : Bool) (reads : List (Nat × Nat)) : Nat × List (Nat × Nat) :=
  if flag then (12 + (memory 10).toNat + (memory 11).toNat * 2 ^ 8, reads ++ [(10, 12)])
  else (10, reads)

/-- What follows the header, with the stream at `start`. -/
def inflateFrom (inflate : Inflate) (initialized : Int) (src : Source) (dstlen start : Nat)
    (reads : List (Nat × Nat)) : Outcome :=
  if src.len ≤ start then ⟨-1, src.len, reads⟩
  else if initialized ≠ Z_OK then ⟨-1, src.len, reads⟩
  else
    let inflated := inflate.run (slice src.memory start (src.len - start)) dstlen
    if inflated.code ≠ Z_OK ∧ inflated.code ≠ Z_STREAM_END then
      ⟨-1, src.len, reads ++ [(start, src.len)]⟩
    else ⟨0, inflated.output.length, reads ++ [(start, src.len)]⟩

def gunzip (inflate : Inflate) (initialized : Int) (src : Source) (dstlen : Nat) : Option Outcome :=
  let flags := src.memory 3
  let reads := [(3, 4), (2, 3)]
  if src.memory 2 ≠ DEFLATED ∨ flags &&& RESERVED ≠ 0 then some ⟨-1, src.len, reads⟩
  else
    let (i, reads) := skipExtra src.memory (flags &&& EXTRA_FIELD ≠ 0) reads
    match skipField src.memory (flags &&& ORIG_NAME ≠ 0) i reads with
    | none => none
    | some (i, reads) =>
        match skipField src.memory (flags &&& COMMENT ≠ 0) i reads with
        | none => none
        | some (i, reads) =>
            let i := if flags &&& HEAD_CRC ≠ 0 then i + 2 else i
            some (inflateFrom inflate initialized src dstlen i reads)

/-! ### The format -/

def Source.bytes (src : Source) : List UInt8 := slice src.memory 0 src.len

/-- Where the string from a place on ends, if it does. -/
def stringEnd (bytes : List UInt8) (i : Nat) : Option Nat :=
  ((bytes.drop i).idxOf? 0).map fun place => i + place + 1

def extraEnd (bytes : List UInt8) : Option Nat :=
  Option.map₂ (fun low high => 12 + low.toNat + high.toNat * 2 ^ 8) bytes[10]? bytes[11]?

def optional (flag : Bool) (field : Nat → Option Nat) (i : Nat) : Option Nat :=
  if flag then field i else some i

/-- The method is deflate, and no reserved flag is set. -/
def accepted (bytes : List UInt8) : Prop := bytes[2]? = some DEFLATED ∧ ∃ flags, bytes[3]? = some flags ∧
  flags &&& RESERVED = 0

/-- The end of the fields that are read, if they are all there. -/
def fieldsEnd (bytes : List UInt8) : Option Nat :=
  match bytes[3]? with
  | none => none
  | some flags =>
      (optional (flags &&& EXTRA_FIELD ≠ 0) (fun _ => extraEnd bytes) 10).bind fun i =>
        (optional (flags &&& ORIG_NAME ≠ 0) (stringEnd bytes) i).bind
          (optional (flags &&& COMMENT ≠ 0) (stringEnd bytes))

/-- The header, as far as it is read, is in the buffer. -/
def HeaderInside (bytes : List UInt8) : Prop :=
  4 ≤ bytes.length ∧ (accepted bytes → (fieldsEnd bytes).isSome)

/-- What is behind the header, if there is anything. -/
def payload (bytes : List UInt8) : Option (List UInt8) :=
  match bytes[3]?, fieldsEnd bytes with
  | some flags, some i =>
      let start := if flags &&& HEAD_CRC ≠ 0 then i + 2 else i
      if bytes.length ≤ start then none else some (bytes.drop start)
  | _, _ => none

/-- A complete stream behind an accepted header, which fits. -/
def Decoded (inflate : Inflate) (bytes : List UInt8) (dstlen : Nat) (output : List UInt8) : Prop :=
  accepted bytes ∧ ∃ stream, payload bytes = some stream ∧ inflate.decodes stream output ∧
    output.length ≤ dstlen

/-- Only the buffer is read, 0 is returned for a complete stream that fits and for no other, with its
length, and everything else is an error. -/
structure Gunzipped (inflate : Inflate) (src : Source) (dstlen : Nat) (outcome : Outcome) : Prop where
  inside : ∀ range ∈ outcome.reads, ∀ place, range.1 ≤ place → place < range.2 → place < src.len
  success : outcome.value = 0 → ∃ output, Decoded inflate src.bytes dstlen output ∧
    outcome.len = output.length
  failure : (¬ ∃ output, Decoded inflate src.bytes dstlen output) → outcome.value = -1

/-! ### The strings -/

/-- A zero stands in front of `stop`, and none between `start` and that. -/
def Ends (memory : Nat → UInt8) (start stop : Nat) : Prop :=
  start < stop ∧ memory (stop - 1) = 0 ∧ ∀ place, start ≤ place → place < stop - 1 → memory place ≠ 0

section Strings
variable {memory : Nat → UInt8} {i j : Nat}

theorem skip_string_iff (fuel : Nat) :
    skipString memory fuel i = some j ↔ Ends memory i j ∧ j ≤ i + fuel := by
  induction fuel generalizing i with
  | zero =>
      refine iff_of_false (fun found => nomatch found) ?_
      rintro ⟨ends, bound⟩
      exact absurd ends.1 (Nat.not_lt.mpr bound)
  | succ fuel inductive_hypothesis =>
      rw [skipString]
      by_cases zero : memory i = 0
      · rw [if_pos zero, Option.some_inj]
        constructor
        · rintro rfl
          exact ⟨⟨Nat.lt_succ_self i, zero, fun place above below => by omega⟩, by omega⟩
        · rintro ⟨⟨above, _, plain⟩, _⟩
          by_contra other
          exact plain i (Nat.le_refl i) (by omega) zero
      · rw [if_neg zero, inductive_hypothesis]
        constructor
        · rintro ⟨⟨above, ends, plain⟩, bound⟩
          refine ⟨⟨by omega, ends, fun place from_here below => ?_⟩, by omega⟩
          rcases Nat.eq_or_lt_of_le from_here with rfl | later
          · exact zero
          · exact plain place later below
        · rintro ⟨⟨above, ends, plain⟩, bound⟩
          have further : i + 1 ≠ j := by
            rintro rfl
            exact zero ends
          exact ⟨⟨by omega, ends, fun place from_here below => plain place (by omega) below⟩, by omega⟩

theorem bytes_getElem (src : Source) (place : Nat) :
    src.bytes[place]? = if place < src.len then some (src.memory place) else none := by
  unfold Source.bytes slice
  by_cases inside : place < src.len
  · simp [inside]
  · simp [inside]

theorem string_end_iff (src : Source) : stringEnd src.bytes i = some j ↔
    Ends src.memory i j ∧ j ≤ src.len := by
  have byte : ∀ place (inside : place < (src.bytes.drop i).length),
      (src.bytes.drop i)[place] = src.memory (i + place) ∧ i + place < src.len := by
    intro place inside
    have found := List.getElem?_eq_getElem inside
    rw [List.getElem?_drop, bytes_getElem] at found
    split at found
    · rename_i below
      exact ⟨(Option.some.inj found).symm, below⟩
    · cases found
  have length : (src.bytes.drop i).length = src.len - i := by
    simp [Source.bytes]
  rw [stringEnd, Option.map_eq_some_iff]
  constructor
  · rintro ⟨place, found, rfl⟩
    obtain ⟨inside, zero, plain⟩ := List.idxOf?_eq_some_iff.mp found
    rw [(byte place inside).1] at zero
    refine ⟨⟨by omega, zero, fun other above below => ?_⟩, (byte place inside).2⟩
    have earlier := plain (other - i) (by omega)
    rwa [(byte (other - i) (by omega)).1, Nat.add_sub_cancel' above] at earlier
  · rintro ⟨⟨above, zero, plain⟩, bound⟩
    have inside : j - 1 - i < (src.bytes.drop i).length := by omega
    refine ⟨j - 1 - i, List.idxOf?_eq_some_iff.mpr ⟨inside, ?_, fun other below => ?_⟩, by omega⟩
    · rw [(byte _ inside).1, show i + (j - 1 - i) = j - 1 by omega]
      exact zero
    · rw [(byte other (by omega)).1]
      exact plain (i + other) (by omega) (by omega)

end Strings

/-! ### The reads -/

/-- The ranges are in the buffer. -/
def Inside (len : Nat) (reads : List (Nat × Nat)) : Prop :=
  ∀ range ∈ reads, ∀ place, range.1 ≤ place → place < range.2 → place < len

section Reads
variable {src : Source} {reads after : List (Nat × Nat)} {flag : Bool} {i j : Nat}

theorem inside_append {more : List (Nat × Nat)} :
    Inside src.len (reads ++ more) ↔ Inside src.len reads ∧ Inside src.len more :=
  List.forall_mem_append

theorem inside_single (bound : j ≤ src.len) : Inside src.len [(i, j)] := by
  intro range member place above below
  rw [List.mem_singleton.mp member] at below
  exact Nat.lt_of_lt_of_le below bound

theorem inside_end (inside : Inside src.len [(i, j)]) (some_read : i < j) : j ≤ src.len := by
  have last := inside (i, j) List.mem_cons_self (j - 1) (by dsimp only; omega) (by dsimp only; omega)
  omega

/-- A field that is in the buffer is skipped inside of it. -/
theorem skip_field_inside (ends : optional flag (stringEnd src.bytes) i = some j)
    (inside : Inside src.len reads) :
    ∃ after, skipField src.memory flag i reads = some (j, after) ∧ Inside src.len after := by
  unfold optional at ends
  unfold skipField
  cases flag with
  | false =>
      rw [if_neg Bool.false_ne_true] at ends ⊢
      cases ends
      exact ⟨reads, rfl, inside⟩
  | true =>
      rw [if_pos rfl] at ends ⊢
      obtain ⟨place, bound⟩ := (string_end_iff src).mp ends
      have small := src.fits
      have found := (skip_string_iff (2 ^ 31)).mpr ⟨place, by omega⟩
      rw [found]
      exact ⟨_, rfl, inside_append.mpr ⟨inside, inside_single bound⟩⟩

/-- A field that was skipped inside of the buffer is in it. -/
theorem field_of_skip (skipped : skipField src.memory flag i reads = some (j, after))
    (inside : Inside src.len after) :
    optional flag (stringEnd src.bytes) i = some j ∧ Inside src.len reads := by
  unfold skipField at skipped
  unfold optional
  cases flag with
  | false =>
      rw [if_neg Bool.false_ne_true] at skipped ⊢
      cases skipped
      exact ⟨rfl, inside⟩
  | true =>
      rw [if_pos rfl] at skipped ⊢
      obtain ⟨next, found, same⟩ := Option.map_eq_some_iff.mp skipped
      cases same
      obtain ⟨ends, _⟩ := (skip_string_iff (2 ^ 31)).mp found
      obtain ⟨before, here⟩ := inside_append.mp inside
      exact ⟨(string_end_iff src).mpr ⟨ends, inside_end here ends.1⟩, before⟩

theorem skip_extra_inside (ends : optional flag (fun _ => extraEnd src.bytes) 10 = some j)
    (inside : Inside src.len reads) :
    ∃ after, skipExtra src.memory flag reads = (j, after) ∧ Inside src.len after := by
  unfold optional at ends
  unfold skipExtra
  cases flag with
  | false =>
      rw [if_neg Bool.false_ne_true] at ends ⊢
      cases ends
      exact ⟨reads, rfl, inside⟩
  | true =>
      rw [if_pos rfl, extraEnd, bytes_getElem, bytes_getElem] at ends
      rw [if_pos rfl]
      by_cases bound : 11 < src.len
      · rw [if_pos (show 10 < src.len by omega), if_pos bound] at ends
        cases ends
        exact ⟨_, rfl, inside_append.mpr ⟨inside, inside_single bound⟩⟩
      · rw [if_neg bound, Option.map₂_none_right] at ends
        cases ends

theorem extra_of_skip (skipped : skipExtra src.memory flag reads = (j, after))
    (inside : Inside src.len after) :
    optional flag (fun _ => extraEnd src.bytes) 10 = some j ∧ Inside src.len reads := by
  unfold skipExtra at skipped
  unfold optional
  cases flag with
  | false =>
      rw [if_neg Bool.false_ne_true] at skipped ⊢
      cases skipped
      exact ⟨rfl, inside⟩
  | true =>
      rw [if_pos rfl] at skipped ⊢
      cases skipped
      obtain ⟨before, here⟩ := inside_append.mp inside
      have bound := inside_end here (by decide)
      refine ⟨?_, before⟩
      rw [extraEnd, bytes_getElem, bytes_getElem, if_pos (show 10 < src.len by omega),
        if_pos (show 11 < src.len by omega)]
      rfl

end Reads

/-! ### The outcome -/

section Outcomes
variable {inflate : Inflate} {initialized : Int} {src : Source} {dstlen : Nat}

theorem accepted_iff (four : 4 ≤ src.len) : accepted src.bytes ↔
    src.memory 2 = DEFLATED ∧ src.memory 3 &&& RESERVED = 0 := by
  rw [accepted, bytes_getElem, bytes_getElem, if_pos (show 2 < src.len by omega),
    if_pos (show 3 < src.len by omega), Option.some_inj]
  simp

theorem gunzip_refused (refused : src.memory 2 ≠ DEFLATED ∨ src.memory 3 &&& RESERVED ≠ 0) :
    gunzip inflate initialized src dstlen = some ⟨-1, src.len, [(3, 4), (2, 3)]⟩ := by
  rw [gunzip]
  exact if_pos refused

theorem first_reads (four : 4 ≤ src.len) : Inside src.len [(3, 4), (2, 3)] := by
  intro range member place above below
  rcases List.mem_cons.mp member with rfl | member
  · exact Nat.lt_of_lt_of_le below four
  · rw [List.mem_singleton.mp member] at below
    exact Nat.lt_of_lt_of_le below (by dsimp only; omega)

/-- The call, when the header is in the buffer. -/
theorem gunzip_accepted (four : 4 ≤ src.len) (accept : accepted src.bytes) {i : Nat}
    (fields : fieldsEnd src.bytes = some i) :
    ∃ reads, Inside src.len reads ∧ gunzip inflate initialized src dstlen =
      some (inflateFrom inflate initialized src dstlen
        (if src.memory 3 &&& HEAD_CRC ≠ 0 then i + 2 else i) reads) := by
  have plain := (accepted_iff four).mp accept
  rw [fieldsEnd, bytes_getElem, if_pos (show 3 < src.len by omega)] at fields
  obtain ⟨first, extra, fields⟩ := Option.bind_eq_some_iff.mp fields
  obtain ⟨second, name, comment⟩ := Option.bind_eq_some_iff.mp fields
  obtain ⟨reads, skipped, inside⟩ := skip_extra_inside extra (first_reads four)
  obtain ⟨after, named, within⟩ := skip_field_inside name inside
  obtain ⟨last, commented, whole⟩ := skip_field_inside comment within
  refine ⟨last, whole, ?_⟩
  rw [gunzip, if_neg (by rw [not_or, not_not, not_not]; exact plain), skipped]
  dsimp only
  rw [named]
  dsimp only
  rw [commented]

theorem bytes_length (src : Source) : src.bytes.length = src.len := slice_length _ _ _

theorem inflate_from_reads {start : Nat} {reads : List (Nat × Nat)}
    (inside : Inside src.len (inflateFrom inflate initialized src dstlen start reads).reads) :
    Inside src.len reads := by
  unfold inflateFrom at inside
  split at inside
  · exact inside
  · split at inside
    · exact inside
    · dsimp only at inside
      split at inside
      · exact (inside_append.mp inside).1
      · exact (inside_append.mp inside).1

/-- Whoever reads only the buffer finds the header in it. -/
theorem header_of_inside {outcome : Outcome} (run : gunzip inflate initialized src dstlen = some outcome)
    (inside : Inside src.len outcome.reads) : HeaderInside src.bytes := by
  by_cases refused : src.memory 2 ≠ DEFLATED ∨ src.memory 3 &&& RESERVED ≠ 0
  · rw [gunzip_refused refused] at run
    cases run
    have four : 4 ≤ src.len := inside_end (fun range member => inside range (List.mem_cons.mpr
      (.inl (List.mem_singleton.mp member)))) (by decide)
    refine ⟨by rw [bytes_length]; exact four, fun accept => ?_⟩
    have plain := (accepted_iff four).mp accept
    rcases refused with method | flags
    · exact absurd plain.1 method
    · exact absurd plain.2 flags
  · rw [gunzip, if_neg refused] at run
    cases skipped : skipExtra src.memory (src.memory 3 &&& EXTRA_FIELD ≠ 0) [(3, 4), (2, 3)] with
    | mk first reads =>
        rw [skipped] at run
        dsimp only at run
        split at run
        · cases run
        · rename_i second after named
          split at run
          · cases run
          · rename_i third last commented
            cases run
            have whole := inflate_from_reads inside
            obtain ⟨comment, within⟩ := field_of_skip commented whole
            obtain ⟨name, before⟩ := field_of_skip named within
            obtain ⟨extra, start⟩ := extra_of_skip skipped before
            have four : 4 ≤ src.len := inside_end (fun range member => start range (List.mem_cons.mpr
              (.inl (List.mem_singleton.mp member)))) (by decide)
            refine ⟨by rw [bytes_length]; exact four, fun _ => ?_⟩
            rw [fieldsEnd, bytes_getElem, if_pos (show 3 < src.len by omega)]
            dsimp only
            rw [extra, Option.bind_some, name, Option.bind_some, comment]
            rfl

theorem bytes_drop {start : Nat} (inside : start ≤ src.len) :
    src.bytes.drop start = slice src.memory start (src.len - start) := by
  have parts := slice_add src.memory 0 start (src.len - start)
  rw [Nat.add_sub_cancel' inside, Nat.zero_add] at parts
  rw [Source.bytes, parts, List.drop_left' (slice_length _ _ _)]

theorem payload_eq (four : 4 ≤ src.len) {i : Nat} (fields : fieldsEnd src.bytes = some i) :
    payload src.bytes =
      if src.len ≤ (if src.memory 3 &&& HEAD_CRC ≠ 0 then i + 2 else i) then none
      else some (src.bytes.drop (if src.memory 3 &&& HEAD_CRC ≠ 0 then i + 2 else i)) := by
  rw [payload, fields, bytes_getElem, if_pos (show 3 < src.len by omega), bytes_length]

/-- The outcome behind an accepted header is right exactly where inflate does not stop with Z_OK. -/
theorem inflate_from_iff {start : Nat} {reads : List (Nat × Nat)} (inside : Inside src.len reads)
    (accept : accepted src.bytes)
    (behind : payload src.bytes =
      if src.len ≤ start then none else some (src.bytes.drop start)) :
    Gunzipped inflate src dstlen (inflateFrom inflate initialized src dstlen start reads) ↔
      (initialized = Z_OK → ∀ stream, payload src.bytes = some stream → ¬ inflate.stops stream dstlen) := by
  have refused : ∀ last, Inside src.len last → Gunzipped inflate src dstlen ⟨-1, src.len, last⟩ :=
    fun last within => ⟨within, fun zero => absurd zero (show (-1 : Int) ≠ 0 by decide), fun _ => rfl⟩
  rw [inflateFrom]
  by_cases short : src.len ≤ start
  · rw [if_pos short] at behind ⊢
    refine iff_of_true (refused reads inside) fun _ stream some_stream => ?_
    rw [behind] at some_stream
    cases some_stream
  · rw [if_neg short] at behind ⊢
    by_cases failed : initialized ≠ Z_OK
    · rw [if_pos failed]
      exact iff_of_true (refused reads inside) fun ready => absurd ready failed
    · rw [if_neg failed, ← bytes_drop (by omega)]
      generalize src.bytes.drop start = stream at behind ⊢
      have whole : Inside src.len (reads ++ [(start, src.len)]) :=
        inside_append.mpr ⟨inside, inside_single (Nat.le_refl _)⟩
      have only : (initialized = Z_OK → ∀ other, payload src.bytes = some other →
          ¬ inflate.stops other dstlen) ↔ ¬ inflate.stops stream dstlen := by
        rw [behind]
        constructor
        · exact fun never => never (not_not.mp failed) stream rfl
        · rintro never _ other ⟨⟩
          exact never
      rw [only, ← inflate.stopped]
      dsimp only
      by_cases error : (inflate.run stream dstlen).code ≠ Z_OK ∧
          (inflate.run stream dstlen).code ≠ Z_STREAM_END
      · rw [if_pos error]
        exact iff_of_true (refused _ whole) error.1
      · rw [if_neg error]
        constructor
        · intro good stops
          obtain ⟨output, ⟨_, other, found, decodes, room⟩, _⟩ := good.success rfl
          cases behind.symm.trans found
          have complete := inflate.complete stream output dstlen decodes room
          exact absurd (stops.symm.trans complete) (by decide)
        · intro never
          have ended : (inflate.run stream dstlen).code = Z_STREAM_END := by
            by_contra other
            exact error ⟨never, other⟩
          obtain ⟨decodes, room⟩ := inflate.ended stream dstlen ended
          have decoded : Decoded inflate src.bytes dstlen (inflate.run stream dstlen).output :=
            ⟨accept, stream, behind, decodes, room⟩
          exact ⟨whole, fun _ => ⟨_, decoded, rfl⟩, fun missing => absurd ⟨_, decoded⟩ missing⟩

/-- gunzip reads only the buffer, and its return value says whether the stream was decoded to its end,
exactly where the header fields that it skips end in the buffer and inflate does not stop with Z_OK. -/
theorem gunzip_iff (inflate : Inflate) (initialized : Int) (src : Source) (dstlen : Nat) :
    (∃ outcome, gunzip inflate initialized src dstlen = some outcome ∧
        Gunzipped inflate src dstlen outcome) ↔
      HeaderInside src.bytes ∧ (accepted src.bytes → initialized = Z_OK →
        ∀ stream, payload src.bytes = some stream → ¬ inflate.stops stream dstlen) := by
  have split : HeaderInside src.bytes → ((∃ outcome, gunzip inflate initialized src dstlen =
        some outcome ∧ Gunzipped inflate src dstlen outcome) ↔
      (accepted src.bytes → initialized = Z_OK →
        ∀ stream, payload src.bytes = some stream → ¬ inflate.stops stream dstlen)) := by
    rintro ⟨four, fields⟩
    rw [bytes_length] at four
    by_cases accept : accepted src.bytes
    · obtain ⟨i, ends⟩ := Option.isSome_iff_exists.mp (fields accept)
      obtain ⟨reads, inside, run⟩ := @gunzip_accepted inflate initialized src dstlen four accept i ends
      rw [run, forall_prop_of_true accept,
        ← inflate_from_iff inside accept (payload_eq four ends)]
      simp
    · have refused : src.memory 2 ≠ DEFLATED ∨ src.memory 3 &&& RESERVED ≠ 0 := by
        rw [accepted_iff four, not_and_or] at accept
        exact accept
      refine iff_of_true ⟨_, gunzip_refused refused, ?_⟩ fun plain => absurd plain accept
      refine ⟨?_, fun zero => absurd zero (show (-1 : Int) ≠ 0 by decide), fun _ => rfl⟩
      exact first_reads four
  constructor
  · rintro ⟨outcome, run, good⟩
    have header := header_of_inside run good.inside
    exact ⟨header, (split header).mp ⟨outcome, run, good⟩⟩
  · rintro ⟨header, never⟩
    exact (split header).mpr never

end Outcomes

/-! ### A stream cut off -/

/-- inflate on one stored block. -/
def storedRun (input : List UInt8) (space : Nat) : Inflated :=
  match input with
  | 1 :: low :: high :: lowCheck :: highCheck :: data =>
      let count := low.toNat + 256 * high.toNat
      if lowCheck ≠ ~~~low ∨ highCheck ≠ ~~~high then ⟨-3, []⟩
      else if data.length < count ∨ space < count then ⟨Z_OK, data.take (min count space)⟩
      else ⟨Z_STREAM_END, data.take count⟩
  | _ => ⟨-3, []⟩

def StoredBlock (input output : List UInt8) : Prop :=
  ∃ low high data, input = 1 :: low :: high :: ~~~low :: ~~~high :: data ∧
    low.toNat + 256 * high.toNat ≤ data.length ∧ output = data.take (low.toNat + 256 * high.toNat)

def storedInflate : Inflate where
  run := storedRun
  decodes := StoredBlock
  stops input space := (storedRun input space).code = Z_OK
  complete := by
    rintro input output space ⟨low, high, data, rfl, within, rfl⟩ room
    rw [List.length_take_of_le within] at room
    simp only [storedRun]
    rw [if_neg (by simp), if_neg (by omega)]
  ended := by
    intro input space ended
    unfold storedRun at ended ⊢
    split at ended
    · rename_i low high lowCheck highCheck data
      dsimp only at ended ⊢
      split at ended
      · exact absurd ended (by decide)
      · rename_i checked
        split at ended
        · exact absurd ended (show Z_OK ≠ Z_STREAM_END by decide)
        · rename_i enough
          rw [if_neg checked, if_neg enough]
          have same : lowCheck = ~~~low ∧ highCheck = ~~~high := by simpa using checked
          have within : low.toNat + 256 * high.toNat ≤ data.length := by omega
          refine ⟨⟨low, high, data, by rw [same.1, same.2], within, rfl⟩, ?_⟩
          rw [List.length_take_of_le within]
          omega
    · exact absurd ended (by decide)
  stopped _ _ := Iff.rfl

/-- Two of the five bytes of a stored block. -/
def halfStream : Source where
  memory i := ([0x1f, 0x8b, 8, 0, 0, 0, 0, 0, 0, 3, 1, 5, 0, 250, 255, 104, 97] : List UInt8).getD i 0
  len := 17
  fits := by decide

/-- The two bytes are given as the whole. -/
theorem half_stream_succeeds : ¬ ∃ outcome, gunzip storedInflate Z_OK halfStream 100 = some outcome ∧
    Gunzipped storedInflate halfStream 100 outcome := by
  rintro ⟨outcome, run, good⟩
  have result : gunzip storedInflate Z_OK halfStream 100 =
      some ⟨0, 2, [(3, 4), (2, 3), (10, 17)]⟩ := rfl
  cases result.symm.trans run
  obtain ⟨output, ⟨_, stream, found, decodes, _⟩, _⟩ := good.success rfl
  have behind : payload halfStream.bytes = some [1, 5, 0, 250, 255, 104, 97] := rfl
  cases behind.symm.trans found
  obtain ⟨low, high, data, same, within, _⟩ := decodes
  cases same
  exact absurd within (by decide)

def wholeStream : Source where
  memory i :=
    ([0x1f, 0x8b, 8, 8, 0, 0, 0, 0, 0, 3, 97, 0, 1, 2, 0, 253, 255, 104, 97] : List UInt8).getD i 0
  len := 19
  fits := by decide

theorem whole_stream_decoded : ∃ outcome, gunzip storedInflate Z_OK wholeStream 100 = some outcome ∧
    Gunzipped storedInflate wholeStream 100 outcome := by
  refine (gunzip_iff storedInflate Z_OK wholeStream 100).mpr ⟨⟨by decide, fun _ => rfl⟩, ?_⟩
  intro _ _ stream found stops
  have behind : payload wholeStream.bytes = some [1, 2, 0, 253, 255, 104, 97] := rfl
  cases behind.symm.trans found
  exact absurd stops (show Z_STREAM_END ≠ Z_OK by decide)

end UBoot.Image.Gunzip
