import Mathlib.Data.UInt
import Mathlib.Tactic

/-!
lib_generic/LzmaWrapper.c: lzma_inflate and the position `rpos` that its reader
keeps in static storage. Pointers, `size_t` and `SizeT` have 32 bits. LzmaDecode
is a parameter; what it is asked for is recorded in the result of a call.
-/

namespace UBoot.Image.LzmaWrapper

abbrev Address := UInt32

structure Call where
  memory : Address → UInt8
  source : Address
  sLen : Int32
  dest : Address
  /-- The pointer `d_len`. -/
  dLen : Address
  /-- `*d_len` before the call. -/
  capacity : Int32
  /-- Whether malloc finds this many bytes. -/
  malloc : Nat → Bool

structure CLzmaProperties where
  lc : Nat
  lp : Nat
  pb : Nat
deriving DecidableEq

/-- The arguments of LzmaDecode. -/
structure Request where
  properties : CLzmaProperties
  inStream : Address
  inSize : UInt32
  outStream : Address
  outSize : UInt32
deriving DecidableEq

/-- What LzmaDecode returns and leaves in `outStream` and `*outSizeProcessed`. -/
structure Decoded where
  res : Int
  output : List UInt8
  outProcessed : UInt32

abbrev Decoder := (Address → UInt8) → Request → Decoded

structure Result where
  code : Int
  output : List UInt8
  dLen : Int32
  asked : Option Request

def lzmaPropertiesSize : Nat := 5

def lzmaBaseSize : Nat := 1846

def lzmaLitSize : Nat := 768

def lzmaDecodeProperties (propsData : List UInt8) (size : Nat) : Option CLzmaProperties :=
  if size < lzmaPropertiesSize then none
  else
    let prop0 := (propsData.headD 0).toNat
    if prop0 ≥ 9 * 5 * 5 then none
    -- The loops of the source count how often 45 and then 9 go into prop0.
    else some ⟨prop0 % (9 * 5) % 9, prop0 % (9 * 5) / 9, prop0 / (9 * 5)⟩

def lzmaGetNumProbs (properties : CLzmaProperties) : Nat :=
  lzmaBaseSize + lzmaLitSize <<< (properties.lc + properties.lp)

def myReadFileAndCheck (call : Call) (rpos : UInt32) (size : Nat) :
    Option (List UInt8 × UInt32) :=
  if size = 0 then none
  else some ((List.range size).map fun i => call.memory (call.source + rpos + UInt32.ofNat i),
    rpos + UInt32.ofNat size)

structure SizeField where
  waitEOS : Bool
  outSize : UInt32
  outSizeHigh : UInt32

def sizeStep (field : SizeField) (i : Nat) (b : UInt8) : SizeField :=
  { waitEOS := if b ≠ 0xFF then false else field.waitEOS
    outSize :=
      if i < 4 then field.outSize + b.toUInt32 <<< UInt32.ofNat (i * 8) else field.outSize
    outSizeHigh :=
      if i < 4 then field.outSizeHigh
      else field.outSizeHigh + b.toUInt32 <<< UInt32.ofNat ((i - 4) * 8) }

/-- The loop over the eight size bytes, from byte `i` on. -/
def readSize (call : Call) : (count i : Nat) → UInt32 → SizeField → Option (SizeField × UInt32)
  | 0, _, rpos, field => some (field, rpos)
  | count + 1, i, rpos, field =>
      match myReadFileAndCheck call rpos 1 with
      | none => none
      | some (b, rpos) => readSize call count (i + 1) rpos (sizeStep field i (b.headD 0))

structure Header where
  properties : List UInt8
  size : SizeField

def readHeader (call : Call) (rpos : UInt32) : Option (Header × UInt32) :=
  match myReadFileAndCheck call rpos lzmaPropertiesSize with
  | none => none
  | some (properties, rpos) =>
      match readSize call 8 0 rpos ⟨true, 0, 0⟩ with
      | none => none
      | some (size, rpos) => some (⟨properties, size⟩, rpos)

def dataError (call : Call) : Result := ⟨1, [], call.capacity, none⟩

def compressedSize (call : Call) : UInt32 :=
  call.sLen.toUInt32 - (UInt32.ofNat lzmaPropertiesSize + 8)

def outStream (call : Call) (outSize : UInt32) : Address :=
  if outSize = 0 then 0
  -- The size is compared with the pointer.
  else if outSize > call.dLen then 0
  else call.dest

def inStream (call : Call) (rpos : UInt32) : Address :=
  if compressedSize call = 0 then 0
  else if compressedSize call + rpos > call.sLen.toUInt32 then 0
  else call.source + rpos

def decompress (decode : Decoder) (call : Call) (request : Request) : Result :=
  let decoded := decode call.memory request
  if decoded.res ≠ 0 then ⟨1, decoded.output, call.capacity, some request⟩
  else ⟨0, decoded.output, decoded.outProcessed.toInt32, some request⟩

def setUp (call : Call) (rpos : UInt32) (outSize : UInt32) (properties : CLzmaProperties) :
    Option Request :=
  let probs := call.malloc (lzmaGetNumProbs properties * 2)
  if probs = false ∨ (outStream call outSize = 0 ∧ outSize ≠ 0) ∨
      (inStream call rpos = 0 ∧ compressedSize call ≠ 0) then none
  else some ⟨properties, inStream call rpos, compressedSize call, outStream call outSize, outSize⟩

/-- From the header to the call of LzmaDecode; `none` stands for an error exit. -/
def prepare (call : Call) (header : Header) (rpos : UInt32) : Option Request :=
  if header.size.waitEOS then none
  else if header.size.outSizeHigh ≠ 0 then none
  else
    match lzmaDecodeProperties header.properties lzmaPropertiesSize with
    | none => none
    | some properties => setUp call rpos header.size.outSize properties

/-- The result and `rpos` after the call. -/
def lzmaInflate (decode : Decoder) (rpos : UInt32) (call : Call) : Result × UInt32 :=
  match readHeader call rpos with
  | none => (dataError call, rpos)
  | some (header, rpos) =>
      match prepare call header rpos with
      | none => (dataError call, rpos)
      | some request => (decompress decode call request, rpos)

section Header

/-- The byte at an offset from the source. -/
def byteAt (call : Call) (offset : UInt32) : UInt8 := call.memory (call.source + offset)

/-- The size that the eight bytes from `start` on declare. -/
def declaredFrom (call : Call) (start : UInt32) : Nat :=
  ((List.range 8).map fun i => (byteAt call (start + UInt32.ofNat i)).toNat * 256 ^ i).sum

def sizeFrom (call : Call) (start : UInt32) : SizeField :=
  (List.range 8).foldl (fun field i => sizeStep field i (byteAt call (start + UInt32.ofNat i)))
    ⟨true, 0, 0⟩

def headerAt (call : Call) (rpos : UInt32) : Header :=
  { properties := (List.range lzmaPropertiesSize).map fun i => byteAt call (rpos + UInt32.ofNat i)
    size := sizeFrom call (rpos + 5) }

theorem read_one (call : Call) (rpos : UInt32) :
    myReadFileAndCheck call rpos 1 = some ([byteAt call rpos], rpos + 1) := by
  simp [myReadFileAndCheck, byteAt]

theorem read_size (call : Call) (rpos : UInt32) :
    readSize call 8 0 rpos ⟨true, 0, 0⟩ = some (sizeFrom call rpos, rpos + 8) := by
  simp only [readSize, read_one, sizeFrom, List.range_succ, List.range_zero, List.foldl_append,
    List.foldl_cons, List.foldl_nil, List.nil_append, List.headD_cons]
  have places : ∀ i : UInt32, rpos + i + 1 = rpos + (i + 1) := fun i => add_assoc rpos i 1
  simp [places]

theorem read_header (call : Call) (rpos : UInt32) :
    readHeader call rpos = some (headerAt call rpos, rpos + 13) := by
  have properties : myReadFileAndCheck call rpos lzmaPropertiesSize =
      some ((headerAt call rpos).properties, rpos + 5) := by
    simp [myReadFileAndCheck, headerAt, byteAt, lzmaPropertiesSize, add_assoc]
  simp only [readHeader, properties, read_size]
  simp [headerAt, add_assoc]

theorem shift_to_nat (b : UInt8) (place : UInt32) (small : place.toNat ≤ 24) :
    (b.toUInt32 <<< place).toNat = b.toNat * 2 ^ place.toNat := by
  have bound := b.toNat_lt
  have power : 2 ^ place.toNat ≤ 2 ^ 24 := Nat.pow_le_pow_right (by decide) small
  have fits : b.toNat * 2 ^ place.toNat < 2 ^ 32 :=
    calc b.toNat * 2 ^ place.toNat ≤ 255 * 2 ^ 24 := Nat.mul_le_mul (by omega) power
      _ < 2 ^ 32 := by decide
  rw [UInt32.toNat_shiftLeft, Nat.mod_eq_of_lt (show place.toNat < 32 by omega),
    Nat.shiftLeft_eq, UInt8.toNat_toUInt32, Nat.mod_eq_of_lt fits]

theorem word_to_nat (b₀ b₁ b₂ b₃ : UInt8) :
    (b₀.toUInt32 <<< 0 + b₁.toUInt32 <<< 8 + b₂.toUInt32 <<< 16 + b₃.toUInt32 <<< 24).toNat =
      b₀.toNat + b₁.toNat * 2 ^ 8 + b₂.toNat * 2 ^ 16 + b₃.toNat * 2 ^ 24 := by
  have bound₀ := b₀.toNat_lt
  have bound₁ := b₁.toNat_lt
  have bound₂ := b₂.toNat_lt
  have bound₃ := b₃.toNat_lt
  have first : (b₀.toUInt32 <<< (0 : UInt32)).toNat = b₀.toNat := by simp
  have second : (b₁.toUInt32 <<< (8 : UInt32)).toNat = b₁.toNat * 2 ^ 8 :=
    shift_to_nat b₁ 8 (by decide)
  have third : (b₂.toUInt32 <<< (16 : UInt32)).toNat = b₂.toNat * 2 ^ 16 :=
    shift_to_nat b₂ 16 (by decide)
  have fourth : (b₃.toUInt32 <<< (24 : UInt32)).toNat = b₃.toNat * 2 ^ 24 :=
    shift_to_nat b₃ 24 (by decide)
  rw [UInt32.toNat_add, UInt32.toNat_add, UInt32.toNat_add, first, second, third, fourth]
  omega

/-- The 32-bit word whose bytes start at an offset from the source. -/
def wordAt (call : Call) (start : UInt32) : Nat :=
  (byteAt call start).toNat + (byteAt call (start + 1)).toNat * 2 ^ 8 +
    (byteAt call (start + 2)).toNat * 2 ^ 16 + (byteAt call (start + 3)).toNat * 2 ^ 24

theorem size_low (call : Call) (start : UInt32) :
    (sizeFrom call start).outSize.toNat = wordAt call start := by
  unfold wordAt
  rw [← word_to_nat]
  simp [sizeFrom, sizeStep, List.range_succ, -UInt32.toNat_add]

theorem size_high (call : Call) (start : UInt32) :
    (sizeFrom call start).outSizeHigh.toNat = wordAt call (start + 4) := by
  unfold wordAt
  rw [← word_to_nat]
  simp [sizeFrom, sizeStep, List.range_succ, add_assoc, -UInt32.toNat_add]

theorem declared_split (call : Call) (start : UInt32) :
    declaredFrom call start =
      (sizeFrom call start).outSize.toNat + 2 ^ 32 * (sizeFrom call start).outSizeHigh.toNat := by
  rw [size_low, size_high]
  simp only [declaredFrom, wordAt, List.range_succ, List.range_zero, List.map_append, List.map_cons,
    List.map_nil, List.sum_append, List.sum_cons, List.sum_nil, List.nil_append, add_assoc,
    UInt32.reduceOfNat, UInt32.reduceAdd, UInt32.add_zero]
  ring

end Header

section Acceptance

def propertiesAt (call : Call) (rpos : UInt32) : CLzmaProperties :=
  let prop0 := (byteAt call rpos).toNat
  ⟨prop0 % 45 % 9, prop0 % 45 / 9, prop0 / 45⟩

/-- What a call that reaches LzmaDecode passes on the way. -/
structure Accepted (call : Call) (rpos : UInt32) : Prop where
  narrow : declaredFrom call (rpos + 5) < 2 ^ 32
  properties : (byteAt call rpos).toNat < 225
  probs : call.malloc (lzmaGetNumProbs (propertiesAt call rpos) * 2) = true
  output : declaredFrom call (rpos + 5) = 0 ∨
    (declaredFrom call (rpos + 5) ≤ call.dLen.toNat ∧ call.dest ≠ 0)
  input : compressedSize call = 0 ∨
    (compressedSize call + (rpos + 13) ≤ call.sLen.toUInt32 ∧ call.source + (rpos + 13) ≠ 0)

/-- What such a call asks for. -/
def requestAt (call : Call) (rpos : UInt32) : Request :=
  let outSize := UInt32.ofNat (declaredFrom call (rpos + 5))
  { properties := propertiesAt call rpos
    inStream := inStream call (rpos + 13)
    inSize := compressedSize call
    outStream := outStream call outSize
    outSize := outSize }

theorem out_stream_zero (call : Call) (outSize : UInt32) :
    ¬ (outStream call outSize = 0 ∧ outSize ≠ 0) ↔
      outSize = 0 ∨ (outSize ≤ call.dLen ∧ call.dest ≠ 0) := by
  unfold outStream
  by_cases empty : outSize = 0
  · simp [empty]
  · by_cases larger : outSize > call.dLen
    · simp [empty, larger, UInt32.not_le.mpr larger]
    · simp [empty, larger, UInt32.not_lt.mp larger]

theorem in_stream_zero (call : Call) (rpos : UInt32) :
    ¬ (inStream call rpos = 0 ∧ compressedSize call ≠ 0) ↔
      compressedSize call = 0 ∨
        (compressedSize call + rpos ≤ call.sLen.toUInt32 ∧ call.source + rpos ≠ 0) := by
  unfold inStream
  by_cases empty : compressedSize call = 0
  · simp [empty]
  · by_cases larger : compressedSize call + rpos > call.sLen.toUInt32
    · simp [empty, larger, UInt32.not_le.mpr larger]
    · simp [empty, larger, UInt32.not_lt.mp larger]

theorem wait_eos (call : Call) (start : UInt32) (waits : (sizeFrom call start).waitEOS = true) :
    (sizeFrom call start).outSizeHigh ≠ 0 := by
  have bytes : byteAt call (start + 4) = 255 := by
    by_contra other
    simp [sizeFrom, sizeStep, List.range_succ, other] at waits
  intro zero
  have high := size_high call start
  rw [zero] at high
  unfold wordAt at high
  rw [bytes] at high
  simp at high
  omega

theorem high_zero_iff (call : Call) (start : UInt32) :
    (sizeFrom call start).outSizeHigh = 0 ↔ declaredFrom call start < 2 ^ 32 := by
  have split := declared_split call start
  have low := (sizeFrom call start).outSize.toNat_lt
  constructor
  · intro zero
    rw [zero] at split
    simp at split
    omega
  · intro narrow
    apply UInt32.toNat_inj.mp
    show _ = 0
    omega

theorem out_size_eq (call : Call) (start : UInt32) (narrow : declaredFrom call start < 2 ^ 32) :
    (sizeFrom call start).outSize = UInt32.ofNat (declaredFrom call start) := by
  have zero := (high_zero_iff call start).mpr narrow
  have split := declared_split call start
  rw [zero] at split
  apply UInt32.toNat_inj.mp
  rw [UInt32.toNat_ofNat_of_lt' narrow]
  simpa using split.symm

theorem properties_decoded (call : Call) (rpos : UInt32) :
    lzmaDecodeProperties (headerAt call rpos).properties lzmaPropertiesSize =
      if (byteAt call rpos).toNat < 225 then some (propertiesAt call rpos) else none := by
  have first : (headerAt call rpos).properties.headD 0 = byteAt call rpos := by
    simp [headerAt, lzmaPropertiesSize, List.range_succ]
  unfold lzmaDecodeProperties
  rw [first]
  by_cases valid : (byteAt call rpos).toNat < 225
  · simp [valid, propertiesAt, lzmaPropertiesSize]
  · simp [valid, lzmaPropertiesSize]

theorem set_up_accepted (call : Call) (rpos : UInt32) (accepted : Accepted call rpos) :
    setUp call (rpos + 13) (UInt32.ofNat (declaredFrom call (rpos + 5))) (propertiesAt call rpos) =
      some (requestAt call rpos) := by
  unfold setUp requestAt
  have zero : declaredFrom call (rpos + 5) = 0 → UInt32.ofNat (declaredFrom call (rpos + 5)) = 0 :=
    fun empty => by rw [empty]; rfl
  have output : UInt32.ofNat (declaredFrom call (rpos + 5)) = 0 ∨
      (UInt32.ofNat (declaredFrom call (rpos + 5)) ≤ call.dLen ∧ call.dest ≠ 0) := by
    cases accepted.output with
    | inl empty => exact Or.inl (zero empty)
    | inr room =>
        refine Or.inr ⟨?_, room.2⟩
        rw [UInt32.le_iff_toNat_le, UInt32.toNat_ofNat_of_lt' accepted.narrow]
        exact room.1
  have probs := accepted.probs
  have opens := (out_stream_zero call _).mpr output
  have reads := (in_stream_zero call (rpos + 13)).mpr accepted.input
  rw [if_neg]
  rintro (noProbs | noOutput | noInput)
  · rw [probs] at noProbs
    cases noProbs
  · exact opens noOutput
  · exact reads noInput

theorem set_up_some (call : Call) (rpos : UInt32) (request : Request)
    (narrow : declaredFrom call (rpos + 5) < 2 ^ 32) (valid : (byteAt call rpos).toNat < 225)
    (reached : setUp call (rpos + 13) (UInt32.ofNat (declaredFrom call (rpos + 5)))
      (propertiesAt call rpos) = some request) : Accepted call rpos := by
  unfold setUp at reached
  rw [ite_eq_iff] at reached
  rcases reached with ⟨-, impossible⟩ | ⟨passes, -⟩
  · cases impossible
  · simp only [not_or] at passes
    obtain ⟨probs, opens, reads⟩ := passes
    refine ⟨narrow, valid, by simpa using probs, ?_, (in_stream_zero call (rpos + 13)).mp reads⟩
    cases (out_stream_zero call _).mp opens with
    | inl empty =>
        left
        have size := congrArg UInt32.toNat empty
        rwa [UInt32.toNat_ofNat_of_lt' narrow] at size
    | inr room =>
        right
        have size := UInt32.le_iff_toNat_le.mp room.1
        rw [UInt32.toNat_ofNat_of_lt' narrow] at size
        exact ⟨size, room.2⟩

theorem prepare_accepted (call : Call) (rpos : UInt32) (accepted : Accepted call rpos) :
    prepare call (headerAt call rpos) (rpos + 13) = some (requestAt call rpos) := by
  have high : (headerAt call rpos).size.outSizeHigh = 0 :=
    (high_zero_iff call (rpos + 5)).mpr accepted.narrow
  have bounded : (headerAt call rpos).size.waitEOS ≠ true :=
    fun waits => wait_eos call (rpos + 5) waits high
  have size : (headerAt call rpos).size.outSize = UInt32.ofNat (declaredFrom call (rpos + 5)) :=
    out_size_eq call (rpos + 5) accepted.narrow
  unfold prepare
  rw [if_neg bounded, if_neg (fun other => other high), properties_decoded,
    if_pos accepted.properties, size]
  exact set_up_accepted call rpos accepted

theorem prepare_some (call : Call) (rpos : UInt32) (request : Request)
    (reached : prepare call (headerAt call rpos) (rpos + 13) = some request) :
    Accepted call rpos := by
  unfold prepare at reached
  by_cases high : (headerAt call rpos).size.outSizeHigh = 0
  · have narrow := (high_zero_iff call (rpos + 5)).mp high
    have size : (headerAt call rpos).size.outSize = UInt32.ofNat (declaredFrom call (rpos + 5)) :=
      out_size_eq call (rpos + 5) narrow
    have bounded : (headerAt call rpos).size.waitEOS ≠ true :=
      fun waits => wait_eos call (rpos + 5) waits high
    rw [if_neg bounded, if_neg (fun other => other high), properties_decoded, size] at reached
    by_cases valid : (byteAt call rpos).toNat < 225
    · rw [if_pos valid] at reached
      exact set_up_some call rpos request narrow valid reached
    · rw [if_neg valid] at reached
      cases reached
  · rw [if_pos high, ite_self] at reached
    cases reached

end Acceptance

section Calls

theorem lzma_inflate_accepted (decode : Decoder) (rpos : UInt32) (call : Call)
    (accepted : Accepted call rpos) :
    lzmaInflate decode rpos call =
      (decompress decode call (requestAt call rpos), rpos + 13) := by
  simp only [lzmaInflate, read_header, prepare_accepted call rpos accepted]

theorem lzma_inflate_refused (decode : Decoder) (rpos : UInt32) (call : Call)
    (refused : ¬ Accepted call rpos) :
    lzmaInflate decode rpos call = (dataError call, rpos + 13) := by
  simp only [lzmaInflate, read_header]
  cases outcome : prepare call (headerAt call rpos) (rpos + 13) with
  | none => rfl
  | some request => exact absurd (prepare_some call rpos request outcome) refused

/-- Every call moves the reader by the length of a header, whatever it returns. -/
theorem lzma_inflate_rpos (decode : Decoder) (rpos : UInt32) (call : Call) :
    (lzmaInflate decode rpos call).2 = rpos + 13 := by
  by_cases accepted : Accepted call rpos
  · rw [lzma_inflate_accepted decode rpos call accepted]
  · rw [lzma_inflate_refused decode rpos call accepted]

theorem decompress_asked (decode : Decoder) (call : Call) (request : Request) :
    (decompress decode call request).asked = some request := by
  unfold decompress
  dsimp only
  split <;> rfl

end Calls

section Containment

/-- The input lies behind the header and inside the source. -/
def InBody (call : Call) (request : Request) : Prop :=
  13 ≤ (request.inStream - call.source).toNat ∧
    ((request.inStream - call.source).toNat + request.inSize.toNat : Int) ≤ call.sLen.toInt

structure Contained (call : Call) (result : Result) : Prop where
  writes : ∀ request, result.asked = some request →
    (request.outSize.toNat : Int) ≤ call.capacity.toInt
  reads : ∀ request, result.asked = some request →
    request.inSize = 0 ∨ InBody call request
  refuses : call.sLen.toInt < 13 ∨ call.capacity.toInt < declaredFrom call 5 →
    result.code ≠ 0 ∧ result.output = [] ∧ result.dLen = call.capacity

/-- RC_INIT reads five bytes before anything is decoded. -/
def NeedsInput (decode : Decoder) : Prop :=
  ∀ memory request, request.inSize = 0 →
    (decode memory request).res ≠ 0 ∧ (decode memory request).output = []

def Fits (call : Call) (rpos : UInt32) : Prop :=
  13 ≤ call.sLen.toInt ∧ (declaredFrom call (rpos + 5) : Int) ≤ call.capacity.toInt ∧
    (rpos = 0 ∨ call.sLen.toInt = 13)

theorem unsigned_to_nat (s : Int32) : (s.toUInt32.toNat : Int) = s.toInt % 2 ^ 32 := by
  have bound : s.toBitVec.toNat < 2 ^ 32 := s.toBitVec.isLt
  have signed : s.toInt = (s.toBitVec.toNat : Int).bmod (2 ^ 32) :=
    BitVec.toInt_eq_toNat_bmod s.toBitVec
  rw [signed]
  show (s.toBitVec.toNat : Int) = _
  rw [Int.bmod_def]
  omega

theorem compressed_size_long (call : Call) (long : 13 ≤ call.sLen.toInt) :
    ((compressedSize call).toNat : Int) = call.sLen.toInt - 13 := by
  have upper := call.sLen.toInt_lt
  have unsigned := unsigned_to_nat call.sLen
  simp only [compressedSize, lzmaPropertiesSize, UInt32.toNat_sub]
  simp
  omega

theorem compressed_size_zero (call : Call) :
    compressedSize call = 0 ↔ call.sLen.toInt = 13 := by
  have upper := call.sLen.toInt_lt
  have lower := call.sLen.le_toInt
  have unsigned := unsigned_to_nat call.sLen
  simp only [compressedSize, lzmaPropertiesSize]
  rw [sub_eq_zero, ← UInt32.toNat_inj]
  simp
  omega

/-- Where the input stands, counted from the source. -/
theorem input_offset (call : Call) (rpos : UInt32) (accepted : Accepted call rpos)
    (nonempty : compressedSize call ≠ 0) :
    (requestAt call rpos).inStream - call.source = rpos + 13 := by
  have room := accepted.input.resolve_left nonempty
  simp only [requestAt, inStream, if_neg nonempty, if_neg (UInt32.not_lt.mpr room.1)]
  exact add_sub_cancel_left call.source (rpos + 13)

theorem asked_size (call : Call) (rpos : UInt32) (accepted : Accepted call rpos) :
    (requestAt call rpos).outSize.toNat = declaredFrom call (rpos + 5) :=
  UInt32.toNat_ofNat_of_lt' accepted.narrow

/-- An input that stays in the body starts right behind the header at the source. -/
theorem in_body_iff (call : Call) (rpos : UInt32) (accepted : Accepted call rpos)
    (nonempty : compressedSize call ≠ 0) :
    InBody call (requestAt call rpos) ↔ 13 ≤ call.sLen.toInt ∧ rpos = 0 := by
  unfold InBody
  rw [input_offset call rpos accepted nonempty]
  have size : (requestAt call rpos).inSize = compressedSize call := rfl
  rw [size]
  constructor
  · rintro ⟨behind, inside⟩
    have long : 13 ≤ call.sLen.toInt := by omega
    have length := compressed_size_long call long
    have place : (rpos + 13).toNat = (13 : UInt32).toNat := by
      show (rpos + 13).toNat = 13
      omega
    refine ⟨long, ?_⟩
    exact add_eq_right.mp (UInt32.toNat_inj.mp place)
  · rintro ⟨long, start⟩
    have length := compressed_size_long call long
    rw [start, zero_add]
    show 13 ≤ 13 ∧ ((13 : Nat) + (compressedSize call).toNat : Int) ≤ call.sLen.toInt
    omega

theorem refused_contained (call : Call) : Contained call (dataError call) where
  writes := by
    intro request asked
    cases asked
  reads := by
    intro request asked
    cases asked
  refuses := by
    intro _
    exact ⟨one_ne_zero, rfl, rfl⟩

theorem contained_fits (decode : Decoder) (rpos : UInt32) (call : Call)
    (accepted : Accepted call rpos)
    (contained : Contained call (decompress decode call (requestAt call rpos))) :
    Fits call rpos := by
  have asked := decompress_asked decode call (requestAt call rpos)
  have writes := contained.writes _ asked
  rw [asked_size call rpos accepted] at writes
  by_cases empty : compressedSize call = 0
  · have short := (compressed_size_zero call).mp empty
    exact ⟨by omega, writes, Or.inr short⟩
  · have body := (contained.reads _ asked).resolve_left empty
    have place := (in_body_iff call rpos accepted empty).mp body
    exact ⟨place.1, writes, Or.inl place.2⟩

theorem fits_contained (decode : Decoder) (needs : NeedsInput decode) (rpos : UInt32) (call : Call)
    (accepted : Accepted call rpos) (fits : Fits call rpos) :
    Contained call (decompress decode call (requestAt call rpos)) := by
  obtain ⟨long, room, start⟩ := fits
  constructor
  · intro request asked
    rw [decompress_asked] at asked
    cases asked
    rw [asked_size call rpos accepted]
    exact room
  · intro request asked
    rw [decompress_asked] at asked
    cases asked
    by_cases empty : compressedSize call = 0
    · exact Or.inl empty
    · have place := start.resolve_right (fun short => empty ((compressed_size_zero call).mpr short))
      exact Or.inr ((in_body_iff call rpos accepted empty).mpr ⟨long, place⟩)
  · intro broken
    cases start with
    | inl first =>
        rw [first, zero_add] at room
        omega
    | inr short =>
        -- LzmaDecode gets no byte at all and gives up on its first one.
        have fails := needs call.memory (requestAt call rpos) ((compressed_size_zero call).mpr short)
        simp only [decompress, if_pos fails.1]
        exact ⟨one_ne_zero, fails.2, trivial⟩

theorem lzma_inflate_contained_iff (decode : Decoder) (needs : NeedsInput decode) (rpos : UInt32)
    (call : Call) :
    Contained call (lzmaInflate decode rpos call).1 ↔ (Accepted call rpos → Fits call rpos) := by
  by_cases accepted : Accepted call rpos
  · rw [lzma_inflate_accepted decode rpos call accepted]
    constructor
    · intro contained _
      exact contained_fits decode rpos call accepted contained
    · intro fits
      exact fits_contained decode needs rpos call accepted (fits accepted)
  · rw [lzma_inflate_refused decode rpos call accepted]
    constructor
    · intro _ reached
      exact absurd reached accepted
    · intro _
      exact refused_contained call

/-- LzmaDecode on an input of zeros, which it reads as literal zeros. -/
def decodeZeros : Decoder := fun _ request =>
  if 5 + 2 * request.outSize.toNat ≤ request.inSize.toNat then
    ⟨0, List.replicate request.outSize.toNat 0, request.outSize⟩
  else ⟨1, [], 0⟩

theorem decode_zeros_needs : NeedsInput decodeZeros := by
  intro memory request empty
  have short : ¬ 5 + 2 * request.outSize.toNat ≤ request.inSize.toNat := by
    rw [empty]
    simp
  simp only [decodeZeros, if_neg short]
  exact ⟨one_ne_zero, trivial⟩

/-- A stream at 0x80100000 that declares 1000 bytes of zeros. -/
def zerosCall (capacity : Int32) : Call :=
  { memory := fun address =>
      if address = 0x80100000 then 0x5d
      else if address = 0x80100005 then 0xe8
      else if address = 0x80100006 then 3
      else 0
    source := 0x80100000
    sLen := 4096
    dest := 0x80002000
    dLen := 0x83f00000
    capacity := capacity
    malloc := fun _ => true }

theorem zeros_contained : Contained (zerosCall 1000) (lzmaInflate decodeZeros 0 (zerosCall 1000)).1 :=
  (lzma_inflate_contained_iff decodeZeros decode_zeros_needs 0 (zerosCall 1000)).mpr
    (fun _ => ⟨by decide, by decide, Or.inl rfl⟩)

/-- Sixteen bytes of room and a declared size of 1000. -/
theorem zeros_overrun :
    ¬ ∀ decode call, NeedsInput decode → Contained call (lzmaInflate decode 0 call).1 := by
  intro always
  have contained := always decodeZeros (zerosCall 16) decode_zeros_needs
  have asked : ∃ request, (lzmaInflate decodeZeros 0 (zerosCall 16)).1.asked = some request ∧
      request.outSize = 1000 := ⟨requestAt (zerosCall 16) 0, by decide +kernel, by decide +kernel⟩
  obtain ⟨request, reached, size⟩ := asked
  have writes := contained.writes request reached
  rw [size] at writes
  exact absurd writes (by decide)

end Containment

section History

/-- The `rpos` that a boot session has after its calls. -/
def session (decode : Decoder) (history : List Call) : UInt32 :=
  history.foldl (fun rpos call => (lzmaInflate decode rpos call).2) 0

/-- What the caller gets: the return code, the output bytes and `*d_len`. -/
def Result.seen (result : Result) : Int × List UInt8 × Int32 :=
  (result.code, result.output, result.dLen)

def resultAfter (decode : Decoder) (history : List Call) (call : Call) : Int × List UInt8 × Int32 :=
  (lzmaInflate decode (session decode history) call).1.seen

theorem session_rpos (decode : Decoder) (history : List Call) :
    session decode history = 13 * UInt32.ofNat history.length := by
  have moves : ∀ rpos : UInt32,
      history.foldl (fun rpos call => (lzmaInflate decode rpos call).2) rpos =
        rpos + 13 * UInt32.ofNat history.length := by
    induction history with
    | nil =>
        intro rpos
        simp
    | cons call rest ih =>
        intro rpos
        rw [List.foldl_cons, lzma_inflate_rpos, ih, List.length_cons, UInt32.ofNat_add]
        show rpos + 13 + 13 * UInt32.ofNat rest.length =
          rpos + 13 * (UInt32.ofNat rest.length + 1)
        rw [mul_add, mul_one]
        abel
  rw [session, moves 0, zero_add]

/-- Thirteen has an inverse modulo 2 ^ 32. -/
theorem thirteen_cancel (left right : UInt32) (same : 13 * left = 13 * right) : left = right := by
  have inverse : ∀ n : UInt32, 3303820997 * (13 * n) = n := by
    intro n
    rw [← mul_assoc]
    have one : (3303820997 : UInt32) * 13 = 1 := by decide
    rw [one, one_mul]
  rw [← inverse left, same, inverse right]

theorem session_eq_iff (decode : Decoder) (first second : List Call) :
    session decode first = session decode second ↔
      first.length % 2 ^ 32 = second.length % 2 ^ 32 := by
  rw [session_rpos, session_rpos]
  constructor
  · intro same
    have lengths := congrArg UInt32.toNat (thirteen_cancel _ _ same)
    simpa using lengths
  · intro same
    have lengths : UInt32.ofNat first.length = UInt32.ofNat second.length := by
      apply UInt32.toNat_inj.mp
      simpa using same
    rw [lengths]

/-- With nothing to write, LzmaDecode returns after the five bytes of RC_INIT. -/
def DecodesNothing (decode : Decoder) : Prop :=
  ∀ memory request, request.outSize = 0 → 5 ≤ request.inSize.toNat →
    (decode memory request).res = 0

/-- A header of zeros that a reader at `start` finds, and `distance` behind it an invalid
property byte. -/
def markedCall (start distance : UInt32) : Call :=
  { memory := fun address => if address = distance then 0xFF else 0
    source := 0 - start
    sLen := -1
    dest := 0x80002000
    dLen := 0x83f00000
    capacity := 0
    malloc := fun _ => true }

theorem marked_byte (start distance offset : UInt32) :
    byteAt (markedCall start distance) (start + offset) = if offset = distance then 0xFF else 0 := by
  have place : 0 - start + (start + offset) = offset := by abel
  simp only [byteAt, markedCall, place]

theorem marked_declared (start distance : UInt32) (apart : distance < 5 ∨ 12 < distance) :
    declaredFrom (markedCall start distance) (start + 5) = 0 := by
  have clean : ∀ i, i < 8 →
      byteAt (markedCall start distance) (start + 5 + UInt32.ofNat i) = 0 := by
    intro i bound
    rw [add_assoc, marked_byte, if_neg]
    intro same
    rw [← same, UInt32.lt_iff_toNat_lt, UInt32.lt_iff_toNat_lt] at apart
    have offset : (5 + UInt32.ofNat i).toNat = 5 + i := by
      rw [UInt32.toNat_add, UInt32.toNat_ofNat_of_lt' (show i < 2 ^ 32 by omega)]
      show (5 + i) % 2 ^ 32 = 5 + i
      omega
    rw [offset] at apart
    have twelve : (12 : UInt32).toNat = 12 := rfl
    have five : (5 : UInt32).toNat = 5 := rfl
    omega
  unfold declaredFrom
  apply List.sum_eq_zero
  intro term member
  obtain ⟨i, bound, rfl⟩ := List.mem_map.mp member
  rw [clean i (List.mem_range.mp bound)]
  exact Nat.zero_mul _

theorem marked_accepted (start distance : UInt32) (away : distance ≠ 0)
    (apart : distance < 5 ∨ 12 < distance) : Accepted (markedCall start distance) start := by
  have declared := marked_declared start distance apart
  constructor
  · rw [declared]
    decide
  · have first := marked_byte start distance 0
    rw [add_zero, if_neg (Ne.symm away)] at first
    rw [first]
    decide
  · rfl
  · exact Or.inl declared
  · right
    constructor
    · show _ ≤ (0xFFFFFFFF : UInt32)
      rw [UInt32.le_iff_toNat_le]
      exact Nat.le_of_lt_succ (UInt32.toNat_lt _)
    · have place : 0 - start + (start + 13) = 13 := by abel
      show 0 - start + (start + 13) ≠ 0
      rw [place]
      decide

theorem marked_refused (start distance : UInt32) :
    ¬ Accepted (markedCall start distance) (start + distance) := by
  intro accepted
  have valid := accepted.properties
  rw [marked_byte, if_pos rfl] at valid
  exact absurd valid (by decide)

/-- Two positions that differ by a distance outside the size bytes tell calls apart. -/
theorem marked_differs (decode : Decoder) (nothing : DecodesNothing decode)
    (start distance : UInt32) (away : distance ≠ 0) (apart : distance < 5 ∨ 12 < distance) :
    (lzmaInflate decode start (markedCall start distance)).1.seen ≠
      (lzmaInflate decode (start + distance) (markedCall start distance)).1.seen := by
  have declared := marked_declared start distance apart
  rw [lzma_inflate_accepted decode start _ (marked_accepted start distance away apart),
    lzma_inflate_refused decode _ _ (marked_refused start distance)]
  have returns : (decode (markedCall start distance).memory
      (requestAt (markedCall start distance) start)).res = 0 := by
    apply nothing
    · simp only [requestAt, declared]
      rfl
    · have size : compressedSize (markedCall start distance) = 0xFFFFFFF2 := by
        show (-1 : Int32).toUInt32 - (UInt32.ofNat 5 + 8) = 0xFFFFFFF2
        decide
      show 5 ≤ (compressedSize (markedCall start distance)).toNat
      rw [size]
      decide
  simp only [decompress, if_neg (not_not.mpr returns)]
  intro same
  have codes : (0 : Int) = 1 := congrArg Prod.fst same
  exact absurd codes (by decide)

theorem distance_back (a b : UInt32) (near : ¬ (a - b < 5 ∨ 12 < a - b)) :
    b - a < 5 ∨ 12 < b - a := by
  right
  have flip : b - a = 0 - (a - b) := by abel
  rw [flip]
  generalize a - b = distance at near
  rw [not_or, UInt32.not_lt, UInt32.not_lt, UInt32.le_iff_toNat_le,
    UInt32.le_iff_toNat_le] at near
  rw [UInt32.lt_iff_toNat_lt, UInt32.toNat_sub]
  simp at near ⊢
  omega

theorem history_independent_iff (decode : Decoder) (nothing : DecodesNothing decode)
    (first second : List Call) :
    (∀ call, resultAfter decode first call = resultAfter decode second call) ↔
      first.length % 2 ^ 32 = second.length % 2 ^ 32 := by
  rw [← session_eq_iff decode]
  constructor
  · intro same
    by_contra differ
    have away : session decode second - session decode first ≠ 0 :=
      fun zero => differ (sub_eq_zero.mp zero).symm
    by_cases apart : session decode second - session decode first < 5 ∨
        12 < session decode second - session decode first
    · have differs := marked_differs decode nothing (session decode first) _ away apart
      rw [add_sub_cancel] at differs
      exact differs (same _)
    -- The distance back is then outside the size bytes.
    · have back : session decode first - session decode second < 5 ∨
          12 < session decode first - session decode second :=
        distance_back (session decode second) (session decode first) apart
      have differs := marked_differs decode nothing (session decode second) _
        (fun zero => differ (sub_eq_zero.mp zero)) back
      rw [add_sub_cancel] at differs
      exact differs (same _).symm
  · intro same call
    unfold resultAfter
    rw [same]

theorem decode_zeros_nothing : DecodesNothing decodeZeros := by
  intro memory request empty bytes
  have fits : 5 + 2 * request.outSize.toNat ≤ request.inSize.toNat := by
    rw [empty]
    exact bytes
  simp only [decodeZeros, if_pos fits]

theorem same_length_histories :
    resultAfter decodeZeros [zerosCall 16] (zerosCall 1000) =
      resultAfter decodeZeros [zerosCall 1000] (zerosCall 1000) :=
  (history_independent_iff decodeZeros decode_zeros_nothing [zerosCall 16] [zerosCall 1000]).mpr rfl
    (zerosCall 1000)

/-- The same call for a second time. -/
theorem second_call_differs :
    ¬ ∀ decode first second call, DecodesNothing decode →
      resultAfter decode first call = resultAfter decode second call := by
  intro always
  have same := always decodeZeros [] [zerosCall 1000] (zerosCall 1000) decode_zeros_nothing
  have once : (resultAfter decodeZeros [] (zerosCall 1000)).1 = 0 := by decide +kernel
  have again : (resultAfter decodeZeros [zerosCall 1000] (zerosCall 1000)).1 = 1 := by
    decide +kernel
  rw [same, again] at once
  exact absurd once (by decide)

end History

end UBoot.Image.LzmaWrapper
