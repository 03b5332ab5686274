import UBoot.Load.Kermit

/-!
The encoding of the data characters that a Kermit sender uses, as far as the two sides have agreed
on it, and k_data_char as its inverse. A byte of control characters goes out as the
control prefix and the byte with bit 6 turned over; so does a prefix, as it is.
-/

namespace UBoot.Load.KermitCodec

open KermitData Kermit Library.Memory

/-- A prefix is a character that is printed and that ktrans has no other use for. -/
def LegalPrefix (c : UInt8) : Prop := 33 ≤ c ∧ c ≤ 62 ∨ 96 ≤ c ∧ c ≤ 126

instance (c : UInt8) : Decidable (LegalPrefix c) :=
  inferInstanceAs (Decidable (33 ≤ c ∧ c ≤ 62 ∨ 96 ≤ c ∧ c ≤ 126))

/-- The control prefix of the sender, and the prefix for the eighth bit if one is used. -/
structure Quoting where
  control : UInt8
  eighth : Option UInt8

/-- A control character, without its eighth bit. -/
def isCtl (c : UInt8) : Prop := c &&& 0x60 = 0 ∨ c &&& 0x7f = 0x7f

instance (c : UInt8) : Decidable (isCtl c) :=
  inferInstanceAs (Decidable (c &&& 0x60 = 0 ∨ c &&& 0x7f = 0x7f))

def encodeControl (quoting : Quoting) (c : UInt8) : List UInt8 :=
  if isCtl c then [quoting.control, c ^^^ 0x40]
  else if c &&& 0x7f = quoting.control ∨ quoting.eighth = some (c &&& 0x7f) then
    [quoting.control, c]
  else [c]

def encodeByte (quoting : Quoting) (byte : UInt8) : List UInt8 :=
  match quoting.eighth with
  | none => encodeControl quoting byte
  | some eighth =>
      if byte &&& 0x80 = 0 then encodeControl quoting byte
      else eighth :: encodeControl quoting (byte &&& 0x7f)

/-- The prefix for the eighth bit that is used behind a Send-Init packet: the receiver answers with
a prefix, with Y for the one that the sender has asked for, or refuses it. -/
def agreedEighth (asked : Option UInt8) (fields : List UInt8) : Option UInt8 :=
  match fields[6]? with
  | none => none
  | some answer => if answer = 0x4e then none else if answer = 0x59 then asked else some answer

/-- The fields of the answer to a Send-Init packet. -/
def answerFields (k : KRecv) : List UInt8 := sendParmsReply (handleSendPacket k 0).sendPtr

def agreedQuoting (k : KRecv) (asked : Option UInt8) : Quoting where
  control := (handleSendPacket k 0).hisQuote
  eighth := agreedEighth asked (answerFields k)

/-! ### The variables of k_data_* and os_data_* -/

/-- The variables, and those that keep what was saved of them. -/
structure KVars where
  data : KData
  saved : KData

def kDataSave (vars : KVars) : KVars := { vars with saved := vars.data }

def kDataRestore (vars : KVars) : KVars := { vars with data := vars.saved }

/-- k_data_init, for an image at an address. -/
def kDataStart (start : Nat) (vars : KVars) : KVars := { vars with data := kDataInit start }

def feedChar (hisQuote : UInt8) (at' : (Nat → UInt8) × KVars) (newChar : UInt8) :
    (Nat → UInt8) × KVars :=
  let fed := kDataChar hisQuote at'.1 at'.2.data newChar
  (fed.1, { at'.2 with data := fed.2 })

/-- The characters of a new packet, behind its checkpoint. -/
def feedPacket (hisQuote : UInt8) (at' : (Nat → UInt8) × KVars) (chars : List UInt8) :
    (Nat → UInt8) × KVars :=
  chars.foldl (feedChar hisQuote) (at'.1, kDataSave at'.2)

/-! ### The decoder is the inverse -/

theorem byte_cases {p : UInt8 → Prop} (all : ∀ n < 256, p (UInt8.ofNat n)) (c : UInt8) : p c := by
  have here := all c.toNat c.toNat_lt
  rwa [UInt8.ofNat_toNat] at here

theorem ktrans_ctl (c : UInt8) : isCtl c → ktrans (c ^^^ 0x40) = c :=
  byte_cases (p := fun c => isCtl c → ktrans (c ^^^ 0x40) = c) (by decide +kernel) c

theorem ktrans_prefix (c : UInt8) : LegalPrefix (c &&& 0x7f) → ktrans c = c :=
  byte_cases (p := fun c => LegalPrefix (c &&& 0x7f) → ktrans c = c) (by decide +kernel) c

theorem prefix_seven_bits (c : UInt8) : LegalPrefix c → c &&& 0x7f = c :=
  byte_cases (p := fun c => LegalPrefix c → c &&& 0x7f = c) (by decide +kernel) c

/-- Without a prefix for the eighth bit, the characters of a byte are decoded to it. -/
theorem decode_byte {quoting : Quoting} (legal : LegalPrefix quoting.control)
    (seven : quoting.eighth = none) (bytes : List UInt8) (byte : UInt8) :
    decode quoting.control ⟨false, bytes⟩ (encodeByte quoting byte) = ⟨false, bytes ++ [byte]⟩ := by
  unfold encodeByte
  rw [seven]
  unfold encodeControl
  rw [seven]
  by_cases control : isCtl byte
  · rw [if_pos control]
    simp only [decode, List.foldl_cons, List.foldl_nil, decodeChar, if_true, Bool.false_eq_true,
      if_false, ktrans_ctl byte control]
  · rw [if_neg control]
    by_cases quote : byte &&& 0x7f = quoting.control
    · rw [if_pos (.inl quote)]
      simp only [decode, List.foldl_cons, List.foldl_nil, decodeChar, if_true, Bool.false_eq_true,
        if_false, ktrans_prefix byte (quote ▸ legal)]
    · rw [if_neg (not_or.mpr ⟨quote, Option.some_ne_none _ ∘ Eq.symm⟩)]
      have other : byte ≠ quoting.control := by
        rintro same
        rw [← same] at legal quote
        exact quote (prefix_seven_bits byte legal)
      simp only [decode, List.foldl_cons, List.foldl_nil, decodeChar, Bool.false_eq_true, if_false,
        if_neg other]

theorem decode_bytes {quoting : Quoting} (legal : LegalPrefix quoting.control)
    (seven : quoting.eighth = none) (packet : List UInt8) : ∀ bytes,
    decode quoting.control ⟨false, bytes⟩ (packet.flatMap (encodeByte quoting)) =
      ⟨false, bytes ++ packet⟩ := by
  induction packet with
  | nil =>
      intro bytes
      rw [List.append_nil]
      rfl
  | cons byte rest inductive_hypothesis =>
      intro bytes
      rw [List.flatMap_cons, decode_append, decode_byte legal seven, inductive_hypothesis,
        List.append_assoc]
      rfl

/-- The answer refuses a prefix for the eighth bit. -/
theorem eighth_refused (asked : Option UInt8) (bytes : Nat) :
    agreedEighth asked (sendParmsReply bytes) = none := by
  unfold agreedEighth
  have field : (sendParmsReply bytes)[6]? = none ∨ (sendParmsReply bytes)[6]? = some 0x4e := by
    unfold sendParmsReply
    by_cases short : bytes < 7
    · left
      rw [if_neg (by omega), List.append_nil, List.getElem?_take, if_neg (by omega)]
    · right
      rw [List.getElem?_append_left (by simp; omega), List.getElem?_take, if_pos (by omega)]
      rfl
  rcases field with none' | refused
  · rw [none']
  · rw [refused]
    rfl

/-! ### What is stored -/

/-- The decoder behind an image, and the memory with nothing but that image. -/
structure Holds (start : Nat) (before : Nat → UInt8) (image : Image) (mem : Nat → UInt8)
    (data : KData) : Prop where
  memory : mem = splice before start image.bytes
  data : data = ⟨image.escape, 0, -image.bytes.length, start + image.bytes.length⟩

variable {start : Nat} {before mem : Nat → UInt8} {data : KData} {image : Image}

theorem holds_store (holds : Holds start before image mem data) (c : UInt8) :
    Holds start before { image with bytes := image.bytes ++ [c] } (binDataChar mem data c).1
      (binDataChar mem data c).2 := by
  obtain ⟨rfl, rfl⟩ := holds
  constructor
  · show splice (splice before start image.bytes) (start + image.bytes.length) [c] = _
    exact splice_append before start image.bytes [c]
  · simp only [binDataChar, List.length_append, List.length_singleton, KData.mk.injEq, true_and]
    exact ⟨by omega, by omega⟩

theorem holds_char (holds : Holds start before image mem data) (hisQuote c : UInt8) :
    Holds start before (decodeChar hisQuote image c) (kDataChar hisQuote mem data c).1
      (kDataChar hisQuote mem data c).2 := by
  have escape : data.escape = image.escape := by rw [holds.data]
  unfold kDataChar decodeChar
  rw [escape]
  by_cases escaped : image.escape = true
  · rw [if_pos escaped, if_pos escaped]
    obtain ⟨memory, data⟩ := holds_store holds (ktrans c)
    exact ⟨memory, by rw [data]⟩
  · rw [if_neg escaped, if_neg escaped]
    by_cases quote : c = hisQuote
    · rw [if_pos quote, if_pos quote]
      exact ⟨holds.memory, by rw [holds.data]⟩
    · rw [if_neg quote, if_neg quote]
      exact holds_store holds c

theorem holds_chars (hisQuote : UInt8) (chars : List UInt8) : ∀ (image : Image) mem vars,
    Holds start before image mem vars.data →
      Holds start before (decode hisQuote image chars)
        (chars.foldl (feedChar hisQuote) (mem, vars)).1
        (chars.foldl (feedChar hisQuote) (mem, vars)).2.data := by
  induction chars with
  | nil => exact fun _ _ _ holds => holds
  | cons c rest inductive_hypothesis =>
      intro image mem vars holds
      exact inductive_hypothesis _ _ _ (holds_char holds hisQuote c)

theorem feed_saved (hisQuote : UInt8) (chars : List UInt8) : ∀ mem vars,
    (chars.foldl (feedChar hisQuote) (mem, vars)).2.saved = vars.saved := by
  induction chars with
  | nil => exact fun _ _ => rfl
  | cons c rest inductive_hypothesis =>
      intro mem vars
      exact inductive_hypothesis _ _

theorem packets_stored {quoting : Quoting} (legal : LegalPrefix quoting.control)
    (seven : quoting.eighth = none) (packets : List (List UInt8)) : ∀ bytes mem vars,
    Holds start before ⟨false, bytes⟩ mem vars.data →
      Holds start before ⟨false, bytes ++ packets.flatten⟩
        ((packets.map fun packet => packet.flatMap (encodeByte quoting)).foldl
          (feedPacket quoting.control) (mem, vars)).1
        ((packets.map fun packet => packet.flatMap (encodeByte quoting)).foldl
          (feedPacket quoting.control) (mem, vars)).2.data := by
  induction packets with
  | nil =>
      intro bytes mem vars holds
      rw [List.flatten_nil, List.append_nil]
      exact holds
  | cons packet rest inductive_hypothesis =>
      intro bytes mem vars holds
      have fed := holds_chars quoting.control (packet.flatMap (encodeByte quoting)) ⟨false, bytes⟩
        mem (kDataSave vars) holds
      rw [decode_bytes legal seven] at fed
      rw [List.flatten_cons, ← List.append_assoc]
      exact inductive_hypothesis _ _ _ fed

/-- The bytes that a sender has encoded as it was agreed are stored one after the other, however
they are spread over packets; and a restore brings back what was saved, whatever came between. -/
theorem encoded_bytes_stored (k : KRecv) (asked : Option UInt8)
    (legal : LegalPrefix (agreedQuoting k asked).control) (start : Nat) (mem : Nat → UInt8)
    (vars : KVars) :
    (∀ packets : List (List UInt8),
      let fed := (packets.map fun packet =>
        packet.flatMap (encodeByte (agreedQuoting k asked))).foldl
          (feedPacket (handleSendPacket k 0).hisQuote) (mem, kDataStart start vars)
      fed.1 = splice mem start packets.flatten ∧
        fed.2.data = ⟨false, 0, -packets.flatten.length, start + packets.flatten.length⟩) ∧
      ∀ (hisQuote : UInt8) (chars : List UInt8),
        (kDataRestore (chars.foldl (feedChar hisQuote) (mem, kDataSave vars)).2).data =
          vars.data := by
  have seven : (agreedQuoting k asked).eighth = none := eighth_refused asked _
  refine ⟨fun packets => ?_, fun hisQuote chars => ?_⟩
  · have begun : Holds start mem ⟨false, []⟩ mem (kDataStart start vars).data := by
      constructor
      · exact (splice_nil mem start).symm
      · rfl
    have stored := packets_stored legal seven packets [] mem (kDataStart start vars) begun
    exact ⟨stored.memory, stored.data⟩
  · exact feed_saved hisQuote chars mem (kDataSave vars)

/-- A receiver that was sent no parameters. -/
def plainReceiver : KRecv := kRecvInit 0 (fun _ => 0) (fun _ => 0)

theorem two_packets_stored :
    (([[0x00, 0x23], [0xff]].map fun packet =>
        packet.flatMap (encodeByte (agreedQuoting plainReceiver none))).foldl
      (feedPacket (handleSendPacket plainReceiver 0).hisQuote)
      (fun _ => 0, kDataStart 0x100 ⟨kDataInit 0, kDataInit 0⟩)).1 =
        splice (fun _ => 0) 0x100 [0x00, 0x23, 0xff] :=
  ((encoded_bytes_stored plainReceiver none (by decide) 0x100 (fun _ => 0)
    ⟨kDataInit 0, kDataInit 0⟩).1 [[0x00, 0x23], [0xff]]).1

end UBoot.Load.KermitCodec
