import UBoot.Lib.Strings
import UBoot.Library.Pieces

/-!
generate_mtdparts of common/cmd_jffs2.c, which writes the partitions of all devices as one text into
a buffer. `maxlen` is the room that it counts as left. Places are counted from the start of the
buffer, and no string is as long as the address space.
-/

namespace UBoot.Mtd.MtdParts

open Lib.Strings Library.Memory Library.Pieces

structure PartInfo where
  name : List UInt8
  autoName : UInt8
  size : UInt32
  offset : UInt32
  maskFlags : UInt32

structure MtdDevice where
  mtdId : List UInt8
  numParts : UInt16
  parts : List PartInfo

/-- "%lu". -/
def decimal (n : Nat) : List UInt8 := (Nat.toDigits 10 n).map fun c => UInt8.ofNat c.toNat

def sizeGb : Nat := 1024 * 1024 * 1024

def sizeMb : Nat := 1024 * 1024

def sizeKb : Nat := 1024

def memsizeFormat (size : UInt32) : List UInt8 :=
  if size.toNat % sizeGb = 0 then decimal (size.toNat / sizeGb) ++ ascii "g"
  else if size.toNat % sizeMb = 0 then decimal (size.toNat / sizeMb) ++ ascii "m"
  else if size.toNat % sizeKb = 0 then decimal (size.toNat / sizeKb) ++ ascii "k"
  else decimal size.toNat

/-- The next place, the room and what was stored. -/
structure Out where
  p : Nat
  maxlen : Nat
  writes : Stores UInt8

/-- A piece of the text, unless it is longer than the room; then generate_mtdparts goes to its
cleanup. -/
def put (piece : List UInt8) (out : Out) : Except Out Out :=
  if out.maxlen < piece.length then .error out
  else .ok ⟨out.p + piece.length, out.maxlen - piece.length, out.writes ++ [(out.p, piece)]⟩

def putIf (condition : Prop) [Decidable condition] (piece : List UInt8) (out : Out) :
    Except Out Out :=
  if condition then put piece out else pure out

/-- There is a gap in front of the partition. -/
def Gap (prevPart : Option PartInfo) (part : PartInfo) : Prop :=
  match prevPart with
  | none => part.offset ≠ 0
  | some prev => prev.offset + prev.size ≠ part.offset

instance (prevPart : Option PartInfo) (part : PartInfo) : Decidable (Gap prevPart part) := by
  unfold Gap
  cases prevPart <;> infer_instance

def formatPart (dev : MtdDevice) (prevPart : Option PartInfo) (partCnt : Nat) (part : PartInfo)
    (out : Out) : Except Out Out := do
  let out ← put (memsizeFormat part.size) out
  let out ← putIf (Gap prevPart part) (ascii "@" ++ memsizeFormat part.offset) out
  let out ← putIf (part.autoName = 0) (ascii "(" ++ part.name ++ ascii ")") out
  -- mask_flags && MTD_WRITEABLE_CMD
  let out ← putIf (part.maskFlags ≠ 0) (ascii "ro") out
  putIf (partCnt < dev.numParts.toNat) (ascii ",") out

def formatParts (dev : MtdDevice) : Option PartInfo → (partCnt : Nat) → List PartInfo → Out →
    Except Out Out
  | _, _, [], out => pure out
  | prevPart, partCnt, part :: rest, out => do
      let out ← formatPart dev prevPart (partCnt + 1) part out
      formatParts dev (some part) (partCnt + 1) rest out

def formatDevices : List MtdDevice → Out → Except Out Out
  | [], out => pure out
  | dev :: rest, out => do
      let out ← put (dev.mtdId ++ ascii ":") out
      let out ← formatParts dev none 0 dev.parts out
      let out ← putIf (rest ≠ []) (ascii ";") out
      formatDevices rest out

/-- What generate_mtdparts returns, what it stored in the buffer, and whether it cleared
last_parts. -/
structure Generated where
  ret : Int
  writes : Stores UInt8
  lastPartsCleared : Bool

def generateMtdparts (devices : List MtdDevice) (buflen : UInt32) : Generated :=
  let maxlen := buflen - 1
  if devices = [] then ⟨0, [(0, [0])], false⟩
  else
    match formatDevices devices ⟨9, maxlen.toNat, [(0, ascii "mtdparts=" ++ [0])]⟩ with
    | .ok out => ⟨0, out.writes ++ [(out.p, [0])], false⟩
    | .error out => ⟨1, out.writes, true⟩

/-! ### The text -/

def partPieces (dev : MtdDevice) (prevPart : Option PartInfo) (partCnt : Nat) (part : PartInfo) :
    List (List UInt8) :=
  [memsizeFormat part.size] ++
    (if Gap prevPart part then [ascii "@" ++ memsizeFormat part.offset] else []) ++
    (if part.autoName = 0 then [ascii "(" ++ part.name ++ ascii ")"] else []) ++
    (if part.maskFlags ≠ 0 then [ascii "ro"] else []) ++
    (if partCnt < dev.numParts.toNat then [ascii ","] else [])

def partsPieces (dev : MtdDevice) : Option PartInfo → (partCnt : Nat) → List PartInfo →
    List (List UInt8)
  | _, _, [] => []
  | prevPart, partCnt, part :: rest =>
      partPieces dev prevPart (partCnt + 1) part ++ partsPieces dev (some part) (partCnt + 1) rest

/-- The pieces of the text behind "mtdparts=". -/
def pieces : List MtdDevice → List (List UInt8)
  | [] => []
  | dev :: rest =>
      [dev.mtdId ++ ascii ":"] ++ partsPieces dev none 0 dev.parts ++
        (if rest ≠ [] then [ascii ";"] else []) ++ pieces rest

/-- The text for the devices, without its NUL. -/
def mtdpartsText (devices : List MtdDevice) : List UInt8 :=
  if devices = [] then [] else ascii "mtdparts=" ++ (pieces devices).flatten

/-- All stores lie in the buffer, success leaves the whole text with its NUL, and a text that does
not fit is refused. -/
structure WritesInside (devices : List MtdDevice) (buflen : UInt32) : Prop where
  inside : ∀ write ∈ (generateMtdparts devices buflen).writes,
    write.1 + write.2.length ≤ buflen.toNat
  whole : (generateMtdparts devices buflen).ret = 0 → ∀ mem buf,
    slice (apply mem buf (generateMtdparts devices buflen).writes) buf
      ((mtdpartsText devices).length + 1) = mtdpartsText devices ++ [0]
  refused : buflen.toNat < (mtdpartsText devices).length + 1 →
    (generateMtdparts devices buflen).ret = 1

/-- "mtdparts=" fits with its NUL, no prefix of the text behind it ends in the last nine bytes, which
are not counted, and neither does the text with its NUL. -/
def Spare (devices : List MtdDevice) (buflen : UInt32) : Prop :=
  if devices = [] then 1 ≤ buflen.toNat
  else 10 ≤ buflen.toNat ∧
    (∀ front back, pieces devices = front ++ back → size front < buflen.toNat →
      size front + 9 ≤ buflen.toNat) ∧
    (size (pieces devices) < buflen.toNat → size (pieces devices) + 10 ≤ buflen.toNat)

/-! ### One piece after the other -/

def putAll : List (List UInt8) → Out → Except Out Out
  | [], out => pure out
  | piece :: rest, out => put piece out >>= putAll rest

/-- What the pieces leave. -/
def Out.behind (out : Out) (front : List (List UInt8)) : Out :=
  ⟨out.p + size front, out.maxlen - size front, out.writes ++ placed out.p front⟩

theorem put_all_append (front back : List (List UInt8)) (out : Out) :
    putAll (front ++ back) out = putAll front out >>= putAll back := by
  induction front generalizing out with
  | nil => rfl
  | cons piece rest inductive_hypothesis =>
      rw [List.cons_append, putAll, putAll, bind_assoc]
      exact bind_congr inductive_hypothesis

theorem put_all_one (piece : List UInt8) (out : Out) : putAll [piece] out = put piece out :=
  bind_pure _

theorem put_all_if (condition : Prop) [Decidable condition] (piece : List UInt8) :
    putAll (if condition then [piece] else []) = putIf condition piece := by
  funext out
  unfold putIf
  split
  · exact put_all_one piece out
  · rfl

/-- The pieces fit together, or one is the first that does not. -/
theorem put_all_cases (texts : List (List UInt8)) (out : Out) :
    size texts ≤ out.maxlen ∧ putAll texts out = .ok (out.behind texts) ∨
      ∃ front piece back, texts = front ++ piece :: back ∧ size front ≤ out.maxlen ∧
        out.maxlen < size front + piece.length ∧ putAll texts out = .error (out.behind front) := by
  induction texts generalizing out with
  | nil => exact .inl ⟨Nat.zero_le _, by rw [Out.behind, placed, List.append_nil]; rfl⟩
  | cons first rest inductive_hypothesis =>
      by_cases long : out.maxlen < first.length
      · have stopped : putAll (first :: rest) out = .error (out.behind []) := by
          rw [putAll, put, if_pos long, Out.behind, placed, List.append_nil]
          rfl
        exact .inr ⟨[], first, rest, rfl, Nat.zero_le _, by rw [size_nil, Nat.zero_add]; exact long,
          stopped⟩
      · have taken : putAll (first :: rest) out = putAll rest (out.behind [first]) := by
          rw [putAll, put, if_neg long, Out.behind, size_cons, size_nil, Nat.add_zero]
          rfl
        have later (front : List (List UInt8)) :
            (out.behind [first]).behind front = out.behind (first :: front) := by
          unfold Out.behind
          simp only [size_cons, size_nil, Nat.add_zero, placed, List.append_assoc,
            List.singleton_append, Nat.add_assoc, Nat.sub_sub]
        have room : (out.behind [first]).maxlen = out.maxlen - first.length := by
          rw [Out.behind, size_cons, size_nil, Nat.add_zero]
        rw [taken]
        rcases inductive_hypothesis (out.behind [first]) with
          ⟨fits, whole⟩ | ⟨front, piece, back, split, fits, stops, cut⟩
        · refine .inl ⟨?_, by rw [whole, later]⟩
          rw [size_cons]
          omega
        · refine .inr ⟨first :: front, piece, back, by rw [split]; rfl, ?_, ?_, by rw [cut, later]⟩
          · rw [size_cons]
            omega
          · rw [size_cons]
            omega

theorem format_part_pieces (dev : MtdDevice) (prevPart : Option PartInfo) (partCnt : Nat)
    (part : PartInfo) (out : Out) :
    formatPart dev prevPart partCnt part out = putAll (partPieces dev prevPart partCnt part) out := by
  unfold formatPart partPieces
  simp only [put_all_append, put_all_one, put_all_if, bind_assoc]

theorem format_parts_pieces (dev : MtdDevice) (prevPart : Option PartInfo) (partCnt : Nat)
    (parts : List PartInfo) (out : Out) :
    formatParts dev prevPart partCnt parts out =
      putAll (partsPieces dev prevPart partCnt parts) out := by
  induction parts generalizing prevPart partCnt out with
  | nil => rfl
  | cons part rest inductive_hypothesis =>
      rw [formatParts, partsPieces, put_all_append, format_part_pieces]
      exact bind_congr fun out => inductive_hypothesis (some part) (partCnt + 1) out

theorem format_devices_pieces (devices : List MtdDevice) (out : Out) :
    formatDevices devices out = putAll (pieces devices) out := by
  induction devices generalizing out with
  | nil => rfl
  | cons dev rest inductive_hypothesis =>
      rw [formatDevices, pieces]
      simp only [put_all_append, put_all_one, put_all_if, bind_assoc, format_parts_pieces,
        inductive_hypothesis]

/-! ### The buffer -/

section Buffer
variable {devices : List MtdDevice} {buflen : UInt32}

def begun (buflen : UInt32) : Out :=
  ⟨9, (buflen - 1).toNat, [(0, ascii "mtdparts=" ++ [0])]⟩

/-- generate_mtdparts stores all pieces, or those in front of the first that does not fit. -/
theorem generated_cases (some_device : devices ≠ []) :
    size (pieces devices) ≤ (buflen - 1).toNat ∧
      generateMtdparts devices buflen = ⟨0, ((begun buflen).behind (pieces devices)).writes ++
        [(9 + size (pieces devices), [0])], false⟩ ∨
    ∃ front piece back, pieces devices = front ++ piece :: back ∧
      size front ≤ (buflen - 1).toNat ∧ (buflen - 1).toNat < size front + piece.length ∧
      generateMtdparts devices buflen = ⟨1, ((begun buflen).behind front).writes, true⟩ := by
  unfold generateMtdparts
  dsimp only
  rw [if_neg some_device, ← begun, format_devices_pieces]
  rcases put_all_cases (pieces devices) (begun buflen) with
    ⟨fits, whole⟩ | ⟨front, piece, back, split, fits, stops, cut⟩
  · rw [whole]
    exact .inl ⟨fits, rfl⟩
  · rw [cut]
    exact .inr ⟨front, piece, back, split, fits, stops, rfl⟩

theorem maxlen_eq (some_room : 1 ≤ buflen.toNat) : (buflen - 1).toNat = buflen.toNat - 1 :=
  UInt32.toNat_sub_of_le _ _ (UInt32.le_iff_toNat_le.mpr some_room)

/-- What is stored when the text is through is the text. -/
theorem text_stored (mem : Nat → UInt8) (buf : Nat) (texts : List (List UInt8)) :
    apply mem buf (((begun buflen).behind texts).writes ++ [(9 + size texts, [0])]) =
      splice (splice mem buf (ascii "mtdparts=" ++ [0])) (buf + 9) (texts.flatten ++ [0]) := by
  have last : buf + (9 + size texts) = buf + 9 + texts.flatten.length := (Nat.add_assoc _ _ _).symm
  unfold Out.behind begun
  rw [apply_append, apply_append, apply_placed, ← splice_append]
  exact congrArg (fun place => splice _ place [0]) last

theorem text_slice (mem : Nat → UInt8) (buf : Nat) (text : List UInt8) :
    slice (splice (splice mem buf (ascii "mtdparts=" ++ [0])) (buf + 9) (text ++ [0])) buf
      (9 + (text ++ [0]).length) = ascii "mtdparts=" ++ (text ++ [0]) := by
  have head : slice (splice mem buf (ascii "mtdparts=" ++ [0])) buf 9 = ascii "mtdparts=" := by
    have nul_behind : buf + 9 ≤ buf + (ascii "mtdparts=").length := Nat.le_refl _
    rw [← splice_append, slice_splice_outside _ _ _ _ _ (.inl nul_behind)]
    exact slice_splice_same mem buf (ascii "mtdparts=")
  rw [slice_add, slice_splice_same, slice_splice_outside _ _ _ _ _ (.inl (Nat.le_refl _)), head]

theorem text_length (some_device : devices ≠ []) :
    (mtdpartsText devices).length = 9 + size (pieces devices) := by
  rw [mtdpartsText, if_neg some_device, List.length_append]
  rfl

/-- A prefix of the text that fits ends in front of the first piece that does not. -/
theorem prefix_size {texts front back stored behind : List (List UInt8)} {piece : List UInt8}
    {room : Nat} (split : texts = front ++ back) (cut : texts = stored ++ piece :: behind)
    (fits : size front ≤ room) (stops : room < size stored + piece.length) :
    size front ≤ size stored := by
  rcases List.append_eq_append_iff.mp (split.symm.trans cut) with
    ⟨more, longer, -⟩ | ⟨more, longer, same⟩
  · rw [longer, size_append]
    exact Nat.le_add_right _ _
  · cases more with
    | nil =>
        rw [longer, List.append_nil]
    | cons first more =>
        rw [List.cons_append, List.cons_eq_cons] at same
        rw [longer, size_append, size_cons, ← same.1] at fits
        omega

/-- The stores in front of the last NUL. -/
theorem behind_inside (texts : List (List UInt8)) :
    (∀ write ∈ ((begun buflen).behind texts).writes, write.1 + write.2.length ≤ buflen.toNat) ↔
      10 ≤ buflen.toNat ∧ 9 + size texts ≤ buflen.toNat := by
  unfold Out.behind begun
  rw [List.forall_mem_append, List.forall_mem_singleton]
  constructor
  · rintro ⟨first, later⟩
    have ten : 10 ≤ buflen.toNat := first
    have nine : 9 ≤ buflen.toNat := Nat.le_of_succ_le ten
    exact ⟨ten, (placed_below_iff nine texts).mp later⟩
  · rintro ⟨ten, room⟩
    have nine : 9 ≤ buflen.toNat := Nat.le_of_succ_le ten
    exact ⟨ten, (placed_below_iff nine texts).mpr room⟩

theorem spare_of_inside (some_device : devices ≠ [])
    (inside : ∀ write ∈ (generateMtdparts devices buflen).writes,
      write.1 + write.2.length ≤ buflen.toNat) : Spare devices buflen := by
  rw [Spare, if_neg some_device]
  rcases generated_cases some_device with ⟨fits, whole⟩ | ⟨stored, piece, behind, cut, fits, stops,
    refused⟩
  · rw [whole, List.forall_mem_append, behind_inside] at inside
    obtain ⟨⟨ten, -⟩, nul⟩ := inside
    have last := nul _ List.mem_cons_self
    rw [List.length_singleton] at last
    refine ⟨ten, ?_, fun _ => by omega⟩
    intro front back split _
    rw [split, size_append] at last
    omega
  · rw [refused, behind_inside] at inside
    obtain ⟨ten, room⟩ := inside
    have counted := maxlen_eq (show 1 ≤ buflen.toNat by omega)
    rw [counted] at fits stops
    refine ⟨ten, ?_, ?_⟩
    · intro front back split short
      have := prefix_size split cut (by omega) stops
      omega
    · intro short
      rw [cut, size_append, size_cons] at short
      omega

theorem inside_of_spare (some_device : devices ≠ []) (spare : Spare devices buflen) :
    WritesInside devices buflen := by
  rw [Spare, if_neg some_device] at spare
  obtain ⟨ten, prefixes, all⟩ := spare
  have counted := maxlen_eq (show 1 ≤ buflen.toNat by omega)
  have length := text_length some_device
  rcases generated_cases some_device with ⟨fits, whole⟩ | ⟨stored, piece, behind, cut, fits, stops,
    refused⟩
  · rw [counted] at fits
    have room := all (by omega)
    refine ⟨?_, ?_, ?_⟩
    · rw [whole, List.forall_mem_append, behind_inside, List.forall_mem_singleton,
        List.length_singleton]
      omega
    · intro _ mem buf
      have total : (mtdpartsText devices).length + 1 =
          9 + ((pieces devices).flatten ++ [0]).length := by
        rw [length, List.length_append, size, Nat.add_assoc]
        rfl
      rw [whole, total]
      dsimp only
      rw [text_stored, text_slice, mtdpartsText, if_neg some_device, List.append_assoc]
    · intro short
      omega
  · rw [counted] at fits stops
    refine ⟨?_, ?_, ?_⟩
    · rw [refused, behind_inside]
      have := prefixes stored (piece :: behind) cut (by omega)
      omega
    · rw [refused]
      intro success
      cases success
    · rw [refused]
      exact fun _ => rfl

theorem writes_inside_iff (devices : List MtdDevice) (buflen : UInt32) :
    WritesInside devices buflen ↔ Spare devices buflen := by
  by_cases none_listed : devices = []
  · rw [Spare, if_pos none_listed, none_listed]
    constructor
    · intro right
      exact right.inside (0, [0]) List.mem_cons_self
    · intro room
      refine ⟨?_, ?_, ?_⟩
      · intro write member
        rw [List.mem_singleton.mp member]
        exact room
      · intro _ mem buf
        exact slice_splice_same mem buf [0]
      · intro short
        exact absurd room (Nat.not_le.mpr short)
  · exact ⟨fun right => spare_of_inside none_listed right.inside, inside_of_spare none_listed⟩

end Buffer

/-- Two partitions of 4 MiB with names of 245 characters. -/
def longNames : List MtdDevice :=
  [⟨ascii "nor0", 2, [⟨List.replicate 245 97, 0, 0x400000, 0, 0⟩,
    ⟨List.replicate 245 98, 0, 0x400000, 0x400000, 0⟩]⟩]

/-- Their text has 513 bytes; with its NUL it is two bytes longer than last_parts, and
generate_mtdparts says that it fits. -/
theorem long_names_accepted :
    (generateMtdparts longNames 512).ret = 0 ∧ (mtdpartsText longNames).length = 513 ∧
      ¬ WritesInside longNames 512 := by
  have accepted : (generateMtdparts longNames 512).ret = 0 := by decide +kernel
  have length : (mtdpartsText longNames).length = 513 := by decide +kernel
  refine ⟨accepted, length, ?_⟩
  intro right
  have refused := right.refused (by rw [length]; decide)
  rw [accepted] at refused
  cases refused

end UBoot.Mtd.MtdParts
