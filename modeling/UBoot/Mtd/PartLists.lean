import UBoot.Mtd.MtdParts

/-!
The lists of devices and partitions that mtdparts add, mtdparts del and chpart of
common/cmd_jffs2.c work on, and the current partition, which is kept as a device and an index.
Devices and partitions are known by their addresses; `fresh` is the next one that malloc gives, and
there is memory for all. Definitions stand as part_parse has taken them from the text. The
environment, whose partition variable only repeats the current partition, and the texts on the
console are left out.
-/

namespace UBoot.Mtd.PartLists

open MtdParts

def sizeRemaining : UInt32 := 0xffffffff

def offsetNotSpecified : UInt32 := 0xffffffff

inductive DevType where
  | nor
  | nand
  deriving DecidableEq

/-- An entry of mtdids. -/
structure MtdIds where
  type : DevType
  num : UInt8
  size : UInt32
  mtdId : List UInt8
  deriving DecidableEq

structure FlashInfo where
  start : List UInt32
  size : UInt32

/-- flash_info and the erasesize of nand_info. -/
structure Board where
  flashInfo : UInt8 → FlashInfo
  erasesize : UInt8 → UInt32

structure Part where
  ptr : Nat
  info : PartInfo

structure Device where
  ptr : Nat
  id : MtdIds
  numParts : UInt16
  parts : List Part

structure MtdLists where
  devices : List Device
  currentDev : Option Nat
  currentPartnum : UInt8
  fresh : Nat

/-! ### The checks -/

def partValidateNor (flash : FlashInfo) (offset size : UInt32) : Bool :=
  let first := flash.start.headD 0
  flash.start.any (fun start => start - first = offset) &&
    (flash.start.any (fun start => start - first = offset + size) || flash.size = offset + size)

def partValidateNand (erasesize offset size : UInt32) : Bool :=
  offset % erasesize = 0 && size % erasesize = 0

/-- part_validate, with the size that it leaves in a valid partition. -/
def partValidate (board : Board) (id : MtdIds) (part : PartInfo) : Option PartInfo :=
  let size := if part.size = sizeRemaining then id.size - part.offset else part.size
  if id.size < part.offset then none
  else if part.offset + size ≤ part.offset then none
  else if id.size < part.offset + size then none
  else
    let valid :=
      match id.type with
      | .nand => partValidateNand (board.erasesize id.num) part.offset size
      | .nor => partValidateNor (board.flashInfo id.num) part.offset size
    if valid then some { part with size := size } else none

/-! ### The lists -/

/-- The place for a partition, and the entry in front of which it is put. -/
def insertSorted (new : Part) : List Part → Option (List Part × Option Part)
  | [] => some ([new], none)
  | pi :: rest =>
      -- only one partition at offset zero
      if new.info.offset = pi.info.offset ∧ pi.info.offset = 0 then none
      else if new.info.offset ≤ pi.info.offset then some (new :: pi :: rest, some pi)
      else (insertSorted new rest).map fun found => (pi :: found.1, found.2)

def jffs2PartInfo (dev : Device) (partNum : Nat) : Option Part :=
  if dev.numParts.toNat ≤ partNum then none else dev.parts[partNum]?

def Device.insert (dev : Device) (part : Part) : Option (Device × Option Part) :=
  (insertSorted part dev.parts).map fun found =>
    ({ dev with parts := found.1, numParts := dev.numParts + 1 }, found.2)

/-- A device in the list, in its new form. -/
def replace (devices : List Device) (dev : Device) : List Device :=
  devices.map fun other => if other.ptr = dev.ptr then dev else other

/-- jffs2_part_info of the current partition, where the operation is on the current device. -/
def currPi (mtd : MtdLists) (dev : Device) : Option Part :=
  if mtd.currentDev = some dev.ptr then jffs2PartInfo dev mtd.currentPartnum.toNat else none

/-- current_partnum when a partition is put in front of `entry`. -/
def partnumAdded (entry curr : Option Part) (partnum : UInt8) : UInt8 :=
  match entry, curr with
  | some pi, some curr => if pi.info.offset ≤ curr.info.offset then partnum + 1 else partnum
  | _, _ => partnum

/-- part_sort_add for a device in the list. -/
def partSortAdd (mtd : MtdLists) (dev : Device) (part : Part) : Option MtdLists :=
  (dev.insert part).map fun found =>
    { mtd with
      devices := replace mtd.devices found.1
      currentPartnum := partnumAdded found.2 (currPi mtd dev) mtd.currentPartnum }

def deviceFind (devices : List Device) (type : DevType) (num : UInt8) : Option Device :=
  devices.find? fun dev => dev.id.type = type ∧ dev.id.num = num

/-- The loop of device_parse over definitions that part_parse has taken. -/
def parseParts (board : Board) (id : MtdIds) : List PartInfo → (offset : UInt32) → (fresh : Nat) →
    Option (List Part)
  | [], _, _ => some []
  | part :: rest, offset, fresh =>
      let place := if part.offset = offsetNotSpecified then offset else part.offset
      match partValidate board id { part with offset := place } with
      | none => none
      | some valid =>
          (parseParts board id rest (place + valid.size) (fresh + 1)).map
            fun later => ⟨fresh, valid⟩ :: later

def insertAll : List Part → Device → Option Device
  | [], dev => some dev
  | part :: rest, dev =>
      match dev.insert part with
      | none => none
      | some found => insertAll rest found.1

/-- device_parse: a new device with the partitions of its definition. -/
def deviceParse (board : Board) (mtd : MtdLists) (id : MtdIds) (defs : List PartInfo) : Option Device :=
  let offset :=
    match deviceFind mtd.devices id.type id.num with
    | none => 0
    | some dev =>
        match dev.parts.getLast? with
        | none => 0
        | some last => last.info.offset + last.info.size
  if defs = [] then none
  else
    match parseParts board id defs offset (mtd.fresh + 1) with
    | none => none
    | some parts => insertAll parts ⟨mtd.fresh, id, 0, []⟩

def deviceAdd (mtd : MtdLists) (dev : Device) : MtdLists :=
  if mtd.devices = [] then
    { mtd with devices := [dev], currentDev := some dev.ptr, currentPartnum := 0 }
  else { mtd with devices := mtd.devices ++ [dev] }

def partAdd (board : Board) (mtd : MtdLists) (dev : Device) (part : Part) : Option MtdLists :=
  match partValidate board dev.id part.info with
  | none => none
  | some valid => partSortAdd mtd dev ⟨part.ptr, valid⟩

/-- mtdparts add. Of several partitions for a device that exists only the first is added. -/
def mtdpartsAdd (board : Board) (before : MtdLists) (id : MtdIds) (defs : List PartInfo) : MtdLists :=
  match deviceParse board before id defs with
  | none => before
  | some dev =>
      let mtd := { before with fresh := before.fresh + 1 + defs.length }
      match deviceFind mtd.devices id.type id.num with
      | none => deviceAdd mtd dev
      | some devTmp =>
          match dev.parts.head? with
          | none => mtd
          | some part => (partAdd board mtd devTmp part).getD mtd

def deviceDel (mtd : MtdLists) (dev : Device) : MtdLists :=
  let devices := mtd.devices.filter fun other => other.ptr ≠ dev.ptr
  if mtd.currentDev = some dev.ptr then
    match devices with
    | [] => { mtd with devices := [], currentDev := none }
    | first :: _ =>
        { mtd with devices := devices, currentDev := some first.ptr, currentPartnum := 0 }
  else { mtd with devices := devices }

/-- current_partnum when a partition is deleted. -/
def partnumDeleted (part : Part) (curr : Option Part) (partnum : UInt8) : UInt8 :=
  match curr with
  | none => partnum
  | some curr =>
      if curr.ptr = part.ptr then 0
      else if part.info.offset ≤ curr.info.offset then partnum - 1
      else partnum

def partDel (mtd : MtdLists) (dev : Device) (part : Part) : MtdLists :=
  if dev.numParts = 1 then deviceDel mtd dev
  else
    { mtd with
      devices := replace mtd.devices
        { dev with
          parts := dev.parts.filter fun other => other.ptr ≠ part.ptr
          numParts := dev.numParts - 1 }
      currentPartnum := partnumDeleted part (currPi mtd dev) mtd.currentPartnum }

def findDevAndPart (mtd : MtdLists) (type : DevType) (dnum pnum : UInt8) : Option (Device × Part) :=
  (deviceFind mtd.devices type dnum).bind fun dev =>
    (jffs2PartInfo dev pnum.toNat).map fun part => (dev, part)

def deletePartition (mtd : MtdLists) (type : DevType) (dnum pnum : UInt8) : MtdLists :=
  match findDevAndPart mtd type dnum pnum with
  | none => mtd
  | some (dev, part) => partDel mtd dev part

def chpart (mtd : MtdLists) (type : DevType) (dnum pnum : UInt8) : MtdLists :=
  match findDevAndPart mtd type dnum pnum with
  | none => mtd
  | some (dev, _) => { mtd with currentDev := some dev.ptr, currentPartnum := pnum }

/-- The loop of parse_mtdparts. A device that is defined twice ends it. -/
def parseDevices (board : Board) : List (MtdIds × List PartInfo) → MtdLists → Option MtdLists
  | [], mtd => some mtd
  | (id, defs) :: rest, mtd =>
      match deviceParse board mtd id defs with
      | none => none
      | some dev =>
          match deviceFind mtd.devices id.type id.num with
          | some _ => none
          | none => parseDevices board rest
              { mtd with devices := mtd.devices ++ [dev], fresh := mtd.fresh + 1 + defs.length }

/-- devices_init. -/
def devicesInit (mtd : MtdLists) : MtdLists := { mtd with devices := [], currentDev := none }

/-- mtdparts_init where the variable has changed: the old lists go, and the first partition of the
first device becomes the current one. -/
def mtdpartsInit (board : Board) (before : MtdLists) (devs : List (MtdIds × List PartInfo)) :
    MtdLists :=
  match parseDevices board devs (devicesInit before) with
  | none => devicesInit before
  | some mtd =>
      match mtd.devices with
      | [] => devicesInit before
      | first :: _ => { mtd with currentDev := some first.ptr, currentPartnum := 0 }

inductive MtdEvent where
  | init (devs : List (MtdIds × List PartInfo))
  | add (id : MtdIds) (defs : List PartInfo)
  | del (type : DevType) (dnum pnum : UInt8)
  | chpart (type : DevType) (dnum pnum : UInt8)

def mtdStep (board : Board) (mtd : MtdLists) : MtdEvent → MtdLists
  | .init devs => mtdpartsInit board mtd devs
  | .add id defs => mtdpartsAdd board mtd id defs
  | .del type dnum pnum => deletePartition mtd type dnum pnum
  | .chpart type dnum pnum => chpart mtd type dnum pnum

/-- Before anything was added. -/
def emptyMtd : MtdLists := ⟨[], none, 0, 0⟩

/-! ### What is to hold -/

def Sorted (parts : List Part) : Prop :=
  parts.Pairwise fun one other => one.info.offset ≤ other.info.offset

/-- Inside of the device, without a wrap. -/
def Fits (id : MtdIds) (part : PartInfo) : Prop :=
  part.offset.toNat + part.size.toNat ≤ id.size.toNat

structure DeviceRight (dev : Device) : Prop where
  sorted : Sorted dev.parts
  counted : dev.numParts.toNat = dev.parts.length
  inside : ∀ part ∈ dev.parts, Fits dev.id part.info

/-- The current partition. -/
def designated (mtd : MtdLists) : Option Part :=
  mtd.currentDev.bind fun current =>
    (mtd.devices.find? fun dev => dev.ptr = current).bind fun dev =>
      jffs2PartInfo dev mtd.currentPartnum.toNat

/-- The partition at an address is still there. -/
def Present (mtd : MtdLists) (ptr : Nat) : Prop :=
  ∃ dev ∈ mtd.devices, ∃ part ∈ dev.parts, part.ptr = ptr

def KeepsCurrent (before after : MtdLists) : Prop :=
  ∀ part, designated before = some part → Present after part.ptr → designated after = some part

/-- What an operation leaves behind. mtdparts_init chooses the current partition anew, and chpart
makes the partition current that it finds. -/
structure StepRight (board : Board) (mtd : MtdLists) (event : MtdEvent) : Prop where
  devices : ∀ dev ∈ (mtdStep board mtd event).devices, DeviceRight dev
  current :
    match event with
    | .init _ => True
    | .add _ _ => KeepsCurrent mtd (mtdStep board mtd event)
    | .del _ _ _ => KeepsCurrent mtd (mtdStep board mtd event)
    | .chpart type dnum pnum =>
        match findDevAndPart mtd type dnum pnum with
        | none => KeepsCurrent mtd (mtdStep board mtd event)
        | some found => designated (mtdStep board mtd event) = some found.2

/-- Only one partition is allowed at offset zero. -/
def ZeroFree (dev : Device) (offset : UInt32) : Prop :=
  offset = 0 → ∀ part ∈ dev.parts, part.info.offset ≠ 0

/-- For a partition that goes to a listed device: there is room for it in num_parts, and in the index
of a current partition behind it. -/
def PartMeets (mtd : MtdLists) (dev : Device) (valid : PartInfo) : Prop :=
  ZeroFree dev valid.offset →
    dev.numParts.toNat + 1 < 2 ^ 16 ∧
      (mtd.currentDev = some dev.ptr → mtd.currentPartnum = 255 →
        ∀ curr ∈ designated mtd, curr.info.offset < valid.offset)

/-- Where a partition is added, the counters have room for it, and none is deleted that stands
behind the current one at the same offset. -/
def Meets (board : Board) (mtd : MtdLists) : MtdEvent → Prop
  | .init devs =>
      (parseDevices board devs (devicesInit mtd)).isSome → ∀ entry ∈ devs, entry.2.length < 2 ^ 16
  | .add id defs => ∀ new ∈ deviceParse board mtd id defs,
      match deviceFind mtd.devices id.type id.num with
      | none => defs.length < 2 ^ 16
      | some dev => ∀ part ∈ new.parts.head?, ∀ valid ∈ partValidate board dev.id part.info,
          PartMeets mtd dev valid
  | .del type dnum pnum =>
      ∀ found ∈ findDevAndPart mtd type dnum pnum, mtd.currentDev = some found.1.ptr →
        mtd.currentPartnum < pnum → ∀ curr ∈ designated mtd,
          curr.info.offset ≠ found.2.info.offset
  | .chpart _ _ _ => True

instance (mtd : MtdLists) (dev : Device) (valid : PartInfo) : Decidable (PartMeets mtd dev valid) := by
  unfold PartMeets ZeroFree
  infer_instance

instance (board : Board) (mtd : MtdLists) (event : MtdEvent) : Decidable (Meets board mtd event) :=
  match event with
  | .init devs => inferInstanceAs (Decidable (_ → ∀ entry ∈ devs, entry.2.length < 2 ^ 16))
  | .add id defs =>
      have (new : Device) : Decidable (match deviceFind mtd.devices id.type id.num with
          | none => defs.length < 2 ^ 16
          | some dev => ∀ part ∈ new.parts.head?, ∀ valid ∈ partValidate board dev.id part.info,
              PartMeets mtd dev valid) := by
        cases deviceFind mtd.devices id.type id.num <;> infer_instance
      inferInstanceAs (Decidable (∀ new ∈ deviceParse board mtd id defs, _))
  | .del type dnum pnum =>
      inferInstanceAs (Decidable (∀ found ∈ findDevAndPart mtd type dnum pnum, _))
  | .chpart _ _ _ => isTrue trivial

/-! ### The place of a partition -/

section Place
variable {new : Part} {parts : List Part}

theorem sorted_head {pi part : Part} {rest : List Part} (sorted : Sorted (pi :: rest))
    (member : part ∈ pi :: rest) : pi.info.offset ≤ part.info.offset := by
  rcases List.mem_cons.mp member with rfl | later
  · exact UInt32.le_refl _
  · exact (List.pairwise_cons.mp sorted).1 part later

/-- A partition is refused where there would be two at offset zero. -/
theorem insert_sorted_isSome (sorted : Sorted parts) :
    (insertSorted new parts).isSome ↔
      (new.info.offset = 0 → ∀ part ∈ parts, part.info.offset ≠ 0) := by
  induction parts with
  | nil => exact iff_of_true rfl fun _ part member => absurd member List.not_mem_nil
  | cons pi rest inductive_hypothesis =>
      rw [insertSorted]
      by_cases second : new.info.offset = pi.info.offset ∧ pi.info.offset = 0
      · rw [if_pos second]
        refine iff_of_false Bool.false_ne_true fun zero_free => ?_
        exact zero_free (second.1.trans second.2) pi List.mem_cons_self second.2
      · rw [if_neg second]
        by_cases here : new.info.offset ≤ pi.info.offset
        · rw [if_pos here]
          refine iff_of_true rfl fun zero part member at_zero => second ?_
          have first := sorted_head sorted member
          rw [at_zero] at first
          have pi_zero := UInt32.le_zero_iff.mp first
          exact ⟨zero.trans pi_zero.symm, pi_zero⟩
        · rw [if_neg here, Option.isSome_map,
            inductive_hypothesis (List.pairwise_cons.mp sorted).2]
          have behind : new.info.offset ≠ 0 := by
            intro zero
            rw [zero] at here
            exact here UInt32.zero_le
          exact iff_of_true (fun zero => absurd zero behind) fun zero => absurd zero behind

/-- part_sort_add puts the partition behind those with smaller offsets. -/
theorem insert_sorted_split {after : List Part} {entry : Option Part}
    (placed : insertSorted new parts = some (after, entry)) :
    ∃ front back, parts = front ++ back ∧ after = front ++ new :: back ∧ entry = back.head? ∧
      (∀ part ∈ front, part.info.offset < new.info.offset) ∧
      ∀ part ∈ back.head?, new.info.offset ≤ part.info.offset := by
  induction parts generalizing after entry with
  | nil =>
      cases placed
      exact ⟨[], [], rfl, rfl, rfl, fun part member => absurd member List.not_mem_nil,
        fun part member => absurd member (Option.not_mem_none part)⟩
  | cons pi rest inductive_hypothesis =>
      rw [insertSorted] at placed
      split at placed
      · cases placed
      · split at placed
        · rename_i here
          cases placed
          refine ⟨[], pi :: rest, rfl, rfl, rfl, fun part member => absurd member List.not_mem_nil,
            ?_⟩
          intro part head
          rw [← Option.mem_some.mp head]
          exact here
        · rename_i behind
          obtain ⟨⟨later, found⟩, inner, same⟩ := Option.map_eq_some_iff.mp placed
          cases same
          obtain ⟨front, back, split, put, next, smaller, larger⟩ := inductive_hypothesis inner
          refine ⟨pi :: front, back, by rw [split]; rfl, by rw [put]; rfl, next, ?_, larger⟩
          intro part member
          rcases List.mem_cons.mp member with rfl | member
          · exact UInt32.not_le.mp behind
          · exact smaller part member

theorem head_least {back : List Part} {offset : UInt32} (sorted : Sorted back)
    (larger : ∀ part ∈ back.head?, offset ≤ part.info.offset) :
    ∀ part ∈ back, offset ≤ part.info.offset := by
  cases back with
  | nil => exact fun part member => absurd member List.not_mem_nil
  | cons pi rest =>
      intro part member
      exact UInt32.le_trans (larger pi rfl) (sorted_head sorted member)

theorem sorted_insert {front back : List Part} (sorted : Sorted (front ++ back))
    (smaller : ∀ part ∈ front, part.info.offset < new.info.offset)
    (larger : ∀ part ∈ back, new.info.offset ≤ part.info.offset) :
    Sorted (front ++ new :: back) := by
  obtain ⟨in_front, behind, across⟩ := List.pairwise_append.mp sorted
  refine List.pairwise_append.mpr ⟨in_front, List.pairwise_cons.mpr ⟨larger, behind⟩, ?_⟩
  intro part member other later
  rcases List.mem_cons.mp later with rfl | later
  · exact UInt32.le_of_lt (smaller part member)
  · exact across part member other later

end Place

/-! ### A new device -/

theorem part_validate_fits {board : Board} {id : MtdIds} {part valid : PartInfo}
    (validated : partValidate board id part = some valid) : Fits id valid := by
  unfold partValidate at validated
  dsimp only at validated
  generalize (if part.size = sizeRemaining then id.size - part.offset else part.size) = size
    at validated
  split at validated
  · cases validated
  · split at validated
    · cases validated
    · split at validated
      · cases validated
      · rename_i _ no_wrap within
        obtain ⟨-, same⟩ := Option.ite_none_right_eq_some.mp validated
        cases same
        rw [UInt32.le_iff_toNat_le, UInt32.toNat_add] at no_wrap
        rw [UInt32.lt_iff_toNat_lt, UInt32.toNat_add] at within
        have below := part.offset.toNat_lt
        have small := size.toNat_lt
        show part.offset.toNat + size.toNat ≤ id.size.toNat
        omega

/-- Every definition of a new device has passed part_validate. -/
theorem parse_parts_right {board : Board} {id : MtdIds} {defs : List PartInfo} {offset : UInt32}
    {fresh : Nat} {parts : List Part} (parsed : parseParts board id defs offset fresh = some parts) :
    parts.map Part.ptr = List.range' fresh defs.length ∧ ∀ part ∈ parts, Fits id part.info := by
  induction defs generalizing offset fresh parts with
  | nil =>
      cases parsed
      exact ⟨rfl, fun part member => absurd member List.not_mem_nil⟩
  | cons part rest inductive_hypothesis =>
      rw [parseParts] at parsed
      generalize (if part.offset = offsetNotSpecified then offset else part.offset) = place
        at parsed
      cases validated : partValidate board id { part with offset := place } with
      | none =>
          rw [validated] at parsed
          cases parsed
      | some valid =>
          rw [validated] at parsed
          obtain ⟨later, inner, same⟩ := Option.map_eq_some_iff.mp parsed
          obtain ⟨ptrs, fit⟩ := inductive_hypothesis inner
          rw [← same]
          refine ⟨by rw [List.map_cons, ptrs]; rfl, ?_⟩
          intro part member
          rcases List.mem_cons.mp member with rfl | member
          · exact part_validate_fits validated
          · exact fit part member

theorem insert_right {dev after : Device} {new : Part} {entry : Option Part}
    (inserted : dev.insert new = some (after, entry)) (sorted : Sorted dev.parts) :
    after.parts.Perm (new :: dev.parts) ∧ Sorted after.parts ∧ after.ptr = dev.ptr ∧
      after.id = dev.id ∧ after.numParts = dev.numParts + 1 := by
  obtain ⟨⟨later, found⟩, placed, same⟩ := Option.map_eq_some_iff.mp inserted
  cases same
  obtain ⟨front, back, split, put, -, smaller, larger⟩ := insert_sorted_split placed
  dsimp only at put ⊢
  rw [split] at sorted
  have behind := head_least (List.pairwise_append.mp sorted).2.1 larger
  refine ⟨?_, ?_, rfl, rfl, rfl⟩
  · rw [put, split]
    exact List.perm_middle
  · rw [put]
    exact sorted_insert sorted smaller behind

theorem insert_all_right {parts : List Part} {dev after : Device}
    (inserted : insertAll parts dev = some after) (sorted : Sorted dev.parts) :
    after.parts.Perm (parts ++ dev.parts) ∧ Sorted after.parts ∧ after.ptr = dev.ptr ∧
      after.id = dev.id ∧ after.numParts = dev.numParts + UInt16.ofNat parts.length := by
  induction parts generalizing dev with
  | nil =>
      cases inserted
      exact ⟨List.Perm.refl _, sorted, rfl, rfl, (UInt16.add_zero _).symm⟩
  | cons part rest inductive_hypothesis =>
      rw [insertAll] at inserted
      cases first : dev.insert part with
      | none =>
          rw [first] at inserted
          cases inserted
      | some found =>
          rw [first] at inserted
          obtain ⟨perm, now_sorted, same_ptr, same_id, counted⟩ := insert_right first sorted
          obtain ⟨later, ends_sorted, later_ptr, later_id, later_counted⟩ :=
            inductive_hypothesis inserted now_sorted
          refine ⟨?_, ends_sorted, later_ptr.trans same_ptr, later_id.trans same_id, ?_⟩
          · exact later.trans ((perm.append_left rest).trans List.perm_middle)
          · rw [later_counted, counted, List.length_cons, UInt16.ofNat_add, UInt16.add_assoc,
              UInt16.add_comm 1]
            rfl

/-- A device as device_parse leaves it. -/
theorem device_parse_right {board : Board} {mtd : MtdLists} {id : MtdIds} {defs : List PartInfo}
    {new : Device} (parsed : deviceParse board mtd id defs = some new) :
    (new.parts.map Part.ptr).Perm (List.range' (mtd.fresh + 1) defs.length) ∧ Sorted new.parts ∧
      new.ptr = mtd.fresh ∧ new.parts ≠ [] ∧ new.numParts = UInt16.ofNat defs.length ∧
      ∀ part ∈ new.parts, Fits new.id part.info := by
  unfold deviceParse at parsed
  dsimp only at parsed
  split at parsed
  · cases parsed
  · rename_i some_def
    split at parsed
    · cases parsed
    · rename_i parts taken
      obtain ⟨ptrs, fit⟩ := parse_parts_right taken
      obtain ⟨perm, sorted, same_ptr, same_id, counted⟩ :=
        insert_all_right parsed List.Pairwise.nil
      rw [List.append_nil] at perm
      have length : parts.length = defs.length := by
        rw [← List.length_map Part.ptr, ptrs, List.length_range']
      refine ⟨?_, sorted, same_ptr, ?_, ?_, ?_⟩
      · rw [← ptrs]
        exact perm.map Part.ptr
      · intro empty
        rw [empty] at perm
        rw [List.nil_perm.mp perm] at length
        exact some_def (List.length_eq_zero_iff.mp length.symm)
      · rw [counted, length, UInt16.zero_add]
      · intro part member
        rw [same_id]
        exact fit part (perm.mem_iff.mp member)

/-! ### The devices -/

/-- A listed device, with what holds of its contents. Addresses in use are below `fresh`. -/
structure DeviceKept (holds : Device → Prop) (fresh : Nat) (dev : Device) : Prop where
  right : holds dev
  filled : dev.parts ≠ []
  apart : (dev.parts.map Part.ptr).Nodup
  below : dev.ptr < fresh ∧ ∀ part ∈ dev.parts, part.ptr < fresh

structure Kept (holds : Device → Prop) (devices : List Device) (fresh : Nat) : Prop where
  each : ∀ dev ∈ devices, DeviceKept holds fresh dev
  apart : (devices.map Device.ptr).Nodup
  owner : ∀ one ∈ devices, ∀ other ∈ devices, ∀ part ∈ one.parts, ∀ same ∈ other.parts,
    part.ptr = same.ptr → one.ptr = other.ptr

theorem DeviceKept.mono {holds : Device → Prop} {fresh later : Nat} {dev : Device}
    (kept : DeviceKept holds fresh dev) (after : fresh ≤ later) : DeviceKept holds later dev where
  right := kept.right
  filled := kept.filled
  apart := kept.apart
  below := ⟨Nat.lt_of_lt_of_le kept.below.1 after,
    fun part member => Nat.lt_of_lt_of_le (kept.below.2 part member) after⟩

section Devices
variable {holds : Device → Prop} {devices : List Device} {fresh later : Nat}

/-- A device with a partition more, at a new address. -/
theorem kept_more {dev after : Device} {part : Part} (kept : DeviceKept holds fresh dev)
    (right : holds after) (perm : after.parts.Perm (part :: dev.parts))
    (same_ptr : after.ptr = dev.ptr) (new_ptr : fresh ≤ part.ptr) (used : part.ptr < later) :
    DeviceKept holds later after := by
  have later_le : fresh ≤ later := Nat.le_of_lt (Nat.lt_of_le_of_lt new_ptr used)
  refine ⟨right, ?_, ?_, ?_, ?_⟩
  · intro empty
    rw [empty] at perm
    exact List.cons_ne_nil _ _ (List.nil_perm.mp perm)
  · refine (perm.map Part.ptr).nodup_iff.mpr (List.nodup_cons.mpr ⟨?_, kept.apart⟩)
    intro taken
    obtain ⟨pi, member, same⟩ := List.mem_map.mp taken
    have old := kept.below.2 pi member
    omega
  · rw [same_ptr]
    exact Nat.lt_of_lt_of_le kept.below.1 later_le
  · intro pi member
    rcases List.mem_cons.mp (perm.mem_iff.mp member) with rfl | old
    · exact used
    · exact Nat.lt_of_lt_of_le (kept.below.2 pi old) later_le

/-- A device with partitions less. -/
theorem kept_less {dev after : Device} (kept : DeviceKept holds fresh dev) (right : holds after)
    (sub : after.parts.Sublist dev.parts) (filled : after.parts ≠ [])
    (same_ptr : after.ptr = dev.ptr) : DeviceKept holds fresh after := by
  refine ⟨right, filled, kept.apart.sublist (sub.map Part.ptr), ?_, ?_⟩
  · rw [same_ptr]
    exact kept.below.1
  · exact fun pi member => kept.below.2 pi (sub.mem member)

theorem find_listed (apart : (devices.map Device.ptr).Nodup) {dev : Device}
    (listed : dev ∈ devices) : devices.find? (fun other => other.ptr = dev.ptr) = some dev := by
  induction devices with
  | nil => cases listed
  | cons first rest inductive_hypothesis =>
      rw [List.map_cons, List.nodup_cons] at apart
      rcases List.mem_cons.mp listed with rfl | listed
      · exact List.find?_cons_of_pos (decide_eq_true rfl)
      · have other_ptr : first.ptr ≠ dev.ptr := by
          intro same
          rw [same] at apart
          exact apart.1 (List.mem_map_of_mem listed)
        rw [List.find?_cons_of_neg (by simpa using other_ptr)]
        exact inductive_hypothesis apart.2 listed

theorem mem_replace {dev other : Device} (member : other ∈ replace devices dev) :
    other = dev ∨ other ∈ devices ∧ other.ptr ≠ dev.ptr := by
  obtain ⟨origin, listed, same⟩ := List.mem_map.mp member
  split at same
  · exact .inl same.symm
  · rename_i other_ptr
    rw [← same]
    exact .inr ⟨listed, other_ptr⟩

theorem replace_ptrs (dev : Device) :
    (replace devices dev).map Device.ptr = devices.map Device.ptr := by
  unfold replace
  rw [List.map_map]
  refine List.map_congr_left fun other _ => ?_
  rw [Function.comp_apply]
  split
  · rename_i same
    exact same.symm
  · rfl

theorem replace_listed {old : Device} (dev : Device) (listed : old ∈ devices)
    (same_ptr : dev.ptr = old.ptr) : dev ∈ replace devices dev :=
  List.mem_map.mpr ⟨old, listed, if_pos same_ptr.symm⟩

theorem replace_other {dev other : Device} (listed : other ∈ devices)
    (other_ptr : other.ptr ≠ dev.ptr) : other ∈ replace devices dev :=
  List.mem_map.mpr ⟨other, listed, if_neg other_ptr⟩

theorem kept_nil : Kept holds [] fresh where
  each := fun _ member => absurd member List.not_mem_nil
  apart := List.nodup_nil
  owner := fun _ member => absurd member List.not_mem_nil

theorem kept_filter (kept : Kept holds devices fresh) (left : Device → Bool) :
    Kept holds (devices.filter left) fresh where
  each := fun dev member => kept.each dev (List.mem_of_mem_filter member)
  apart := kept.apart.sublist (List.filter_sublist.map Device.ptr)
  owner := fun one listed other also => kept.owner one (List.mem_of_mem_filter listed) other
    (List.mem_of_mem_filter also)

/-- A new device stands at new addresses. -/
theorem kept_append (kept : Kept holds devices fresh) {new : Device}
    (new_kept : DeviceKept holds later new) (after : fresh ≤ later) (new_ptr : fresh ≤ new.ptr)
    (new_parts : ∀ part ∈ new.parts, fresh ≤ part.ptr) : Kept holds (devices ++ [new]) later := by
  have old_part (dev : Device) (listed : dev ∈ devices) (part : Part) (member : part ∈ dev.parts)
      (other : Part) (new_member : other ∈ new.parts) : part.ptr ≠ other.ptr :=
    Nat.ne_of_lt (Nat.lt_of_lt_of_le ((kept.each dev listed).below.2 part member)
      (new_parts other new_member))
  refine ⟨?_, ?_, ?_⟩
  · intro dev member
    rcases List.mem_append.mp member with listed | last
    · exact (kept.each dev listed).mono after
    · rw [List.mem_singleton.mp last]
      exact new_kept
  · rw [List.map_append, List.nodup_append]
    refine ⟨kept.apart, List.nodup_singleton _, ?_⟩
    intro ptr used other last
    obtain ⟨dev, listed, rfl⟩ := List.mem_map.mp used
    rw [List.mem_singleton.mp last]
    exact Nat.ne_of_lt (Nat.lt_of_lt_of_le (kept.each dev listed).below.1 new_ptr)
  · intro one listed other also part member same same_member equal
    rcases List.mem_append.mp listed with listed | last
    · rcases List.mem_append.mp also with also | also_last
      · exact kept.owner one listed other also part member same same_member equal
      · rw [List.mem_singleton.mp also_last] at same_member
        exact absurd equal (old_part one listed part member same same_member)
    · rcases List.mem_append.mp also with also | also_last
      · rw [List.mem_singleton.mp last] at member
        exact absurd equal.symm (old_part other also same same_member part member)
      · rw [List.mem_singleton.mp last, List.mem_singleton.mp also_last]

/-- A device gets other partitions, old ones or ones at new addresses. -/
theorem kept_replace (kept : Kept holds devices fresh) {old new : Device} (listed : old ∈ devices)
    (same_ptr : new.ptr = old.ptr) (new_kept : DeviceKept holds later new) (after : fresh ≤ later)
    (parts : ∀ part ∈ new.parts, part ∈ old.parts ∨ fresh ≤ part.ptr) :
    Kept holds (replace devices new) later := by
  have elsewhere (dev : Device) (other_listed : dev ∈ devices) (other_ptr : dev.ptr ≠ new.ptr)
      (part : Part) (member : part ∈ dev.parts) (same : Part) (same_member : same ∈ new.parts) :
      part.ptr ≠ same.ptr := by
    intro equal
    rcases parts same same_member with old_one | added
    · exact other_ptr ((kept.owner dev other_listed old listed part member same old_one equal).trans
        same_ptr.symm)
    · have used := (kept.each dev other_listed).below.2 part member
      rw [equal] at used
      exact Nat.not_le_of_lt used added
  refine ⟨?_, ?_, ?_⟩
  · intro dev member
    rcases mem_replace member with rfl | ⟨listed, -⟩
    · exact new_kept
    · exact (kept.each dev listed).mono after
  · rw [replace_ptrs]
    exact kept.apart
  · intro one one_listed other other_listed part member same same_member equal
    rcases mem_replace one_listed with rfl | ⟨one_old, one_ptr⟩
    · rcases mem_replace other_listed with rfl | ⟨other_old, other_ptr⟩
      · rfl
      · exact absurd equal.symm (elsewhere other other_old other_ptr same same_member part member)
    · rcases mem_replace other_listed with rfl | ⟨other_old, -⟩
      · exact absurd equal (elsewhere one one_old one_ptr part member same same_member)
      · exact kept.owner one one_old other other_old part member same same_member equal

theorem split_at {part : Part} {parts : List Part} {k : Nat} (found : parts[k]? = some part) :
    ∃ front back, parts = front ++ part :: back ∧ front.length = k := by
  obtain ⟨inside, rfl⟩ := List.getElem?_eq_some_iff.mp found
  refine ⟨parts.take k, parts.drop (k + 1), ?_, List.length_take_of_le (Nat.le_of_lt inside)⟩
  rw [← List.drop_eq_getElem_cons inside, List.take_append_drop]

/-- list_del takes out the one partition at its address. -/
theorem filter_apart {part : Part} {front back : List Part}
    (apart : ((front ++ part :: back).map Part.ptr).Nodup) :
    (front ++ part :: back).filter (fun other => other.ptr ≠ part.ptr) = front ++ back := by
  rw [List.map_append, List.map_cons, List.nodup_middle, List.nodup_cons, ← List.map_append] at apart
  have kept : ∀ other ∈ front ++ back, other.ptr ≠ part.ptr := by
    intro other member same
    rw [← same] at apart
    exact apart.1 (List.mem_map_of_mem member)
  have gone : decide (part.ptr ≠ part.ptr) = false := decide_eq_false fun other => other rfl
  rw [List.filter_append, List.filter_cons, gone, if_neg Bool.false_ne_true, ← List.filter_append]
  exact List.filter_eq_self.mpr fun other member => decide_eq_true (kept other member)

/-! ### The addresses of a new device -/

section Parsed
variable {board : Board} {mtd : MtdLists} {id : MtdIds} {defs : List PartInfo} {new : Device}

theorem parsed_between (parsed : deviceParse board mtd id defs = some new) :
    ∀ part ∈ new.parts, mtd.fresh + 1 ≤ part.ptr ∧ part.ptr < mtd.fresh + 1 + defs.length := by
  intro part member
  have listed := (device_parse_right parsed).1.mem_iff.mp (List.mem_map_of_mem member)
  rw [List.mem_range'_1] at listed
  exact listed

theorem parsed_kept (parsed : deviceParse board mtd id defs = some new) (right : holds new) :
    DeviceKept holds (mtd.fresh + 1 + defs.length) new ∧ mtd.fresh ≤ new.ptr ∧
      ∀ part ∈ new.parts, mtd.fresh ≤ part.ptr := by
  obtain ⟨ptrs, -, new_ptr, filled, -⟩ := device_parse_right parsed
  have between := parsed_between parsed
  refine ⟨⟨right, filled, ?_, ?_, ?_⟩, ?_, ?_⟩
  · exact ptrs.nodup_iff.mpr List.nodup_range'
  · omega
  · exact fun part member => (between part member).2
  · exact Nat.le_of_eq new_ptr.symm
  · exact fun part member => Nat.le_of_succ_le (between part member).1

end Parsed

end Devices

end UBoot.Mtd.PartLists
