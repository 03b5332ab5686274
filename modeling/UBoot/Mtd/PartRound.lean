import UBoot.Library.SortedGroups
import UBoot.Mtd.PartCommands
import UBoot.Mtd.PartRead

/-!
The round trip of the mtdparts variable: the lists that the commands of common/cmd_jffs2.c reach,
written by generate_mtdparts and parsed again by parse_mtdparts.
-/

namespace UBoot.Mtd.PartRound

open Lib.Strings Library.Memory Library.Pieces Library.Runs Library.SortedGroups MtdParts PartLists
  PartText PartRead PartCommands

/-! ### What is to survive -/

/-- What generate_mtdparts sees of a device. -/
def view (dev : Device) : MtdDevice := ⟨dev.id.mtdId, dev.numParts, dev.parts.map Part.info⟩

/-- A partition without its address and a name that it was not given. -/
structure Look where
  offset : UInt32
  size : UInt32
  maskFlags : UInt32
  name : Option (List UInt8)
  deriving DecidableEq

def Look.place (one : Look) : Nat := one.offset.toNat

def look (part : PartInfo) : Look :=
  ⟨part.offset, part.size, part.maskFlags, if part.autoName = 0 then some part.name else none⟩

def partLooks (dev : Device) : List Look := dev.parts.map fun part => look part.info

def looks (devices : List Device) : List (MtdIds × List Look) :=
  devices.map fun dev => (dev.id, partLooks dev)

def infos (dev : Device) : List PartInfo := dev.parts.map Part.info

/-- The same partitions at each offset, in either direction. -/
def Palindromic (dev : Device) : Prop :=
  ∀ place, (group Look.place place (partLooks dev)).reverse = group Look.place place (partLooks dev)

/-- part_parse takes every definition, and partitions at one offset look the same in reverse. -/
def Survives (devices : List Device) : Prop :=
  ∀ dev ∈ devices, Readable (infos dev) ∧ Palindromic dev

/-! ### The lists again -/

section Again
variable {board : Board} {mtdids : List MtdIds} {id : MtdIds}

/-- device_parse gives a partition its place back. -/
theorem def_again {prevPart : Option PartInfo} {part : PartInfo} {offset : UInt32}
    (valid : partValidate board id part = some part)
    (starts : offset = match prevPart with
      | none => 0
      | some prev => prev.offset + prev.size) :
    (if (defOf prevPart part).offset = offsetNotSpecified then offset
      else (defOf prevPart part).offset) = part.offset := by
  unfold defOf
  dsimp only
  by_cases gap : Gap prevPart part
  · have specified : part.offset ≠ offsetNotSpecified := by
      intro same
      obtain ⟨⟨-, no_wrap, -⟩, -⟩ := part_validate_iff.mp valid
      refine no_wrap ?_
      rw [same]
      exact UInt32.le_iff_toNat_le.mpr (Nat.le_of_lt_succ (UInt32.toNat_lt _))
    rw [if_pos gap, if_neg specified]
  · rw [if_neg gap, if_pos rfl, starts]
    unfold Gap at gap
    cases prevPart with
    | none => exact (not_not.mp gap).symm
    | some prev => exact not_not.mp gap

theorem look_again (prevPart : Option PartInfo) (part : PartInfo) :
    look { defOf prevPart part with offset := part.offset } = look part := by
  unfold look defOf
  dsimp only
  split <;> rfl

theorem parse_again {infos : List PartInfo} (prevPart : Option PartInfo) {offset : UInt32}
    (fresh : Nat) (valid : ∀ part ∈ infos, partValidate board id part = some part)
    (starts : offset = match prevPart with
      | none => 0
      | some prev => prev.offset + prev.size) :
    ∃ parts, parseParts board id (defsOf prevPart infos) offset fresh = some parts ∧
      (parts.map fun part => look part.info) = infos.map look := by
  induction infos generalizing prevPart offset fresh with
  | nil => exact ⟨[], rfl, rfl⟩
  | cons part rest inductive_hypothesis =>
      obtain ⟨first, others⟩ := List.forall_mem_cons.mp valid
      have validated : partValidate board id { defOf prevPart part with offset := part.offset } =
          some { defOf prevPart part with offset := part.offset } :=
        validate_same first rfl rfl
      obtain ⟨parts, read, same⟩ := inductive_hypothesis (some part) (fresh + 1) others rfl
      refine ⟨⟨fresh, { defOf prevPart part with offset := part.offset }⟩ :: parts, ?_, ?_⟩
      · rw [defsOf, parseParts, def_again first starts]
        dsimp only
        rw [validated]
        dsimp only
        rw [show (defOf prevPart part).size = part.size from rfl, read]
        rfl
      · rw [List.map_cons, List.map_cons, same, look_again]

/-! ### The order again -/

def partPlace (part : Part) : Nat := part.info.offset.toNat

theorem sorted_by_place {parts : List Part} (sorted : Sorted parts) : SortedBy partPlace parts :=
  sorted.imp fun less => UInt32.le_iff_toNat_le.mp less

theorem insert_group {new : Part} {parts after : List Part} {entry : Option Part}
    (placed : insertSorted new parts = some (after, entry)) (k : Nat) :
    group partPlace k after =
      if partPlace new = k then new :: group partPlace k parts else group partPlace k parts := by
  obtain ⟨front, back, split, put, -, smaller, -⟩ := insert_sorted_split placed
  rw [put, split, group_append, group_append, group_cons]
  by_cases here : partPlace new = k
  · have none_in_front : group partPlace k front = [] := by
      refine List.filter_eq_nil_iff.mpr fun part member same => ?_
      have less := UInt32.lt_iff_toNat_lt.mp (smaller part member)
      have same_place := of_decide_eq_true same
      unfold partPlace at here same_place
      omega
    rw [if_pos here, if_pos here, none_in_front]
    rfl
  · rw [if_neg here, if_neg here]

/-- Partitions that are put in one after the other stand in reverse at each offset. -/
theorem insert_all_groups {parts : List Part} (dev : Device) (sorted : Sorted dev.parts)
    (zeros : parts.Pairwise fun one other => one.info.offset ≠ 0 ∨ other.info.offset ≠ 0)
    (free : ∀ part ∈ parts, part.info.offset = 0 → ∀ other ∈ dev.parts, other.info.offset ≠ 0) :
    ∃ after, insertAll parts dev = some after ∧ Sorted after.parts ∧ after.id = dev.id ∧
      ∀ k, group partPlace k after.parts =
        (group partPlace k parts).reverse ++ group partPlace k dev.parts := by
  induction parts generalizing dev with
  | nil => exact ⟨dev, rfl, sorted, rfl, fun k => rfl⟩
  | cons part rest inductive_hypothesis =>
      obtain ⟨apart, others_apart⟩ := List.pairwise_cons.mp zeros
      obtain ⟨first_free, others_free⟩ := List.forall_mem_cons.mp free
      obtain ⟨⟨later, entry⟩, placed⟩ :=
        Option.isSome_iff_exists.mp ((insert_sorted_isSome sorted).mpr first_free)
      have inserted : dev.insert part =
          some ({ dev with parts := later, numParts := dev.numParts + 1 }, entry) := by
        rw [Device.insert, placed]
        rfl
      obtain ⟨perm, now_sorted, -, -, -⟩ := insert_right inserted sorted
      have still_free : ∀ other ∈ rest, other.info.offset = 0 →
          ∀ pi ∈ later, pi.info.offset ≠ 0 := by
        intro other member at_zero pi pi_member
        rcases List.mem_cons.mp (perm.mem_iff.mp pi_member) with rfl | old
        · exact (apart other member).resolve_right (not_not_intro at_zero)
        · exact others_free other member at_zero pi old
      obtain ⟨after, all, sorted_after, same_id, groups⟩ :=
        inductive_hypothesis { dev with parts := later, numParts := dev.numParts + 1 } now_sorted
          others_apart still_free
      refine ⟨after, ?_, sorted_after, same_id, fun k => ?_⟩
      · rw [insertAll, inserted]
        exact all
      · rw [groups, group_cons, insert_group placed]
        split
        · rw [List.reverse_cons, List.append_assoc, List.singleton_append]
        · rfl

theorem looks_sorted {dev : Device} (sorted : Sorted dev.parts) :
    SortedBy Look.place (partLooks dev) :=
  sorted_map (fun _ => rfl) (sorted_by_place sorted)

theorem looks_group (parts : List Part) (k : Nat) :
    group Look.place k (parts.map fun part => look part.info) =
      (group partPlace k parts).map fun part => look part.info :=
  group_map (fun _ => rfl) k parts

theorem infos_looks (dev : Device) : (infos dev).map look = partLooks dev := List.map_map

/-- A device that is parsed again has its partitions in reverse at each offset. -/
theorem device_again {mtd : MtdLists} {dev : Device} (listed : DeviceListed board mtdids dev)
    (filled : dev.parts ≠ []) (missing : deviceFind mtd.devices dev.id.type dev.id.num = none) :
    ∃ new, deviceParse board mtd dev.id (defsOf none (infos dev)) = some new ∧ new.id = dev.id ∧
      (partLooks new = partLooks dev ↔ Palindromic dev) := by
  have valid : ∀ part ∈ infos dev, partValidate board dev.id part = some part := by
    intro part member
    obtain ⟨origin, origin_member, rfl⟩ := List.mem_map.mp member
    exact (listed.valid origin origin_member).1
  obtain ⟨parts, read, same_looks⟩ := parse_again none (mtd.fresh + 1) valid rfl
  rw [infos_looks] at same_looks
  have zeros : parts.Pairwise fun one other => one.info.offset ≠ 0 ∨ other.info.offset ≠ 0 := by
    have seen : (partLooks dev).Pairwise fun one other => one.offset ≠ 0 ∨ other.offset ≠ 0 :=
      List.pairwise_map.mpr listed.zeros
    rw [← same_looks] at seen
    have apart := List.pairwise_map.mp seen
    exact apart
  obtain ⟨new, inserted, sorted, same_id, groups⟩ := insert_all_groups
    ⟨mtd.fresh, dev.id, 0, []⟩ List.Pairwise.nil zeros
    fun _ _ _ other member => absurd member List.not_mem_nil
  have some_def : defsOf none (infos dev) ≠ [] := by
    obtain ⟨part, rest, shape⟩ := List.exists_cons_of_ne_nil filled
    rw [infos, shape]
    exact List.cons_ne_nil _ _
  refine ⟨new, ?_, same_id, ?_⟩
  · unfold deviceParse
    dsimp only
    rw [missing, if_neg some_def]
    dsimp only
    rw [read]
    exact inserted
  · have new_groups (k : Nat) : group Look.place k (partLooks new) =
        (group Look.place k (partLooks dev)).reverse := by
      rw [partLooks, looks_group, groups, ← same_looks, looks_group, ← List.map_reverse]
      exact congrArg _ (List.append_nil _)
    constructor
    · intro same k
      rw [← new_groups, same]
    · intro same
      refine eq_of_groups (looks_sorted sorted) (looks_sorted listed.sorted) fun k => ?_
      rw [new_groups, same]

/-- All devices again, in the same order. -/
theorem devices_again {devices : List Device} (mtd : MtdLists)
    (listed : ∀ dev ∈ devices, DeviceListed board mtdids dev ∧ dev.parts ≠ [])
    (keys : (devices.map deviceKey).Nodup)
    (new : ∀ dev ∈ devices, ∀ other ∈ mtd.devices, deviceKey other ≠ deviceKey dev) :
    ∃ after news, parseDevices board (devices.map fun dev => (dev.id, defsOf none (infos dev))) mtd =
      some after ∧ after.devices = mtd.devices ++ news ∧
      (looks news = looks devices ↔ ∀ dev ∈ devices, Palindromic dev) ∧
      news.length = devices.length := by
  induction devices generalizing mtd with
  | nil =>
      refine ⟨mtd, [], rfl, (List.append_nil _).symm, ?_, rfl⟩
      exact iff_of_true rfl fun dev member => absurd member List.not_mem_nil
  | cons dev rest inductive_hypothesis =>
      obtain ⟨⟨dev_listed, filled⟩, others⟩ := List.forall_mem_cons.mp listed
      obtain ⟨dev_new, others_new⟩ := List.forall_mem_cons.mp new
      rw [List.map_cons, List.nodup_cons] at keys
      have missing : deviceFind mtd.devices dev.id.type dev.id.num = none := by
        refine List.find?_eq_none.mpr fun other member found => dev_new other member ?_
        obtain ⟨same_type, same_num⟩ := of_decide_eq_true found
        exact Prod.ext same_type same_num
      obtain ⟨first, read, same_id, first_looks⟩ := device_again dev_listed filled missing
      have rest_new : ∀ later ∈ rest, ∀ other ∈ mtd.devices ++ [first],
          deviceKey other ≠ deviceKey later := by
        intro later member other other_member
        rcases List.mem_append.mp other_member with old | last
        · exact others_new later member other old
        · rw [List.mem_singleton.mp last, deviceKey, same_id]
          intro same_key
          refine keys.1 ?_
          rw [deviceKey, same_key]
          exact List.mem_map_of_mem member
      obtain ⟨after, news, rest_read, appended, rest_looks, count⟩ := inductive_hypothesis
        { mtd with
          devices := mtd.devices ++ [first]
          fresh := mtd.fresh + 1 + (defsOf none (infos dev)).length } others keys.2 rest_new
      refine ⟨after, first :: news, ?_, ?_, ?_, ?_⟩
      · rw [List.map_cons, parseDevices, read]
        dsimp only
        rw [missing]
        exact rest_read
      · rw [appended, List.append_assoc, List.singleton_append]
      · rw [List.forall_mem_cons, ← first_looks, ← rest_looks, looks, looks, List.map_cons,
          List.map_cons, List.cons_eq_cons, Prod.mk.injEq, same_id]
        exact and_congr_left' (and_iff_right rfl)
      · rw [List.length_cons, List.length_cons, count]

end Again

/-- Partitions at places of their own stay in order. -/
theorem palindromic_of_apart {dev : Device} (apart : ((partLooks dev).map Look.place).Nodup) :
    Palindromic dev := by
  intro place
  have sub : (group Look.place place (partLooks dev)).Sublist (partLooks dev) := List.filter_sublist
  have one_place : ∀ one ∈ group Look.place place (partLooks dev), one.place = place :=
    fun one member => ((mem_group Look.place).mp member).2
  have group_apart := apart.sublist (sub.map Look.place)
  cases shape : group Look.place place (partLooks dev) with
  | nil => rfl
  | cons first rest =>
      cases rest with
      | nil => rfl
      | cons second rest =>
          rw [shape] at one_place group_apart
          have same : first.place = second.place :=
            (one_place first List.mem_cons_self).trans
              (one_place second (List.mem_cons_of_mem _ List.mem_cons_self)).symm
          rw [List.map_cons, List.map_cons, List.nodup_cons, same] at group_apart
          exact absurd List.mem_cons_self group_apart.1

/-! ### The text -/

/-- Each partition takes a character of the text at least. -/
theorem parts_le_size (dev : MtdDevice) (prevPart : Option PartInfo) (partCnt : Nat)
    (parts : List PartInfo) : parts.length ≤ size (partsPieces dev prevPart partCnt parts) := by
  induction parts generalizing prevPart partCnt with
  | nil => exact Nat.zero_le _
  | cons part rest inductive_hypothesis =>
      obtain ⟨c, front, head, -⟩ := memsize_head part.size
      have later := inductive_hypothesis (some part) (partCnt + 1)
      have first : 1 ≤ size (partPieces dev prevPart (partCnt + 1) part) := by
        unfold partPieces
        rw [List.append_assoc, List.append_assoc, List.append_assoc, List.singleton_append, size_cons,
          head, List.length_cons]
        omega
      rw [partsPieces, size_append, List.length_cons]
      omega

theorem device_le_size {devices : List MtdDevice} {dev : MtdDevice} (member : dev ∈ devices) :
    dev.parts.length ≤ size (pieces devices) := by
  induction devices with
  | nil => cases member
  | cons first rest inductive_hypothesis =>
      rw [pieces, size_append, size_append, size_append]
      rcases List.mem_cons.mp member with rfl | member
      · have parts := parts_le_size dev none 0 dev.parts
        omega
      · have later := inductive_hypothesis member
        omega

section Text
variable {board : Board} {mtdids : List MtdIds} {mtd : MtdLists}

/-- What a device tells of itself in the text. -/
def content (dev : Device) : MtdIds × List PartInfo := (dev.id, infos dev)

theorem pieces_text {devices : List Device}
    (counted : ∀ dev ∈ devices, dev.numParts.toNat = dev.parts.length) :
    (pieces (devices.map view)).flatten = devicesTextOf (devices.map content) := by
  induction devices with
  | nil => rfl
  | cons dev rest inductive_hypothesis =>
      obtain ⟨first, others⟩ := List.forall_mem_cons.mp counted
      have parts : (partsPieces (view dev) none 0 (view dev).parts).flatten =
          partsText none (infos dev) := by
        refine parts_pieces_text (view dev) none 0 (infos dev) ?_
        rw [Nat.zero_add, infos, List.length_map]
        exact first.symm
      rw [List.map_cons, List.map_cons, pieces, devicesTextOf, List.flatten_append,
        List.flatten_append, List.flatten_append, parts, inductive_hypothesis others,
        List.flatten_singleton, deviceTextOf]
      cases rest with
      | nil =>
          rw [List.map_nil, List.map_nil, if_neg (fun more => more rfl), if_pos rfl]
          simp only [List.append_assoc, List.flatten_nil, devicesTextOf]
          rfl
      | cons next rest =>
          rw [List.map_cons, List.map_cons, if_pos (List.cons_ne_nil _ _),
            if_neg (List.cons_ne_nil _ _), List.flatten_singleton]
          simp only [List.append_assoc]
          rfl

theorem content_parsed (listed : Listed board mtdids mtd) :
    ∀ dev ∈ mtd.devices.map content, DeviceParsed mtdids dev := by
  intro dev member
  obtain ⟨origin, origin_member, rfl⟩ := List.mem_map.mp member
  have kept := listed.kept.each origin origin_member
  refine ⟨kept.right.known, kept.right.plain, ?_, ?_⟩
  · exact fun empty => kept.filled (List.map_eq_nil_iff.mp empty)
  · intro part part_member
    obtain ⟨pi, pi_member, rfl⟩ := List.mem_map.mp part_member
    exact (kept.right.valid pi pi_member).2

/-- parse_mtdparts on the text that generate_mtdparts writes. -/
theorem text_read (listed : Listed board mtdids mtd) (some_device : mtd.devices ≠ [])
    (counted : ∀ dev ∈ mtd.devices, dev.numParts.toNat = dev.parts.length) :
    mtdpartsDevices mtdids (mtdpartsText (mtd.devices.map view)) =
      if AllReadable (mtd.devices.map content) then
        some (mtd.devices.map fun dev => (dev.id, defsOf none (infos dev)))
      else none := by
  have some_view : mtd.devices.map view ≠ [] := fun empty =>
    some_device (List.map_eq_nil_iff.mp empty)
  have dropped : (ascii "mtdparts=" ++ devicesTextOf (mtd.devices.map content)).drop 9 =
      devicesTextOf (mtd.devices.map content) := rfl
  rw [mtdpartsText, if_neg some_view, pieces_text counted, mtdpartsDevices,
    if_pos (List.prefix_append _ _), dropped,
    devices_read (content_parsed listed) (devices_text_length _), List.map_map]
  rfl

end Text

/-- The string that generate_mtdparts leaves in the buffer. -/
theorem text_left {devices : List MtdDevice} {buflen : UInt32}
    (generated : (generateMtdparts devices buflen).ret = 0) (mem : Nat → UInt8) (buf : Nat) :
    slice (apply mem buf (generateMtdparts devices buflen).writes) buf
      ((mtdpartsText devices).length + 1) = mtdpartsText devices ++ [0] := by
  by_cases no_device : devices = []
  · rw [no_device]
    exact slice_splice_same mem buf [0]
  · rcases generated_cases no_device with ⟨-, whole⟩ | ⟨front, piece, back, -, -, -, refused⟩
    · have total : (mtdpartsText devices).length + 1 =
          9 + ((pieces devices).flatten ++ [0]).length := by
        rw [text_length no_device, List.length_append, size, Nat.add_assoc]
        rfl
      rw [whole, total]
      dsimp only
      rw [text_stored, text_slice, mtdpartsText, if_neg no_device, List.append_assoc]
    · rw [refused] at generated
      have failed : (1 : Int) = 0 := generated
      exact absurd failed (by decide)

theorem written_counts {board : Board} {mtdids : List MtdIds} {mtd : MtdLists}
    (listed : Listed board mtdids mtd)
    (generated : (generateMtdparts (mtd.devices.map view) 512).ret = 0) :
    ∀ dev ∈ mtd.devices, dev.numParts.toNat = dev.parts.length := by
  intro dev member
  have view_member : view dev ∈ mtd.devices.map view := List.mem_map_of_mem member
  have parts := device_le_size view_member
  rcases @generated_cases _ 512 (List.ne_nil_of_mem view_member) with
    ⟨fits, -⟩ | ⟨front, piece, back, -, -, -, refused⟩
  · have room : size (pieces (mtd.devices.map view)) ≤ 511 := fits
    rw [view, List.length_map] at parts
    rw [(listed.kept.each dev member).right.counted]
    exact Nat.mod_eq_of_lt (by omega)
  · rw [refused] at generated
    have failed : (1 : Int) = 0 := generated
    exact absurd failed (by decide)

/-- The devices and partitions that the commands reach survive in the string of generate_mtdparts
exactly where part_parse takes every size, and no device has different partitions at one offset. -/
theorem mtdparts_survive_iff (board : Board) (mtdids : List MtdIds) {commands : List Command}
    {mtd : MtdLists} (run : Run (stepOf (commandStep board mtdids)) emptyMtd commands mtd)
    (generated : (generateMtdparts (mtd.devices.map view) 512).ret = 0) :
    (∀ mem buf, slice (apply mem buf (generateMtdparts (mtd.devices.map view) 512).writes) buf
      ((mtdpartsText (mtd.devices.map view)).length + 1) =
        mtdpartsText (mtd.devices.map view) ++ [0]) ∧
    (looks (parseMtdparts board mtdids mtd (mtdpartsText (mtd.devices.map view))).devices =
      looks mtd.devices ↔ Survives mtd.devices) := by
  have listed := run_listed run
  refine ⟨text_left generated, ?_⟩
  by_cases some_device : mtd.devices = []
  · have nothing : parseMtdparts board mtdids mtd (mtdpartsText (mtd.devices.map view)) =
        devicesInit mtd := by
      rw [some_device]
      rfl
    rw [nothing, some_device]
    exact iff_of_true rfl fun dev member => absurd member List.not_mem_nil
  · have read := text_read listed some_device (written_counts listed generated)
    by_cases readable : AllReadable (mtd.devices.map content)
    · have survives_iff : Survives mtd.devices ↔ ∀ dev ∈ mtd.devices, Palindromic dev :=
        ⟨fun right dev member => (right dev member).2, fun right dev member =>
          ⟨readable (content dev) (List.mem_map_of_mem member), right dev member⟩⟩
      have listed_each : ∀ dev ∈ mtd.devices, DeviceListed board mtdids dev ∧ dev.parts ≠ [] :=
        fun dev member => ⟨(listed.kept.each dev member).right, (listed.kept.each dev member).filled⟩
      obtain ⟨after, news, parsed, appended, looks_iff, count⟩ := devices_again (devicesInit mtd)
        listed_each listed.keys fun _ _ other member => absurd member List.not_mem_nil
      have parsed_devices : (parseMtdparts board mtdids mtd
          (mtdpartsText (mtd.devices.map view))).devices = news := by
        rw [parseMtdparts, read, if_pos readable]
        dsimp only
        rw [mtdpartsInit, parsed]
        dsimp only
        split
        · rename_i no_device
          exact no_device.symm.trans appended
        · exact appended
      rw [parsed_devices, looks_iff, survives_iff]
    · have refused : parseMtdparts board mtdids mtd (mtdpartsText (mtd.devices.map view)) =
          devicesInit mtd := by
        rw [parseMtdparts, read, if_neg readable]
      rw [refused]
      refine iff_of_false ?_ ?_
      · intro same
        exact some_device (List.map_eq_nil_iff.mp same.symm)
      · intro right
        refine readable fun dev member => ?_
        obtain ⟨origin, origin_member, rfl⟩ := List.mem_map.mp member
        exact (right origin origin_member).1

/-- One flash of four sectors. -/
def fourSectors : Board where
  flashInfo := fun _ => ⟨[0x9f000000, 0x9f010000, 0x9f020000, 0x9f030000], 0x40000⟩
  erasesize := fun _ => 0x10000

def flashIds : List MtdIds := [⟨.nor, 0, 0x40000, ascii "flash"⟩]

/-- A partition with a gap behind it, and one that takes the rest. -/
def withGap : List Command :=
  [.add .nor 0 (ascii "64k") (ascii "boot") (some (ascii "ro")),
    .add .nor 0 (ascii "-@128k") (ascii "root") none]

theorem gap_survives :
    looks (parseMtdparts fourSectors flashIds
      (withGap.foldl (commandStep fourSectors flashIds) emptyMtd)
      (mtdpartsText
        ((withGap.foldl (commandStep fourSectors flashIds) emptyMtd).devices.map view))).devices =
        looks (withGap.foldl (commandStep fourSectors flashIds) emptyMtd).devices := by
  refine (mtdparts_survive_iff fourSectors flashIds (run_foldl _ withGap emptyMtd)
    (by decide +kernel)).2.mpr ?_
  have apart : ∀ dev ∈ (withGap.foldl (commandStep fourSectors flashIds) emptyMtd).devices,
      Readable (infos dev) ∧ ((partLooks dev).map Look.place).Nodup := by decide +kernel
  exact fun dev member => ⟨(apart dev member).1, palindromic_of_apart (apart dev member).2⟩

/-- Two partitions at 64k. -/
def twoAtOnePlace : List Command :=
  [.add .nor 0 (ascii "64k") (ascii "boot") none, .add .nor 0 (ascii "64k@64k") (ascii "a") none,
    .add .nor 0 (ascii "64k@64k") (ascii "b") none]

/-- They come back in the other order. -/
theorem order_reversed :
    ¬∀ (commands : List Command) (mtd : MtdLists),
      Run (stepOf (commandStep fourSectors flashIds)) emptyMtd commands mtd →
        (generateMtdparts (mtd.devices.map view) 512).ret = 0 →
          looks (parseMtdparts fourSectors flashIds mtd
            (mtdpartsText (mtd.devices.map view))).devices = looks mtd.devices := by
  intro all
  have same := all twoAtOnePlace _ (run_foldl _ _ _) (by decide +kernel)
  exact absurd same (by decide +kernel)

end UBoot.Mtd.PartRound
