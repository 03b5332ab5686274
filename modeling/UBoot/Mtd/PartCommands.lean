import UBoot.Library.Runs
import UBoot.Mtd.PartText

/-!
The mtdparts commands of common/cmd_jffs2.c on their texts, and what they keep of the lists: the
devices are those that the text names, and every partition is one that part_validate takes. The NULL
that the add command passes for the end of the text, what a too long text does to tmpbuf, and the
environment itself are left out.
-/

namespace UBoot.Mtd.PartCommands

open Lib.Strings Library.Runs MtdParts PartLists PartText

/-! ### The commands -/

def mtdpartsMaxlen : Nat := 512

def partAddDescMaxlen : UInt8 := 64

/-- parse_mtdparts for a text, and mtdparts_init behind it. -/
def parseMtdparts (board : Board) (mtdids : List MtdIds) (mtd : MtdLists) (text : List UInt8) :
    MtdLists :=
  match mtdpartsDevices mtdids text with
  | none => devicesInit mtd
  | some devs => mtdpartsInit board mtd devs

def idFind (mtdids : List MtdIds) (type : DevType) (num : UInt8) : Option MtdIds :=
  mtdids.find? fun id => id.type = type ∧ id.num = num

/-- The length that mtdparts add counts, in a u8. -/
def descLen (id : MtdIds) (size name : List UInt8) (ro : Option (List UInt8)) : UInt8 :=
  UInt8.ofNat (id.mtdId.length + 1 + size.length + (name.length + 2) +
    if (ro.getD []).length = 2 then 2 else 0)

/-- mtdparts add <mtd-dev> <size>[@<offset>] <name> [ro] -/
def doAdd (board : Board) (mtdids : List MtdIds) (mtd : MtdLists) (type : DevType) (num : UInt8)
    (size name : List UInt8) (ro : Option (List UInt8)) : MtdLists :=
  match idFind mtdids type num with
  | none => mtd
  | some id =>
      if partAddDescMaxlen ≤ descLen id size name ro then mtd
      else
        let text := id.mtdId ++ ascii ":" ++ size ++ ascii "(" ++ name ++ ascii ")" ++ ro.getD []
        match deviceText mtdids text with
        | none => mtd
        | some (id, defs, _) => mtdpartsAdd board mtd id defs

inductive Command where
  /-- Any command, after the mtdparts variable was set. -/
  | set (text : List UInt8)
  | delall
  | add (type : DevType) (num : UInt8) (size name : List UInt8) (ro : Option (List UInt8))
  | del (type : DevType) (dnum pnum : UInt8)
  | chpart (type : DevType) (dnum pnum : UInt8)

def commandStep (board : Board) (mtdids : List MtdIds) (mtd : MtdLists) : Command → MtdLists
  | .set text =>
      if mtdpartsMaxlen - 1 < text.length then mtd else parseMtdparts board mtdids mtd text
  | .delall => devicesInit mtd
  | .add type num size name ro => doAdd board mtdids mtd type num size name ro
  | .del type dnum pnum => deletePartition mtd type dnum pnum
  | .chpart type dnum pnum => chpart mtd type dnum pnum

/-! ### What the commands keep -/

/-- A device as the commands leave it. -/
structure DeviceListed (board : Board) (mtdids : List MtdIds) (dev : Device) : Prop where
  known : idFindByMtdId mtdids dev.id.mtdId = some dev.id
  plain : 58 ∉ dev.id.mtdId
  counted : dev.numParts = UInt16.ofNat dev.parts.length
  sorted : Sorted dev.parts
  zeros : dev.parts.Pairwise fun one other => one.info.offset ≠ 0 ∨ other.info.offset ≠ 0
  valid : ∀ part ∈ dev.parts, partValidate board dev.id part.info = some part.info ∧ Parsed part.info

def deviceKey (dev : Device) : DevType × UInt8 := (dev.id.type, dev.id.num)

/-- No device is listed twice. -/
structure Listed (board : Board) (mtdids : List MtdIds) (mtd : MtdLists) : Prop where
  kept : Kept (DeviceListed board mtdids) mtd.devices mtd.fresh
  keys : (mtd.devices.map deviceKey).Nodup

section Keeps
variable {board : Board} {mtdids : List MtdIds} {mtd after : MtdLists} {id : MtdIds}
  {defs : List PartInfo}

/-- The size that part_validate gives a partition. -/
def sizeIn (id : MtdIds) (offset size : UInt32) : UInt32 :=
  if size = sizeRemaining then id.size - offset else size

/-- What it checks. -/
def Takes (board : Board) (id : MtdIds) (offset size : UInt32) : Prop :=
  ¬id.size < offset ∧ ¬offset + size ≤ offset ∧ ¬id.size < offset + size ∧
    (match id.type with
      | .nand => partValidateNand (board.erasesize id.num) offset size
      | .nor => partValidateNor (board.flashInfo id.num) offset size) = true

theorem part_validate_iff {part valid : PartInfo} :
    partValidate board id part = some valid ↔
      Takes board id part.offset (sizeIn id part.offset part.size) ∧
        { part with size := sizeIn id part.offset part.size } = valid := by
  unfold partValidate Takes sizeIn
  dsimp only
  generalize (if part.size = sizeRemaining then id.size - part.offset else part.size) = size
  split
  · rename_i beyond
    exact iff_of_false (Option.some_ne_none valid).symm fun right => right.1.1 beyond
  · rename_i not_beyond
    split
    · rename_i wraps
      exact iff_of_false (Option.some_ne_none valid).symm fun right => right.1.2.1 wraps
    · rename_i no_wrap
      split
      · rename_i exceeds
        exact iff_of_false (Option.some_ne_none valid).symm fun right => right.1.2.2.1 exceeds
      · rename_i within
        rw [Option.ite_none_right_eq_some, Option.some_inj]
        exact and_congr_left fun _ => ⟨fun aligned => ⟨not_beyond, no_wrap, within, aligned⟩,
          fun takes => takes.2.2.2⟩

/-- A size that reads as the rest of the device is the rest of the device. -/
theorem size_in_again {offset size : UInt32} (takes : Takes board id offset size) :
    sizeIn id offset size = size := by
  obtain ⟨-, no_wrap, within, -⟩ := takes
  unfold sizeIn
  split
  · rename_i remaining
    rw [remaining] at no_wrap within ⊢
    rw [UInt32.le_iff_toNat_le, UInt32.toNat_add] at no_wrap
    rw [UInt32.lt_iff_toNat_lt, UInt32.toNat_add] at within
    have whole : sizeRemaining.toNat = 2 ^ 32 - 1 := rfl
    have offset_lt := offset.toNat_lt
    have size_lt := id.size.toNat_lt
    have start : offset = 0 := UInt32.toNat_inj.mp (by rw [UInt32.toNat_zero]; omega)
    have all : id.size = sizeRemaining := UInt32.toNat_inj.mp (by omega)
    rw [start, all]
    rfl
  · rfl

/-- part_validate takes what it has left a second time. -/
theorem validate_again {part valid : PartInfo} (validated : partValidate board id part = some valid) :
    partValidate board id valid = some valid := by
  obtain ⟨takes, rfl⟩ := part_validate_iff.mp validated
  refine part_validate_iff.mpr ?_
  dsimp only
  rw [size_in_again takes]
  exact ⟨takes, rfl⟩

/-- It looks at the place only. -/
theorem validate_same {part other : PartInfo} (validated : partValidate board id part = some part)
    (same_offset : other.offset = part.offset) (same_size : other.size = part.size) :
    partValidate board id other = some other := by
  obtain ⟨takes, same⟩ := part_validate_iff.mp validated
  have size := congrArg PartInfo.size same
  dsimp only at size
  rw [size] at takes
  have other_size : sizeIn id other.offset other.size = other.size := by
    rw [same_offset, same_size, size]
  refine part_validate_iff.mpr ⟨?_, by rw [other_size]⟩
  rw [other_size, same_offset, same_size]
  exact takes

/-- The name and the flags stay. -/
theorem validate_parsed {part valid : PartInfo} (validated : partValidate board id part = some valid)
    (parsed : Parsed part) : Parsed valid := by
  obtain ⟨-, rfl⟩ := part_validate_iff.mp validated
  exact ⟨parsed.name, parsed.auto, parsed.flags⟩

theorem parse_parts_valid {offset : UInt32} {fresh : Nat} {parts : List Part}
    (read : parseParts board id defs offset fresh = some parts)
    (parsed : ∀ part ∈ defs, Parsed part) :
    ∀ part ∈ parts, partValidate board id part.info = some part.info ∧ Parsed part.info := by
  induction defs generalizing offset fresh parts with
  | nil =>
      cases read
      exact fun part member => absurd member List.not_mem_nil
  | cons part rest inductive_hypothesis =>
      obtain ⟨first, others⟩ := List.forall_mem_cons.mp parsed
      rw [parseParts] at read
      generalize (if part.offset = offsetNotSpecified then offset else part.offset) = place at read
      cases validated : partValidate board id { part with offset := place } with
      | none =>
          rw [validated] at read
          cases read
      | some valid =>
          rw [validated] at read
          obtain ⟨later, inner, same⟩ := Option.map_eq_some_iff.mp read
          rw [← same]
          have first_parsed : Parsed { part with offset := place } :=
            ⟨first.name, first.auto, first.flags⟩
          exact List.forall_mem_cons.mpr ⟨⟨validate_again validated,
            validate_parsed validated first_parsed⟩, inductive_hypothesis inner others⟩

/-- part_sort_add allows one partition at offset zero. -/
theorem insert_listed {dev : Device} {new : Part} {found : Device × Option Part}
    (listed : DeviceListed board mtdids dev)
    (valid : partValidate board dev.id new.info = some new.info ∧ Parsed new.info)
    (inserted : dev.insert new = some found) : DeviceListed board mtdids found.1 := by
  obtain ⟨perm, sorted, -, same_id, counted⟩ := insert_right inserted listed.sorted
  have zero_free : new.info.offset = 0 → ∀ part ∈ dev.parts, part.info.offset ≠ 0 := by
    refine (insert_sorted_isSome listed.sorted).mp ?_
    rw [← Option.isSome_map, ← Device.insert, inserted]
    rfl
  refine ⟨?_, ?_, ?_, sorted, ?_, ?_⟩
  · rw [same_id]
    exact listed.known
  · rw [same_id]
    exact listed.plain
  · rw [counted, listed.counted, perm.length_eq, List.length_cons, UInt16.ofNat_add]
    rfl
  · refine (perm.pairwise_iff fun either => either.symm).mpr (List.pairwise_cons.mpr ⟨?_, listed.zeros⟩)
    intro part member
    by_cases at_zero : new.info.offset = 0
    · exact .inr (zero_free at_zero part member)
    · exact .inl at_zero
  · intro part member
    rw [same_id]
    rcases List.mem_cons.mp (perm.mem_iff.mp member) with rfl | old
    · exact valid
    · exact listed.valid part old

theorem insert_all_listed {parts : List Part} {dev new : Device}
    (listed : DeviceListed board mtdids dev)
    (valid : ∀ part ∈ parts, partValidate board dev.id part.info = some part.info ∧ Parsed part.info)
    (inserted : insertAll parts dev = some new) : DeviceListed board mtdids new := by
  induction parts generalizing dev with
  | nil =>
      cases inserted
      exact listed
  | cons part rest inductive_hypothesis =>
      obtain ⟨first, others⟩ := List.forall_mem_cons.mp valid
      rw [insertAll] at inserted
      cases found : dev.insert part with
      | none =>
          rw [found] at inserted
          cases inserted
      | some placed =>
          rw [found] at inserted
          obtain ⟨-, -, -, same_id, -⟩ := insert_right found listed.sorted
          refine inductive_hypothesis (insert_listed listed first found) ?_ inserted
          rw [same_id]
          exact others

/-- A text that device_parse has read gives a device as the commands leave it. -/
theorem device_parse_listed {new : Device} (known : idFindByMtdId mtdids id.mtdId = some id)
    (plain : 58 ∉ id.mtdId) (parsed : ∀ part ∈ defs, Parsed part)
    (read : deviceParse board mtd id defs = some new) :
    DeviceListed board mtdids new ∧ new.id = id := by
  unfold deviceParse at read
  dsimp only at read
  split at read
  · cases read
  · split at read
    · cases read
    · rename_i parts taken
      have begun : DeviceListed board mtdids ⟨mtd.fresh, id, 0, []⟩ :=
        ⟨known, plain, rfl, List.Pairwise.nil, List.Pairwise.nil,
          fun part member => absurd member List.not_mem_nil⟩
      obtain ⟨-, -, -, same_id, -⟩ := insert_all_right read List.Pairwise.nil
      exact ⟨insert_all_listed begun (parse_parts_valid taken parsed) read, same_id⟩

theorem listed_nil {current : Option Nat} {partnum : UInt8} {fresh : Nat} :
    Listed board mtdids ⟨[], current, partnum, fresh⟩ :=
  ⟨kept_nil, List.nodup_nil⟩

/-- device_find says whether a device is listed. -/
theorem device_find_none {devices : List Device} {type : DevType} {num : UInt8}
    (missing : deviceFind devices type num = none) : (type, num) ∉ devices.map deviceKey := by
  intro used
  obtain ⟨dev, listed, same⟩ := List.mem_map.mp used
  refine absurd (List.find?_eq_none.mp missing dev listed) (not_not_intro (decide_eq_true ?_))
  exact ⟨congrArg Prod.fst same, congrArg Prod.snd same⟩

/-- A device is added that was not listed. -/
theorem listed_append {new : Device} (listed : Listed board mtdids mtd)
    (known : idFindByMtdId mtdids id.mtdId = some id) (plain : 58 ∉ id.mtdId)
    (parsed : ∀ part ∈ defs, Parsed part) (read : deviceParse board mtd id defs = some new)
    (missing : deviceFind mtd.devices id.type id.num = none) (current : Option Nat)
    (partnum : UInt8) :
    Listed board mtdids ⟨mtd.devices ++ [new], current, partnum, mtd.fresh + 1 + defs.length⟩ := by
  obtain ⟨new_listed, same_id⟩ := device_parse_listed known plain parsed read
  obtain ⟨new_kept, new_ptr, new_parts⟩ := parsed_kept read new_listed
  have later : mtd.fresh ≤ mtd.fresh + 1 + defs.length := by omega
  refine ⟨kept_append listed.kept new_kept later new_ptr new_parts, ?_⟩
  rw [List.map_append, List.nodup_append]
  refine ⟨listed.keys, List.nodup_singleton _, ?_⟩
  intro key used other last
  rw [List.map_singleton, List.mem_singleton] at last
  rw [last, deviceKey, same_id]
  rintro rfl
  exact device_find_none missing used

theorem parse_devices_listed {devs : List (MtdIds × List PartInfo)}
    (listed : Listed board mtdids mtd)
    (parsed : ∀ dev ∈ devs, idFindByMtdId mtdids dev.1.mtdId = some dev.1 ∧ 58 ∉ dev.1.mtdId ∧
      ∀ part ∈ dev.2, Parsed part)
    (read : parseDevices board devs mtd = some after) : Listed board mtdids after := by
  induction devs generalizing mtd with
  | nil =>
      cases read
      exact listed
  | cons first rest inductive_hypothesis =>
      obtain ⟨id, defs⟩ := first
      obtain ⟨⟨known, plain, defs_parsed⟩, others⟩ := List.forall_mem_cons.mp parsed
      rw [parseDevices] at read
      split at read
      · cases read
      · rename_i new device_read
        split at read
        · cases read
        · rename_i missing
          exact inductive_hypothesis
            (listed_append listed known plain defs_parsed device_read missing _ _) others read

theorem parse_mtdparts_listed (text : List UInt8) :
    Listed board mtdids (parseMtdparts board mtdids mtd text) := by
  unfold parseMtdparts
  split
  · exact listed_nil
  · rename_i devs texts_read
    unfold mtdpartsInit
    split
    · exact listed_nil
    · rename_i ended parsed
      split
      · exact listed_nil
      · have texts_parsed : ∀ dev ∈ devs, idFindByMtdId mtdids dev.1.mtdId = some dev.1 ∧
            58 ∉ dev.1.mtdId ∧ ∀ part ∈ dev.2, Parsed part := by
          obtain ⟨-, read⟩ := Option.ite_none_right_eq_some.mp texts_read
          exact device_texts_parsed read
        have ended_listed := parse_devices_listed listed_nil texts_parsed parsed
        exact ⟨ended_listed.kept, ended_listed.keys⟩

/-- The keys stay when a device gets other partitions. -/
theorem replace_keys {dev : Device} (new : Device) (listed : Listed board mtdids mtd)
    (member : dev ∈ mtd.devices) (same_ptr : new.ptr = dev.ptr) (same_id : new.id = dev.id) :
    (replace mtd.devices new).map deviceKey = mtd.devices.map deviceKey := by
  unfold replace
  rw [List.map_map]
  refine List.map_congr_left fun other other_member => ?_
  rw [Function.comp_apply]
  split
  · rename_i other_ptr
    have same : other = dev :=
      List.inj_on_of_nodup_map listed.kept.apart other_member member (other_ptr.trans same_ptr)
    rw [same, deviceKey, deviceKey, same_id]
  · rfl

theorem part_add_listed {dev : Device} {part : Part} {later : Nat}
    (listed : Listed board mtdids mtd) (member : dev ∈ mtd.devices) (parsed : Parsed part.info)
    (new_ptr : mtd.fresh ≤ part.ptr) (used : part.ptr < later)
    (added : partAdd board { mtd with fresh := later } dev part = some after) :
    Listed board mtdids after := by
  unfold partAdd at added
  split at added
  · cases added
  · rename_i valid validated
    obtain ⟨found, inserted, same⟩ := Option.map_eq_some_iff.mp added
    have dev_kept := listed.kept.each dev member
    obtain ⟨perm, -, same_ptr, same_id, -⟩ := insert_right inserted dev_kept.right.sorted
    have found_listed := insert_listed dev_kept.right
      ⟨validate_again validated, validate_parsed validated parsed⟩ inserted
    have found_kept := kept_more dev_kept found_listed perm same_ptr new_ptr used
    have later_le : mtd.fresh ≤ later := Nat.le_of_lt (Nat.lt_of_le_of_lt new_ptr used)
    rw [← same]
    refine ⟨kept_replace listed.kept member same_ptr found_kept later_le ?_, ?_⟩
    · intro pi pi_member
      rcases List.mem_cons.mp (perm.mem_iff.mp pi_member) with rfl | old
      · exact .inr new_ptr
      · exact .inl old
    · show (replace mtd.devices found.1).map deviceKey |>.Nodup
      rw [replace_keys found.1 listed member same_ptr same_id]
      exact listed.keys

theorem listed_later {later : Nat} (listed : Listed board mtdids mtd) (after_fresh : mtd.fresh ≤ later) :
    Listed board mtdids { mtd with fresh := later } where
  kept := ⟨fun dev member => (listed.kept.each dev member).mono after_fresh, listed.kept.apart,
    listed.kept.owner⟩
  keys := listed.keys

theorem mtdparts_add_listed (listed : Listed board mtdids mtd)
    (known : idFindByMtdId mtdids id.mtdId = some id) (plain : 58 ∉ id.mtdId)
    (parsed : ∀ part ∈ defs, Parsed part) : Listed board mtdids (mtdpartsAdd board mtd id defs) := by
  have later : mtd.fresh ≤ mtd.fresh + 1 + defs.length := by omega
  unfold mtdpartsAdd
  split
  · exact listed
  · rename_i new read
    dsimp only
    split
    · rename_i missing
      have appended := listed_append listed known plain parsed read missing
      unfold deviceAdd
      split
      · rename_i no_device
        have first := appended (some new.ptr) 0
        rw [show mtd.devices = [] from no_device] at first
        exact first
      · exact appended _ _
    · rename_i dev found
      have member : dev ∈ mtd.devices := List.mem_of_find?_eq_some found
      split
      · exact listed_later listed later
      · rename_i part head
        have new_member := List.mem_of_mem_head? head
        have new_listed := (device_parse_listed known plain parsed read).1
        have between := parsed_between read part new_member
        cases added : partAdd board { mtd with fresh := mtd.fresh + 1 + defs.length } dev part with
        | none => exact listed_later listed later
        | some after =>
            exact part_add_listed listed member (new_listed.valid part new_member).2
              (Nat.le_of_succ_le between.1) between.2 added

theorem device_del_listed (listed : Listed board mtdids mtd) (dev : Device) :
    Listed board mtdids (deviceDel mtd dev) := by
  have rest : Listed board mtdids
      { mtd with devices := mtd.devices.filter fun other => other.ptr ≠ dev.ptr } :=
    ⟨kept_filter listed.kept _, listed.keys.sublist (List.filter_sublist.map deviceKey)⟩
  unfold deviceDel
  dsimp only
  split
  · split
    · exact listed_nil
    · exact ⟨rest.kept, rest.keys⟩
  · exact rest

theorem deleted_listed {dev : Device} {part : Part} {front back : List Part} {fresh : Nat}
    (kept : DeviceKept (DeviceListed board mtdids) fresh dev)
    (split_parts : dev.parts = front ++ part :: back) (more : dev.numParts ≠ 1) :
    DeviceKept (DeviceListed board mtdids) fresh
      { dev with parts := front ++ back, numParts := dev.numParts - 1 } := by
  have sub : (front ++ back).Sublist dev.parts := by
    rw [split_parts]
    exact (List.sublist_cons_self part back).append_left front
  have counted : dev.numParts = UInt16.ofNat ((front ++ back).length + 1) := by
    rw [kept.right.counted, split_parts, List.perm_middle.length_eq, List.length_cons]
  refine kept_less kept ⟨kept.right.known, kept.right.plain, ?_, kept.right.sorted.sublist sub,
    kept.right.zeros.sublist sub, fun pi member => kept.right.valid pi (sub.mem member)⟩ sub ?_ rfl
  · dsimp only
    rw [counted, UInt16.ofNat_add]
    exact UInt16.add_sub_cancel _ _
  · intro empty
    rw [show front ++ back = [] from empty] at counted
    exact more counted

theorem delete_listed (listed : Listed board mtdids mtd) (type : DevType) (dnum pnum : UInt8) :
    Listed board mtdids (deletePartition mtd type dnum pnum) := by
  unfold deletePartition
  split
  · exact listed
  · rename_i dev part named
    obtain ⟨found, first, rest⟩ := Option.bind_eq_some_iff.mp named
    obtain ⟨at_pnum, numbered, same⟩ := Option.map_eq_some_iff.mp rest
    cases same
    have member : dev ∈ mtd.devices := List.mem_of_find?_eq_some first
    have dev_kept := listed.kept.each dev member
    unfold jffs2PartInfo at numbered
    obtain ⟨front, back, split_parts, -⟩ := split_at (Option.ite_none_left_eq_some.mp numbered).2
    unfold partDel
    split
    · exact device_del_listed listed dev
    · rename_i more
      have apart := dev_kept.apart
      rw [split_parts] at apart
      rw [split_parts, filter_apart apart]
      have deleted := deleted_listed dev_kept split_parts more
      refine ⟨kept_replace listed.kept member rfl deleted (Nat.le_refl _) ?_, ?_⟩
      · intro pi pi_member
        rw [split_parts]
        exact .inl (((List.sublist_cons_self part back).append_left front).mem pi_member)
      · have same_keys := replace_keys
          { dev with parts := front ++ back, numParts := dev.numParts - 1 } listed member rfl rfl
        dsimp only
        rw [same_keys]
        exact listed.keys

theorem chpart_listed (listed : Listed board mtdids mtd) (type : DevType) (dnum pnum : UInt8) :
    Listed board mtdids (chpart mtd type dnum pnum) := by
  unfold chpart
  split
  · exact listed
  · exact ⟨listed.kept, listed.keys⟩

/-- Every command keeps the lists in order. -/
theorem command_listed (listed : Listed board mtdids mtd) (command : Command) :
    Listed board mtdids (commandStep board mtdids mtd command) := by
  cases command with
  | set text =>
      rw [commandStep]
      split
      · exact listed
      · exact parse_mtdparts_listed text
  | delall => exact listed_nil
  | add type num size name ro =>
      rw [commandStep, doAdd]
      split
      · exact listed
      · split
        · exact listed
        · dsimp only
          split
          · exact listed
          · rename_i read
            obtain ⟨known, plain, parsed⟩ := device_parsed read
            exact mtdparts_add_listed listed known plain parsed
  | del type dnum pnum => exact delete_listed listed type dnum pnum
  | chpart type dnum pnum => exact chpart_listed listed type dnum pnum

theorem run_listed {commands : List Command}
    (run : Run (stepOf (commandStep board mtdids)) emptyMtd commands mtd) :
    Listed board mtdids mtd := by
  refine run_preserves _ (Listed board mtdids) ?_ run listed_nil
  rintro before command after listed taken
  rw [show after = commandStep board mtdids before command from taken]
  exact command_listed listed command

end Keeps

end UBoot.Mtd.PartCommands
