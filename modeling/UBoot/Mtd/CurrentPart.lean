import UBoot.Library.Runs
import UBoot.Mtd.PartLists

/-!
The current partition of common/cmd_jffs2.c while partitions come and go. part_sort_add and part_del
compare offsets to find out whether its index moves; what they do to the index, and when the current
partition stays the same one.
-/

namespace UBoot.Mtd.CurrentPart

open Lib.Strings Library.Runs MtdParts PartLists

/-- A device with its list in order. -/
abbrev DeviceSound : Nat → Device → Prop := DeviceKept DeviceRight

abbrev Sound : List Device → Nat → Prop := Kept DeviceRight

/-! ### The index of the current partition -/

section Index
variable {α : Type*} (front back : List α) (new : α) (n : Nat)

theorem getElem?_front (in_front : n < front.length) :
    (front ++ new :: back)[n]? = (front ++ back)[n]? := by
  rw [List.getElem?_append_left in_front, List.getElem?_append_left in_front]

theorem getElem?_behind (behind : front.length ≤ n) :
    (front ++ new :: back)[n + 1]? = (front ++ back)[n]? := by
  have later : front.length ≤ n + 1 := Nat.le_succ_of_le behind
  rw [List.getElem?_append_right behind, List.getElem?_append_right later,
    Nat.sub_add_comm behind, List.getElem?_cons_succ]

end Index

theorem same_place {parts : List Part} {one other : Part} {n m : Nat}
    (apart : (parts.map Part.ptr).Nodup) (at_n : parts[n]? = some one)
    (at_m : parts[m]? = some other) (same_ptr : one.ptr = other.ptr) : n = m := by
  obtain ⟨inside, -⟩ := List.getElem?_eq_some_iff.mp at_n
  have mapped : n < (parts.map Part.ptr).length := by
    rw [List.length_map]
    exact inside
  refine (List.getElem?_inj mapped apart).mp ?_
  rw [List.getElem?_map, List.getElem?_map, at_n, at_m, Option.map_some, Option.map_some, same_ptr]

section Current
variable {mtd after : MtdLists} {dev : Device} {part curr : Part} {fresh later : Nat}

theorem part_info_eq (right : DeviceRight dev) (n : Nat) : jffs2PartInfo dev n = dev.parts[n]? := by
  unfold jffs2PartInfo
  split
  · rename_i beyond
    rw [right.counted] at beyond
    exact (List.getElem?_eq_none beyond).symm
  · rfl

theorem designated_listed (sound : Sound mtd.devices fresh) (listed : dev ∈ mtd.devices)
    (current : mtd.currentDev = some dev.ptr) :
    designated mtd = dev.parts[mtd.currentPartnum.toNat]? := by
  unfold designated
  rw [current, Option.bind_some, find_listed sound.apart listed, Option.bind_some]
  exact part_info_eq (sound.each dev listed).right _

theorem designated_cases (sound : Sound mtd.devices fresh) (current : designated mtd = some part) :
    ∃ dev ∈ mtd.devices, mtd.currentDev = some dev.ptr ∧
      dev.parts[mtd.currentPartnum.toNat]? = some part := by
  obtain ⟨ptr, is_current, found⟩ := Option.bind_eq_some_iff.mp current
  obtain ⟨dev, first, -⟩ := Option.bind_eq_some_iff.mp found
  have listed := List.mem_of_find?_eq_some first
  have same_ptr : dev.ptr = ptr := by simpa using List.find?_some first
  have is_dev : mtd.currentDev = some dev.ptr := by rw [is_current, ← same_ptr]
  exact ⟨dev, listed, is_dev, (designated_listed sound listed is_dev).symm.trans current⟩

/-- Nothing that concerns another device touches the current partition. -/
theorem keeps_elsewhere (sound : Sound mtd.devices fresh) (sound_after : Sound after.devices later)
    (same_dev : after.currentDev = mtd.currentDev)
    (same_num : after.currentPartnum = mtd.currentPartnum)
    (kept : ∀ dev ∈ mtd.devices, mtd.currentDev = some dev.ptr → dev ∈ after.devices) :
    KeepsCurrent mtd after := by
  intro part current _
  obtain ⟨dev, listed, is_current, at_num⟩ := designated_cases sound current
  rw [designated_listed sound_after (kept dev listed is_current) (same_dev.trans is_current),
    same_num]
  exact at_num

end Current

/-! ### A partition more -/

section Add
variable {mtd after : MtdLists} {dev : Device} {part : Part} {fresh later : Nat}

/-- part_sort_add moves the index where the new partition stands in front of the current one. -/
theorem index_moved {front back : List Part} (num : UInt8) (sorted : Sorted (front ++ back))
    (smaller : ∀ pi ∈ front, pi.info.offset < part.info.offset)
    (larger : ∀ pi ∈ back, part.info.offset ≤ pi.info.offset) :
    partnumAdded back.head? (front ++ back)[num.toNat]? num =
      if front.length ≤ num.toNat ∧ num.toNat < (front ++ back).length then num + 1 else num := by
  cases found : (front ++ back)[num.toNat]? with
  | none =>
      have outside := List.getElem?_eq_none_iff.mp found
      rw [if_neg (fun inside => Nat.not_le_of_lt inside.2 outside)]
      cases back.head? <;> rfl
  | some curr =>
      obtain ⟨inside, -⟩ := List.getElem?_eq_some_iff.mp found
      by_cases behind : front.length ≤ num.toNat
      · rw [if_pos ⟨behind, inside⟩]
        rw [List.getElem?_append_right behind] at found
        have member := List.mem_of_getElem? found
        cases back with
        | nil => cases member
        | cons pi rest =>
            exact if_pos (sorted_head (List.pairwise_append.mp sorted).2.1 member)
      · rw [if_neg (fun moved => behind moved.1)]
        rw [List.getElem?_append_left (Nat.lt_of_not_le behind)] at found
        have member := List.mem_of_getElem? found
        cases back with
        | nil => rfl
        | cons pi rest =>
            refine if_neg (UInt32.not_le.mpr ?_)
            exact UInt32.lt_of_lt_of_le (smaller curr member) (larger pi List.mem_cons_self)

/-- All that part_sort_add does. -/
theorem part_sort_add_cases (right : DeviceRight dev) (added : partSortAdd mtd dev part = some after) :
    ∃ front back, dev.parts = front ++ back ∧
      (∀ pi ∈ front, pi.info.offset < part.info.offset) ∧
      (∀ pi ∈ back, part.info.offset ≤ pi.info.offset) ∧
      after = { mtd with
        devices := replace mtd.devices
          { dev with parts := front ++ part :: back, numParts := dev.numParts + 1 }
        currentPartnum :=
          if mtd.currentDev = some dev.ptr ∧ front.length ≤ mtd.currentPartnum.toNat ∧
              mtd.currentPartnum.toNat < dev.parts.length then mtd.currentPartnum + 1
          else mtd.currentPartnum } := by
  obtain ⟨found, inserted, rfl⟩ := Option.map_eq_some_iff.mp added
  obtain ⟨⟨parts, entry⟩, placed, rfl⟩ := Option.map_eq_some_iff.mp inserted
  obtain ⟨front, back, split, rfl, rfl, smaller, first_larger⟩ := insert_sorted_split placed
  have sorted := right.sorted
  rw [split] at sorted
  have larger := head_least (List.pairwise_append.mp sorted).2.1 first_larger
  refine ⟨front, back, split, smaller, larger, ?_⟩
  by_cases current : mtd.currentDev = some dev.ptr
  · rw [currPi, if_pos current, part_info_eq right, split, index_moved _ sorted smaller larger]
    simp only [current, true_and]
  · rw [currPi, if_neg current, if_neg (fun moved => current moved.1)]
    cases back.head? <;> rfl

/-- The device with a partition more, and one with an address of its own. -/
theorem inserted_sound {front back : List Part} (sound : DeviceSound fresh dev)
    (split : dev.parts = front ++ back)
    (smaller : ∀ pi ∈ front, pi.info.offset < part.info.offset)
    (larger : ∀ pi ∈ back, part.info.offset ≤ pi.info.offset) (fits : Fits dev.id part.info)
    (new_ptr : fresh ≤ part.ptr) (used : part.ptr < later)
    (room : dev.numParts.toNat + 1 < 2 ^ 16) :
    DeviceSound later
      { dev with parts := front ++ part :: back, numParts := dev.numParts + 1 } := by
  have perm : (front ++ part :: back).Perm (part :: dev.parts) := by
    rw [split]
    exact List.perm_middle
  have sorted := sound.right.sorted
  rw [split] at sorted
  refine kept_more sound ⟨sorted_insert sorted smaller larger, ?_, ?_⟩ perm rfl new_ptr used
  · show (dev.numParts + 1).toNat = _
    rw [perm.length_eq, List.length_cons, ← sound.right.counted, UInt16.toNat_add]
    exact Nat.mod_eq_of_lt room
  · intro pi member
    rcases List.mem_cons.mp (perm.mem_iff.mp member) with rfl | old
    · exact fits
    · exact sound.right.inside pi old

theorem part_sort_add_sound (sound : Sound mtd.devices fresh) (listed : dev ∈ mtd.devices)
    (added : partSortAdd mtd dev part = some after) (fits : Fits dev.id part.info)
    (new_ptr : fresh ≤ part.ptr) (used : part.ptr < later)
    (room : dev.numParts.toNat + 1 < 2 ^ 16) : Sound after.devices later := by
  obtain ⟨front, back, split, smaller, larger, rfl⟩ :=
    part_sort_add_cases (sound.each dev listed).right added
  have new_sound := inserted_sound (sound.each dev listed) split smaller larger fits new_ptr used room
  refine kept_replace sound listed rfl new_sound (by omega) ?_
  intro pi member
  rcases List.mem_cons.mp (List.perm_middle.mem_iff.mp member) with rfl | old
  · exact .inr new_ptr
  · rw [split]
    exact .inl old

theorem part_sort_add_isSome (right : DeviceRight dev) :
    (partSortAdd mtd dev part).isSome ↔ ZeroFree dev part.info.offset := by
  rw [partSortAdd, Option.isSome_map, Device.insert, Option.isSome_map]
  exact insert_sorted_isSome right.sorted

/-- num_parts counts right only where it has room. -/
theorem part_sort_add_room (sound : Sound mtd.devices fresh) (listed : dev ∈ mtd.devices)
    (added : partSortAdd mtd dev part = some after)
    (right : ∀ other ∈ after.devices, DeviceRight other) : dev.numParts.toNat + 1 < 2 ^ 16 := by
  have dev_right := (sound.each dev listed).right
  obtain ⟨front, back, split, -, -, rfl⟩ := part_sort_add_cases dev_right added
  have counted := (right _ (replace_listed
    { dev with parts := front ++ part :: back, numParts := dev.numParts + 1 } listed rfl)).counted
  dsimp only at counted
  rw [List.perm_middle.length_eq, List.length_cons, ← split, ← dev_right.counted] at counted
  rw [← counted]
  exact (dev.numParts + 1).toNat_lt

/-- The index goes wrong where it is 255 and the new partition stands in front of the current one. -/
theorem part_sort_add_keeps_iff (sound : Sound mtd.devices fresh) (listed : dev ∈ mtd.devices)
    (added : partSortAdd mtd dev part = some after) (sound_after : Sound after.devices later) :
    KeepsCurrent mtd after ↔
      (mtd.currentDev = some dev.ptr → mtd.currentPartnum = 255 →
        ∀ curr ∈ designated mtd, curr.info.offset < part.info.offset) := by
  obtain ⟨front, back, split, smaller, larger, rfl⟩ :=
    part_sort_add_cases (sound.each dev listed).right added
  have new_listed := replace_listed
    { dev with parts := front ++ part :: back, numParts := dev.numParts + 1 } listed rfl
  by_cases current : mtd.currentDev = some dev.ptr
  · have before := designated_listed sound listed current
    have behind_num := designated_listed sound_after new_listed current
    rw [split] at before
    constructor
    · intro keeps _ full curr is_curr
      have at_num := before.symm.trans is_curr
      obtain ⟨inside, -⟩ := List.getElem?_eq_some_iff.mp at_num
      by_contra not_less
      have behind : front.length ≤ mtd.currentPartnum.toNat := by
        by_contra in_front
        rw [List.getElem?_append_left (Nat.lt_of_not_le in_front)] at at_num
        exact not_less (smaller curr (List.mem_of_getElem? at_num))
      have there := (getElem?_behind front back part _ behind).trans at_num
      have same := keeps curr is_curr ⟨_, new_listed, curr, List.mem_of_getElem? there, rfl⟩
      rw [behind_num, if_pos ⟨current, behind, by rw [split]; exact inside⟩] at same
      have wrapped : (mtd.currentPartnum + 1).toNat = mtd.currentPartnum.toNat + 1 :=
        same_place (sound_after.each _ new_listed).apart same there rfl
      rw [full] at wrapped
      exact absurd wrapped (by decide)
    · intro meets curr is_curr _
      have at_num := before.symm.trans is_curr
      obtain ⟨inside, -⟩ := List.getElem?_eq_some_iff.mp at_num
      rw [behind_num]
      by_cases behind : front.length ≤ mtd.currentPartnum.toNat
      · have member := at_num
        rw [List.getElem?_append_right behind] at member
        have not_full : mtd.currentPartnum ≠ 255 := by
          intro full
          have less := meets current full curr is_curr
          exact UInt32.not_le.mpr less (larger curr (List.mem_of_getElem? member))
        have next : (mtd.currentPartnum + 1).toNat = mtd.currentPartnum.toNat + 1 := by
          have below := mtd.currentPartnum.toNat_lt
          have apart : mtd.currentPartnum.toNat ≠ 255 := fun same => not_full (UInt8.toNat_inj.mp same)
          rw [UInt8.toNat_add]
          exact Nat.mod_eq_of_lt (by rw [UInt8.toNat_one]; omega)
        rw [if_pos ⟨current, behind, by rw [split]; exact inside⟩, next,
          getElem?_behind front back part _ behind]
        exact at_num
      · rw [if_neg (fun moved => behind moved.2.1),
          getElem?_front front back part _ (Nat.lt_of_not_le behind)]
        exact at_num
  · refine iff_of_true ?_ (fun is_current => absurd is_current current)
    refine keeps_elsewhere sound sound_after rfl (if_neg fun moved => current moved.1) ?_
    intro other other_listed is_current
    refine replace_other other_listed fun same => current ?_
    rw [is_current, same]

end Add

/-! ### A partition less -/

section Del
variable {mtd : MtdLists} {dev : Device} {part : Part} {fresh : Nat}

/-- The current partition need not be kept when its device goes. -/
theorem keeps_gone {after : MtdLists} (sound : Sound mtd.devices fresh) (listed : dev ∈ mtd.devices)
    (current : mtd.currentDev = some dev.ptr)
    (left : ∀ other ∈ after.devices, other ∈ mtd.devices ∧ other.ptr ≠ dev.ptr) :
    KeepsCurrent mtd after := by
  intro curr is_curr still_there
  rw [designated_listed sound listed current] at is_curr
  obtain ⟨other, other_left, pi, member, same⟩ := still_there
  obtain ⟨other_listed, other_ptr⟩ := left other other_left
  exact absurd (sound.owner other other_listed dev listed pi member curr
    (List.mem_of_getElem? is_curr) same) other_ptr

theorem device_del_right (sound : Sound mtd.devices fresh) (listed : dev ∈ mtd.devices) :
    Sound (deviceDel mtd dev).devices fresh ∧ KeepsCurrent mtd (deviceDel mtd dev) := by
  have rest_sound := kept_filter sound fun other => other.ptr ≠ dev.ptr
  have of_rest (other : Device)
      (member : other ∈ mtd.devices.filter fun other => other.ptr ≠ dev.ptr) :
      other ∈ mtd.devices ∧ other.ptr ≠ dev.ptr := by
    obtain ⟨other_listed, other_ptr⟩ := List.mem_filter.mp member
    exact ⟨other_listed, of_decide_eq_true other_ptr⟩
  unfold deviceDel
  dsimp only
  split
  · rename_i current
    split
    · exact ⟨kept_nil, keeps_gone sound listed current
        fun other member => absurd member List.not_mem_nil⟩
    · exact ⟨rest_sound, keeps_gone sound listed current of_rest⟩
  · rename_i not_current
    refine ⟨rest_sound, keeps_elsewhere sound rest_sound rfl rfl ?_⟩
    intro other other_listed is_current
    refine List.mem_filter.mpr ⟨other_listed, decide_eq_true fun same => not_current ?_⟩
    rw [is_current, same]

theorem deleted_sound {front back : List Part} (sound : DeviceSound fresh dev)
    (split : dev.parts = front ++ part :: back) (more : dev.numParts ≠ 1) :
    DeviceSound fresh { dev with parts := front ++ back, numParts := dev.numParts - 1 } := by
  have sub : (front ++ back).Sublist dev.parts := by
    rw [split]
    exact (List.sublist_cons_self part back).append_left front
  have length : dev.numParts.toNat = (front ++ back).length + 1 := by
    rw [sound.right.counted, split, List.perm_middle.length_eq, List.length_cons]
  have counted : (dev.numParts - 1).toNat = (front ++ back).length := by
    have some_part : (1 : UInt16) ≤ dev.numParts := by
      rw [UInt16.le_iff_toNat_le, length, UInt16.toNat_one]
      exact Nat.le_add_left _ _
    rw [UInt16.toNat_sub_of_le _ _ some_part, length, UInt16.toNat_one, Nat.add_sub_cancel]
  refine kept_less sound ⟨sound.right.sorted.sublist sub, counted, ?_⟩ sub ?_ rfl
  · exact fun pi member => sound.right.inside pi (sub.mem member)
  · intro empty
    rw [show front ++ back = [] from empty] at length
    exact more (UInt16.toNat_inj.mp length)

/-- All that part_del does, where it does not delete the device. -/
theorem part_del_cases (mtd : MtdLists) {k : Nat} (sound : DeviceSound fresh dev)
    (found : dev.parts[k]? = some part) (more : dev.numParts ≠ 1) :
    ∃ front back, dev.parts = front ++ part :: back ∧ front.length = k ∧
      partDel mtd dev part = { mtd with
        devices := replace mtd.devices
          { dev with parts := front ++ back, numParts := dev.numParts - 1 }
        currentPartnum := partnumDeleted part (currPi mtd dev) mtd.currentPartnum } := by
  obtain ⟨front, back, split, length⟩ := split_at found
  have apart := sound.apart
  rw [split] at apart
  refine ⟨front, back, split, length, ?_⟩
  rw [partDel, if_neg more, ← filter_apart apart, ← split]

theorem part_del_sound {k : Nat} (sound : Sound mtd.devices fresh) (listed : dev ∈ mtd.devices)
    (found : dev.parts[k]? = some part) : Sound (partDel mtd dev part).devices fresh := by
  by_cases last : dev.numParts = 1
  · rw [partDel, if_pos last]
    exact (device_del_right sound listed).1
  · obtain ⟨front, back, split, -, deleted⟩ :=
      part_del_cases mtd (sound.each dev listed) found last
    rw [deleted]
    refine kept_replace sound listed rfl (deleted_sound (sound.each dev listed) split last)
      (Nat.le_refl _) fun pi member => .inl ?_
    rw [split]
    exact ((List.sublist_cons_self part back).append_left front).mem member

theorem deleted_gone {after : MtdLists} {front back : List Part} {count : UInt16}
    (sound : Sound mtd.devices fresh) (listed : dev ∈ mtd.devices)
    (split : dev.parts = front ++ part :: back)
    (left : after.devices = replace mtd.devices { dev with
      parts := front ++ back, numParts := count }) : ¬Present after part.ptr := by
  have was_there : part ∈ dev.parts := by
    rw [split]
    exact List.mem_append_right front List.mem_cons_self
  have apart := (sound.each dev listed).apart
  rw [split, List.map_append, List.map_cons, List.nodup_middle, List.nodup_cons,
    ← List.map_append] at apart
  rintro ⟨other, other_left, pi, member, same⟩
  rw [left] at other_left
  rcases mem_replace other_left with rfl | ⟨other_listed, other_ptr⟩
  · refine apart.1 ?_
    rw [← same]
    exact List.mem_map_of_mem member
  · exact other_ptr (sound.owner other other_listed dev listed pi member part was_there same)

/-- part_del moves the index where the deleted partition has no larger offset. -/
theorem index_deleted {front back : List Part} {curr : Part} (num : UInt8)
    (sorted : Sorted (front ++ part :: back))
    (apart : ((front ++ part :: back).map Part.ptr).Nodup)
    (at_num : (front ++ part :: back)[num.toNat]? = some curr) :
    partnumDeleted part (some curr) num =
      if num.toNat = front.length then 0
      else if front.length < num.toNat ∨ curr.info.offset = part.info.offset then num - 1
      else num := by
  obtain ⟨-, sorted_behind, across⟩ := List.pairwise_append.mp sorted
  have at_length : (front ++ part :: back)[front.length]? = some part := by
    rw [List.getElem?_append_right (Nat.le_refl _), Nat.sub_self, List.getElem?_cons_zero]
  unfold partnumDeleted
  dsimp only
  by_cases same : num.toNat = front.length
  · rw [same, at_length] at at_num
    cases at_num
    rw [if_pos rfl, if_pos same]
  · have other : curr.ptr ≠ part.ptr := fun same_ptr =>
      same (same_place apart at_num at_length same_ptr)
    rw [if_neg other, if_neg same]
    refine if_congr ?_ rfl rfl
    by_cases behind : front.length < num.toNat
    · have member := at_num
      rw [List.getElem?_append_right (Nat.le_of_lt behind)] at member
      exact iff_of_true (sorted_head sorted_behind (List.mem_of_getElem? member)) (.inl behind)
    · have in_front : num.toNat < front.length := by omega
      have member := at_num
      rw [List.getElem?_append_left in_front] at member
      have least := across curr (List.mem_of_getElem? member) part List.mem_cons_self
      constructor
      · intro most
        exact .inr (UInt32.le_antisymm least most)
      · rintro (after | tie)
        · exact absurd after behind
        · rw [tie]
          exact UInt32.le_refl _

/-- The index goes wrong where the deleted partition stands behind the current one at the same
offset. -/
theorem part_del_keeps_iff {k : Nat} (sound : Sound mtd.devices fresh) (listed : dev ∈ mtd.devices)
    (found : dev.parts[k]? = some part) :
    KeepsCurrent mtd (partDel mtd dev part) ↔
      (mtd.currentDev = some dev.ptr → mtd.currentPartnum.toNat < k →
        ∀ curr ∈ designated mtd, curr.info.offset ≠ part.info.offset) := by
  have dev_sound := sound.each dev listed
  by_cases last : dev.numParts = 1
  · obtain ⟨inside, -⟩ := List.getElem?_eq_some_iff.mp found
    rw [← dev_sound.right.counted, last, UInt16.toNat_one] at inside
    rw [partDel, if_pos last]
    refine iff_of_true (device_del_right sound listed).2 fun _ in_front => ?_
    omega
  have sound_after := part_del_sound sound listed found
  obtain ⟨front, back, split, length, deleted⟩ := part_del_cases mtd dev_sound found last
  rw [deleted] at sound_after ⊢
  have new_listed := replace_listed
    { dev with parts := front ++ back, numParts := dev.numParts - 1 } listed rfl
  by_cases current : mtd.currentDev = some dev.ptr
  · have before := designated_listed sound listed current
    have after := designated_listed sound_after new_listed current
    have sorted := dev_sound.right.sorted
    have apart := dev_sound.apart
    rw [split] at before sorted apart
    have curr_pi : currPi mtd dev = designated mtd := by
      rw [currPi, if_pos current, part_info_eq dev_sound.right, split, before]
    rw [curr_pi] at after ⊢
    constructor
    · intro keeps _ less curr is_curr tie
      have at_num := before.symm.trans is_curr
      rw [← length] at less
      have there := (getElem?_front front back part _ less).symm.trans at_num
      have same := keeps curr is_curr ⟨_, new_listed, curr, List.mem_of_getElem? there, rfl⟩
      rw [after, is_curr, index_deleted _ sorted apart at_num, if_neg (Nat.ne_of_lt less),
        if_pos (.inr tie)] at same
      have stepped : (mtd.currentPartnum - 1).toNat = mtd.currentPartnum.toNat :=
        same_place (sound_after.each _ new_listed).apart same there rfl
      have unchanged := UInt8.toNat_inj.mp stepped
      rw [UInt8.sub_eq_iff_eq_add, UInt8.left_eq_add] at unchanged
      exact absurd unchanged (by decide)
    · intro meets curr is_curr still_there
      have at_num := before.symm.trans is_curr
      rw [after, is_curr, index_deleted _ sorted apart at_num]
      rcases Nat.lt_trichotomy mtd.currentPartnum.toNat front.length with less | same | behind
      · have no_tie := meets current (by rw [← length]; exact less) curr is_curr
        rw [if_neg (Nat.ne_of_lt less), if_neg (by
          rintro (after | tie)
          · exact Nat.lt_asymm less after
          · exact no_tie tie)]
        exact (getElem?_front front back part _ less).symm.trans at_num
      · rw [same, List.getElem?_append_right (Nat.le_refl _), Nat.sub_self] at at_num
        cases at_num
        exact absurd still_there (deleted_gone sound listed split rfl)
      · have stepped : (mtd.currentPartnum - 1).toNat + 1 = mtd.currentPartnum.toNat := by
          have some_front : (1 : UInt8) ≤ mtd.currentPartnum := by
            rw [UInt8.le_iff_toNat_le, UInt8.toNat_one]
            omega
          rw [UInt8.toNat_sub_of_le _ _ some_front, UInt8.toNat_one]
          omega
        rw [if_neg (Nat.ne_of_gt behind), if_pos (.inl behind)]
        have not_before : front.length ≤ (mtd.currentPartnum - 1).toNat := by omega
        refine (getElem?_behind front back part _ not_before).symm.trans ?_
        rw [stepped]
        exact at_num
  · refine iff_of_true ?_ (fun is_current => absurd is_current current)
    have unmoved : partnumDeleted part (currPi mtd dev) mtd.currentPartnum = mtd.currentPartnum := by
      rw [currPi, if_neg current]
      rfl
    refine keeps_elsewhere sound sound_after rfl unmoved ?_
    intro other other_listed is_current
    refine replace_other other_listed fun same => current ?_
    rw [is_current, same]

end Del

/-! ### The commands -/

section Commands
variable {board : Board} {mtd after : MtdLists} {id : MtdIds} {defs : List PartInfo} {new dev : Device}
  {fresh : Nat}

theorem devices_right (sound : Sound mtd.devices fresh) : ∀ dev ∈ mtd.devices, DeviceRight dev :=
  fun dev listed => (sound.each dev listed).right

theorem parsed_counts (parsed : deviceParse board mtd id defs = some new) :
    new.parts.length = defs.length ∧ (DeviceRight new → defs.length < 2 ^ 16) := by
  obtain ⟨ptrs, -, -, -, counted, -⟩ := device_parse_right parsed
  have length : new.parts.length = defs.length := by
    rw [← List.length_map Part.ptr, ptrs.length_eq, List.length_range']
  refine ⟨length, fun right => ?_⟩
  rw [← length, ← right.counted]
  exact new.numParts.toNat_lt

theorem parsed_right (parsed : deviceParse board mtd id defs = some new)
    (few : defs.length < 2 ^ 16) : DeviceRight new := by
  obtain ⟨-, sorted, -, -, counted, fits⟩ := device_parse_right parsed
  refine ⟨sorted, ?_, fits⟩
  rw [counted, (parsed_counts parsed).1]
  exact Nat.mod_eq_of_lt few

/-- A partition that was named by its number. -/
theorem find_dev_and_part_cases {type : DevType} {dnum pnum : UInt8} {found : Device × Part}
    (sound : Sound mtd.devices fresh) (named : findDevAndPart mtd type dnum pnum = some found) :
    found.1 ∈ mtd.devices ∧ found.1.parts[pnum.toNat]? = some found.2 := by
  obtain ⟨dev, first, rest⟩ := Option.bind_eq_some_iff.mp named
  obtain ⟨part, at_pnum, rfl⟩ := Option.map_eq_some_iff.mp rest
  have listed := List.mem_of_find?_eq_some first
  exact ⟨listed, (part_info_eq (sound.each dev listed).right _).symm.trans at_pnum⟩

/-- parse_mtdparts builds one device for each entry. -/
theorem parse_devices_counts {devs : List (MtdIds × List PartInfo)}
    (parsed : parseDevices board devs mtd = some after) :
    (∀ dev ∈ mtd.devices, dev ∈ after.devices) ∧
      ((∀ dev ∈ after.devices, DeviceRight dev) → ∀ entry ∈ devs, entry.2.length < 2 ^ 16) := by
  induction devs generalizing mtd with
  | nil =>
      cases parsed
      exact ⟨fun dev listed => listed, fun _ entry member => absurd member List.not_mem_nil⟩
  | cons first rest inductive_hypothesis =>
      obtain ⟨id, defs⟩ := first
      rw [parseDevices] at parsed
      split at parsed
      · cases parsed
      · rename_i new device_parsed
        split at parsed
        · cases parsed
        · obtain ⟨kept, counts⟩ := inductive_hypothesis parsed
          refine ⟨fun dev listed => kept dev (List.mem_append_left _ listed), ?_⟩
          intro right entry member
          rcases List.mem_cons.mp member with rfl | member
          · exact (parsed_counts device_parsed).2
              (right new (kept new (List.mem_append_right _ (List.mem_singleton_self new))))
          · exact counts right entry member

theorem parse_devices_sound {devs : List (MtdIds × List PartInfo)}
    (sound : Sound mtd.devices mtd.fresh) (few : ∀ entry ∈ devs, entry.2.length < 2 ^ 16)
    (parsed : parseDevices board devs mtd = some after) : Sound after.devices after.fresh := by
  induction devs generalizing mtd with
  | nil =>
      cases parsed
      exact sound
  | cons first rest inductive_hypothesis =>
      obtain ⟨id, defs⟩ := first
      rw [parseDevices] at parsed
      split at parsed
      · cases parsed
      · rename_i new device_parsed
        split at parsed
        · cases parsed
        · have new_few := few _ List.mem_cons_self
          obtain ⟨new_sound, new_ptr, new_parts⟩ :=
            parsed_kept device_parsed (parsed_right device_parsed new_few)
          refine inductive_hypothesis (kept_append sound new_sound (by omega) new_ptr new_parts)
            (fun entry member => few entry (List.mem_cons_of_mem _ member)) parsed

theorem init_sound {devs : List (MtdIds × List PartInfo)} (meets : Meets board mtd (.init devs)) :
    Sound (mtdpartsInit board mtd devs).devices (mtdpartsInit board mtd devs).fresh := by
  unfold mtdpartsInit
  split
  · exact kept_nil
  · rename_i parsed
    split
    · exact kept_nil
    · have sound := parse_devices_sound kept_nil (meets (Option.isSome_of_eq_some parsed)) parsed
      exact sound

theorem init_right_iff {devs : List (MtdIds × List PartInfo)} :
    StepRight board mtd (.init devs) ↔ Meets board mtd (.init devs) := by
  constructor
  · intro right some_devices
    obtain ⟨after, parsed⟩ := Option.isSome_iff_exists.mp some_devices
    have counts := (parse_devices_counts parsed).2
    have devices := right.devices
    rw [mtdStep, mtdpartsInit, parsed] at devices
    dsimp only at devices
    split at devices
    · rename_i no_device
      rw [no_device] at counts
      exact counts devices
    · exact counts devices
  · exact fun meets => ⟨devices_right (init_sound meets), trivial⟩

theorem chpart_right (sound : Sound mtd.devices fresh) (type : DevType) (dnum pnum : UInt8) :
    StepRight board mtd (.chpart type dnum pnum) := by
  cases named : findDevAndPart mtd type dnum pnum with
  | none =>
      have unchanged : mtdStep board mtd (.chpart type dnum pnum) = mtd := by
        rw [mtdStep, chpart, named]
      refine ⟨?_, ?_⟩
      · rw [unchanged]
        exact devices_right sound
      · dsimp only
        rw [named, unchanged]
        exact fun part current _ => current
  | some found =>
      obtain ⟨listed, at_pnum⟩ := find_dev_and_part_cases sound named
      have changed : mtdStep board mtd (.chpart type dnum pnum) =
          { mtd with currentDev := some found.1.ptr, currentPartnum := pnum } := by
        rw [mtdStep, chpart, named]
      refine ⟨?_, ?_⟩
      · rw [changed]
        exact devices_right sound
      · dsimp only
        rw [named, changed]
        exact Eq.trans (designated_listed sound listed rfl) at_pnum

theorem del_right_iff (sound : Sound mtd.devices fresh) (type : DevType) (dnum pnum : UInt8) :
    Sound (mtdStep board mtd (.del type dnum pnum)).devices fresh ∧
      (StepRight board mtd (.del type dnum pnum) ↔ Meets board mtd (.del type dnum pnum)) := by
  cases named : findDevAndPart mtd type dnum pnum with
  | none =>
      have unchanged : mtdStep board mtd (.del type dnum pnum) = mtd := by
        rw [mtdStep, deletePartition, named]
      rw [unchanged]
      refine ⟨sound, iff_of_true ⟨?_, ?_⟩ ?_⟩
      · rw [unchanged]
        exact devices_right sound
      · dsimp only
        rw [unchanged]
        exact fun part current _ => current
      · intro found member
        rw [named] at member
        cases member
  | some found =>
      obtain ⟨listed, at_pnum⟩ := find_dev_and_part_cases sound named
      have changed : mtdStep board mtd (.del type dnum pnum) = partDel mtd found.1 found.2 := by
        rw [mtdStep, deletePartition, named]
      have sound_after := part_del_sound sound listed at_pnum
      have keeps_iff := part_del_keeps_iff sound listed at_pnum
      rw [changed]
      refine ⟨sound_after, ?_⟩
      constructor
      · intro right other member
        rw [named] at member
        cases member
        have keeps := right.current
        dsimp only at keeps
        rw [changed] at keeps
        exact fun current less => keeps_iff.mp keeps current (UInt8.lt_iff_toNat_lt.mp less)
      · intro meets
        refine ⟨?_, ?_⟩
        · rw [changed]
          exact devices_right sound_after
        · dsimp only
          rw [changed]
          exact keeps_iff.mpr fun current less =>
            meets found named current (UInt8.lt_iff_toNat_lt.mpr less)

theorem device_add_devices (mtd : MtdLists) (new : Device) :
    (deviceAdd mtd new).devices = mtd.devices ++ [new] := by
  unfold deviceAdd
  split
  · rename_i no_device
    rw [no_device, List.nil_append]
  · rfl

theorem device_add_keeps {later : Nat} (sound : Sound mtd.devices fresh)
    (sound_after : Sound (deviceAdd mtd new).devices later) : KeepsCurrent mtd (deviceAdd mtd new) := by
  by_cases no_device : mtd.devices = []
  · intro part current _
    obtain ⟨dev, listed, -⟩ := designated_cases sound current
    rw [no_device] at listed
    cases listed
  · have kept : ∀ dev ∈ mtd.devices, mtd.currentDev = some dev.ptr →
        dev ∈ (deviceAdd mtd new).devices := by
      intro dev listed _
      rw [device_add_devices]
      exact List.mem_append_left _ listed
    refine keeps_elsewhere sound sound_after ?_ ?_ kept
    · rw [deviceAdd, if_neg no_device]
    · rw [deviceAdd, if_neg no_device]

/-- What is right about an addition, and its condition. -/
def AddRight (mtd after : MtdLists) : Prop :=
  (∀ dev ∈ after.devices, DeviceRight dev) ∧ KeepsCurrent mtd after

theorem add_new_iff (sound : Sound mtd.devices mtd.fresh)
    (parsed : deviceParse board mtd id defs = some new)
    (after_eq : after = deviceAdd { mtd with fresh := mtd.fresh + 1 + defs.length } new) :
    (AddRight mtd after ↔ defs.length < 2 ^ 16) ∧
      (defs.length < 2 ^ 16 → Sound after.devices after.fresh) := by
  have sound_after (few : defs.length < 2 ^ 16) :
      Sound after.devices (mtd.fresh + 1 + defs.length) := by
    obtain ⟨new_sound, new_ptr, new_parts⟩ := parsed_kept parsed (parsed_right parsed few)
    rw [after_eq, device_add_devices]
    exact kept_append sound new_sound (by omega) new_ptr new_parts
  have fresh_after : after.fresh = mtd.fresh + 1 + defs.length := by
    rw [after_eq, deviceAdd]
    split <;> rfl
  refine ⟨⟨?_, ?_⟩, ?_⟩
  · intro right
    refine (parsed_counts parsed).2 (right.1 new ?_)
    rw [after_eq, device_add_devices]
    exact List.mem_append_right _ (List.mem_singleton_self new)
  · intro few
    refine ⟨devices_right (sound_after few), ?_⟩
    have sound_last := sound_after few
    rw [after_eq] at sound_last ⊢
    have keeps : KeepsCurrent { mtd with fresh := mtd.fresh + 1 + defs.length } _ :=
      device_add_keeps sound sound_last
    exact keeps
  · rw [fresh_after]
    exact sound_after

theorem part_sort_add_fresh (mtd : MtdLists) (dev : Device) (part : Part) :
    ((partSortAdd mtd dev part).getD mtd).fresh = mtd.fresh := by
  unfold partSortAdd
  cases dev.insert part <;> rfl

theorem part_sort_add_right_iff (mtd : MtdLists) {valid : PartInfo} {ptr later : Nat}
    (sound : Sound mtd.devices fresh) (listed : dev ∈ mtd.devices) (fits : Fits dev.id valid)
    (new_ptr : fresh ≤ ptr) (used : ptr < later)
    (after_eq : after = (partSortAdd mtd dev ⟨ptr, valid⟩).getD mtd) :
    (AddRight mtd after ↔ PartMeets mtd dev valid) ∧
      (PartMeets mtd dev valid → Sound after.devices later) := by
  have placed_iff : (partSortAdd mtd dev ⟨ptr, valid⟩).isSome ↔ ZeroFree dev valid.offset :=
    part_sort_add_isSome (sound.each dev listed).right
  cases added : partSortAdd mtd dev ⟨ptr, valid⟩ with
  | none =>
      rw [added] at after_eq placed_iff
      have unchanged : after = mtd := after_eq
      have refused : ¬ZeroFree dev valid.offset := fun free =>
        Bool.false_ne_true (placed_iff.mpr free)
      rw [unchanged]
      refine ⟨iff_of_true ⟨devices_right sound, fun part current _ => current⟩
        fun free => absurd free refused, fun _ => ⟨?_, sound.apart, sound.owner⟩⟩
      exact fun other member => (sound.each other member).mono (by omega)
  | some placed =>
      rw [added] at after_eq placed_iff
      have changed : after = placed := after_eq
      rw [changed]
      have free := placed_iff.mp rfl
      have sound_after (room : dev.numParts.toNat + 1 < 2 ^ 16) : Sound placed.devices later :=
        part_sort_add_sound sound listed added fits new_ptr used room
      refine ⟨⟨?_, ?_⟩, fun meets => sound_after (meets free).1⟩
      · rintro ⟨right, keeps⟩ _
        have room := part_sort_add_room sound listed added right
        exact ⟨room, (part_sort_add_keeps_iff sound listed added (sound_after room)).mp keeps⟩
      · intro meets
        obtain ⟨room, in_front⟩ := meets free
        have sound_placed := sound_after room
        exact ⟨devices_right sound_placed,
          (part_sort_add_keeps_iff sound listed added sound_placed).mpr in_front⟩

theorem some_only {α : Type*} {P : α → Prop} (value : α) : (∀ a ∈ some value, P a) ↔ P value := by
  constructor
  · exact fun all => all value rfl
  · rintro right a ⟨⟩
    exact right

theorem add_right_iff (sound : Sound mtd.devices mtd.fresh) (id : MtdIds) (defs : List PartInfo) :
    (AddRight mtd (mtdpartsAdd board mtd id defs) ↔ Meets board mtd (.add id defs)) ∧
      (Meets board mtd (.add id defs) → Sound (mtdpartsAdd board mtd id defs).devices
        (mtdpartsAdd board mtd id defs).fresh) := by
  have same_right : AddRight mtd mtd := ⟨devices_right sound, fun part current _ => current⟩
  have more : mtd.fresh ≤ mtd.fresh + 1 + defs.length := by omega
  rw [Meets]
  cases parsed : deviceParse board mtd id defs with
  | none =>
      have unchanged : mtdpartsAdd board mtd id defs = mtd := by rw [mtdpartsAdd, parsed]
      rw [unchanged]
      exact ⟨iff_of_true same_right fun new member => absurd member (Option.not_mem_none new),
        fun _ => sound⟩
  | some new =>
      rw [some_only]
      cases known : deviceFind mtd.devices id.type id.num with
      | none =>
          refine add_new_iff sound parsed ?_
          rw [mtdpartsAdd, parsed]
          dsimp only
          rw [known]
      | some dev =>
          have listed : dev ∈ mtd.devices := List.mem_of_find?_eq_some known
          have filled := (device_parse_right parsed).2.2.2.1
          obtain ⟨part, rest, parts⟩ := List.exists_cons_of_ne_nil filled
          have added : mtdpartsAdd board mtd id defs =
              (partAdd board { mtd with fresh := mtd.fresh + 1 + defs.length } dev part).getD
                { mtd with fresh := mtd.fresh + 1 + defs.length } := by
            rw [mtdpartsAdd, parsed]
            dsimp only
            rw [known]
            dsimp only
            rw [parts, List.head?_cons]
          rw [added, parts, List.head?_cons]
          dsimp only
          rw [some_only]
          cases validated : partValidate board dev.id part.info with
          | none =>
              have refused : partAdd board { mtd with fresh := mtd.fresh + 1 + defs.length } dev part =
                  none := by rw [partAdd, validated]
              rw [refused]
              refine ⟨iff_of_true same_right fun valid member => absurd member
                (Option.not_mem_none valid), fun _ => ⟨?_, sound.apart, sound.owner⟩⟩
              exact fun other member => (sound.each other member).mono more
          | some valid =>
              have sorted : partAdd board { mtd with fresh := mtd.fresh + 1 + defs.length } dev part =
                  partSortAdd { mtd with fresh := mtd.fresh + 1 + defs.length } dev
                    ⟨part.ptr, valid⟩ := by rw [partAdd, validated]
              have new_part : part ∈ new.parts := by
                rw [parts]
                exact List.mem_cons_self
              have between := parsed_between parsed part new_part
              obtain ⟨right_iff, sound_after⟩ := part_sort_add_right_iff
                { mtd with fresh := mtd.fresh + 1 + defs.length } sound listed
                (part_validate_fits validated) (Nat.le_of_succ_le between.1) between.2 rfl
              rw [sorted, some_only]
              refine ⟨right_iff, fun meets => ?_⟩
              rw [part_sort_add_fresh]
              exact sound_after meets

end Commands

/-! ### Runs -/

section Runs
variable {board : Board} {mtd before : MtdLists}

theorem del_fresh (board : Board) (mtd : MtdLists) (type : DevType) (dnum pnum : UInt8) :
    (mtdStep board mtd (.del type dnum pnum)).fresh = mtd.fresh := by
  rw [mtdStep, deletePartition]
  split
  · rfl
  · rw [partDel]
    split
    · unfold deviceDel
      dsimp only
      split
      · split <;> rfl
      · rfl
    · rfl

theorem step_iff (sound : Sound mtd.devices mtd.fresh) (event : MtdEvent) :
    (StepRight board mtd event ↔ Meets board mtd event) ∧
      (Meets board mtd event → Sound (mtdStep board mtd event).devices
        (mtdStep board mtd event).fresh) := by
  cases event with
  | init devs => exact ⟨init_right_iff, init_sound⟩
  | add id defs =>
      obtain ⟨right_iff, sound_after⟩ := add_right_iff sound id defs
      refine ⟨Iff.trans ⟨?_, ?_⟩ right_iff, sound_after⟩
      · exact fun right => ⟨right.devices, right.current⟩
      · exact fun right => ⟨right.1, right.2⟩
  | del type dnum pnum =>
      obtain ⟨sound_after, right_iff⟩ := del_right_iff sound type dnum pnum
      refine ⟨right_iff, fun _ => ?_⟩
      rw [del_fresh]
      exact sound_after
  | chpart type dnum pnum =>
      refine ⟨iff_of_true (chpart_right sound type dnum pnum) trivial, fun _ => ?_⟩
      rw [mtdStep, chpart]
      split
      · exact sound
      · exact sound

/-- In every run whose steps meet the condition the lists are sound. -/
theorem run_sound {events : List MtdEvent}
    (run : Run (Guarded (Meets board) (stepOf (mtdStep board))) emptyMtd events before) :
    Sound before.devices before.fresh := by
  refine run_preserves _ (fun mtd => Sound mtd.devices mtd.fresh) ?_ run kept_nil
  rintro mtd event after sound ⟨meets, taken⟩
  rw [show after = mtdStep board mtd event from taken]
  exact (step_iff sound event).2 meets

end Runs

/-- One flash of four sectors. -/
def fourSectors : Board where
  flashInfo := fun _ => ⟨[0x9f000000, 0x9f010000, 0x9f020000, 0x9f030000], 0x40000⟩
  erasesize := fun _ => 0x10000

def nor0 : MtdIds := ⟨.nor, 0, 0x40000, ascii "flash"⟩

/-- mtdparts add nor0 64k@offset name -/
def addSector (offset : UInt32) (name : List UInt8) : MtdEvent :=
  .add nor0 [⟨name, 0, 0x10000, offset, 0⟩]

/-- Two partitions stand at 64k, and chpart makes the first of them current. -/
def twoAtOnePlace : List MtdEvent :=
  [addSector 0 (ascii "boot"), addSector 0x10000 (ascii "a"), addSector 0x10000 (ascii "b"),
    .chpart .nor 0 1]

/-- The lists stay sorted, counted and inside of their devices, and the current partition stays the
same, exactly where the counters have room and no partition is deleted behind the current one at its
offset. -/
theorem part_lists_iff (board : Board) {events : List MtdEvent} {before : MtdLists}
    (run : Run (Guarded (Meets board) (stepOf (mtdStep board))) emptyMtd events before)
    (event : MtdEvent) : StepRight board before event ↔ Meets board before event :=
  (step_iff (run_sound run) event).1

/-- A third partition in front of the two. -/
theorem current_pushed_back :
    StepRight fourSectors (twoAtOnePlace.foldl (mtdStep fourSectors) emptyMtd)
      (addSector 0x10000 (ascii "c")) := by
  have run : Run (Guarded (Meets fourSectors) (stepOf (mtdStep fourSectors))) emptyMtd twoAtOnePlace
      (twoAtOnePlace.foldl (mtdStep fourSectors) emptyMtd) :=
    run_passes (Meets fourSectors) (mtdStep fourSectors) (by decide +kernel)
  exact (part_lists_iff fourSectors run _).mpr (by decide +kernel)

/-- When the other partition at 64k goes, the index falls back to the one at offset zero. -/
theorem tie_deleted :
    ¬∀ (events : List MtdEvent) (before : MtdLists) (event : MtdEvent),
      Run (stepOf (mtdStep fourSectors)) emptyMtd events before →
        StepRight fourSectors before event := by
  intro all
  have keeps := (all twoAtOnePlace _ (.del .nor 0 2) (run_foldl _ _ _)).current
  dsimp only at keeps
  have before_ptr : (designated (twoAtOnePlace.foldl (mtdStep fourSectors) emptyMtd)).map Part.ptr =
      some 5 := by decide +kernel
  have after_ptr : (designated (mtdStep fourSectors (twoAtOnePlace.foldl (mtdStep fourSectors) emptyMtd)
      (.del .nor 0 2))).map Part.ptr = some 1 := by decide +kernel
  obtain ⟨curr, is_curr, ptr⟩ := Option.map_eq_some_iff.mp before_ptr
  have still_there : Present (mtdStep fourSectors (twoAtOnePlace.foldl (mtdStep fourSectors) emptyMtd)
      (.del .nor 0 2)) curr.ptr := by
    rw [ptr]
    unfold Present
    decide +kernel
  rw [keeps curr is_curr still_there, Option.map_some, ptr] at after_ptr
  exact absurd after_ptr (by decide)

end UBoot.Mtd.CurrentPart
