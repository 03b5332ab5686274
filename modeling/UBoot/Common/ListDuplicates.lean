import UBoot.Common.ListSearch

/-!
ListFindItem and ListRemoveDuplicates of common/lists.c.
-/

namespace UBoot.Common.ListDuplicates

open Library.Compare Lists ListRuns ListSearch

def listGetPtrToItem (list : ListStruct) (itemPosition : Int) : Int :=
  let itemPosition :=
    if itemPosition = LIST_START then 1
    else if itemPosition = LIST_END then list.numItems
    else itemPosition
  itemPtr list (itemPosition - 1)

/-- The item behind a pointer. -/
def bytesAt (list : ListStruct) (ptr : Int) : List UInt8 :=
  (List.range list.itemSize.toNat).map fun i : Nat => list.itemList (ptr + i)

def listFindLoop (list : ListStruct) (item : List UInt8) (compareFunction : Option CompareFunction) :
    (fuel : Nat) → (index : Int) → Option Int
  | 0, _ => none
  | fuel + 1, index =>
      if index ≤ list.numItems then
        if compared compareFunction item (bytesAt list (itemPtr list (index - 1))) = 0 then some index
        else listFindLoop list item compareFunction fuel (wrapInt (index + 1))
      else some 0

def listFindItem (list : ListStruct) (item : List UInt8) (startingPosition : Int)
    (compareFunction : Option CompareFunction) : Option Int :=
  if list.numItems = 0 then some 0
  else
    let startingPosition :=
      if startingPosition = LIST_START then 1
      else if startingPosition = LIST_END then list.numItems
      else startingPosition
    listFindLoop list item compareFunction (list.numItems.toNat + 1) startingPosition

/-- The inner loop of ListRemoveDuplicates. -/
def removeEqual (compareFunction : Option CompareFunction) (index : Int) :
    (fuel : Nat) → (list : ListStruct) → (numItems startIndexForFind : Int) → Option (ListStruct × Int)
  | 0, _, _, _ => none
  | fuel + 1, list, numItems, startIndexForFind =>
      if startIndexForFind ≤ numItems then
        match listFindItem list (bytesAt list (listGetPtrToItem list index)) startIndexForFind
            compareFunction with
        | none => none
        | some duplicatesIndex =>
            if duplicatesIndex > 0 then
              removeEqual compareFunction index fuel (listRemoveItem list duplicatesIndex).2
                (numItems - 1) duplicatesIndex
            else some (list, numItems)
      else some (list, numItems)

def removeDuplicatesLoop (compareFunction : Option CompareFunction) :
    (fuel : Nat) → (list : ListStruct) → (numItems index : Int) → Option ListStruct
  | 0, _, _, _ => none
  | fuel + 1, list, numItems, index =>
      if index < numItems then
        match removeEqual compareFunction index (numItems.toNat + 1) list numItems (index + 1) with
        | none => none
        | some (list, numItems) => removeDuplicatesLoop compareFunction fuel list numItems (index + 1)
      else some list

def listRemoveDuplicates (list : ListStruct) (compareFunction : Option CompareFunction) :
    Option ListStruct :=
  removeDuplicatesLoop compareFunction (list.numItems.toNat + 1) list list.numItems 1

section Removal
variable {list : ListStruct} {bytes items room : Nat} {compareFunction : Option CompareFunction}

theorem bytes_at (sized : Sized list bytes items room) {p : Nat} (inside : p < items) :
    bytesAt list (itemPtr list p) = itemAt list p := by
  have fits := sized.fits
  rw [item_ptr sized (by omega), bytesAt, itemAt]
  simp [sized.itemSize]

theorem item_length (sized : Sized list bytes items room) (p : Nat) : (itemAt list p).length = bytes := by
  simp [itemAt, sized.itemSize]

theorem content_drop (sized : Sized list bytes items room) {p : Nat} (inside : p < items) :
    (content list).drop p = itemAt list p :: (content list).drop (p + 1) := by
  have length := content_length sized
  rw [List.drop_eq_getElem_cons (by omega)]
  simp [content]

theorem content_domain (sized : Sized list bytes items room) : ∀ a ∈ content list, a.length = bytes := by
  intro a member
  rw [content] at member
  obtain ⟨p, -, rfl⟩ := List.mem_map.mp member
  exact item_length sized p

/-- malloc refuses a block of 2^31 bytes, so that a list of INT_MAX items has none with a byte. -/
theorem room_below (sized : Sized list bytes items room) (held : 28 + bytes * room < 2 ^ 31)
    (some_bytes : 0 < bytes) : items < 2 ^ 31 - 1 := by
  have fits := sized.fits
  have product := Nat.le_mul_of_pos_left room some_bytes
  omega

/-- The first equal item from a position on. -/
theorem find_loop (sized : Sized list bytes items room) (held : 28 + bytes * room < 2 ^ 31)
    (equal : TestsEqual (fun a => a.length = bytes) (compared compareFunction)) {item : List UInt8}
    (one : item.length = bytes) {fuel p : Nat} (inside : p ≤ items) (enough : items < fuel + p) :
    listFindLoop list item compareFunction fuel (p + 1) =
      some (match ((content list).drop p).findIdx? fun a => compared compareFunction item a == 0 with
        | some k => p + k + 1
        | none => 0) := by
  induction fuel generalizing p with
  | zero => omega
  | succ fuel ih =>
      have small := sized.listSizeInt
      have fits := sized.fits
      rw [listFindLoop, sized.numItems]
      by_cases more : p < items
      · rw [if_pos (by omega), add_sub_cancel_right, bytes_at sized more, content_drop sized more,
          List.findIdx?_cons]
        by_cases same : compared compareFunction item (itemAt list p) = 0
        · rw [if_pos same, if_pos (beq_iff_eq.mpr same)]
          simp
        · have some_bytes : 0 < bytes := by
            rcases Nat.eq_zero_or_pos bytes with none | some_bytes
            · have empty := item_length sized p
              rw [none] at one empty
              rw [List.eq_nil_of_length_eq_zero one, List.eq_nil_of_length_eq_zero empty] at same
              exact absurd (equal.refl [] none.symm) same
            · exact some_bytes
          have below := room_below sized held some_bytes
          have next : wrapInt ((p : Int) + 1 + 1) = ((p + 1 : Nat) : Int) + 1 := by
            rw [wrap_int (by omega) (by omega)]
            push_cast
            rfl
          rw [if_neg same, if_neg (by simpa using same), next, ih (by omega) (by omega)]
          cases ((content list).drop (p + 1)).findIdx? fun a => compared compareFunction item a == 0 with
          | none => rfl
          | some k =>
              simp
              omega
      · have all : (content list).drop p = [] :=
          List.drop_eq_nil_of_le (by rw [content_length sized]; omega)
        rw [if_neg (by omega), all]
        rfl

/-- The search in the items behind a front. -/
theorem find_item (sized : Sized list bytes items room) (held : 28 + bytes * room < 2 ^ 31)
    (equal : TestsEqual (fun a => a.length = bytes) (compared compareFunction)) {item : List UInt8}
    (one : item.length = bytes) {front rest : List (List UInt8)} (parts : content list = front ++ rest)
    (some_items : 0 < front.length) :
    listFindItem list item (front.length + 1) compareFunction =
      some (match rest.findIdx? fun a => compared compareFunction item a == 0 with
        | some k => front.length + k + 1
        | none => 0) := by
  have length := content_length sized
  have found := find_loop sized held equal one
    (show front.length ≤ items by rw [← length, parts, List.length_append]; omega)
    (show items < items + 1 + front.length by omega)
  rw [parts, List.drop_left] at found
  rw [parts, List.length_append] at length
  have start : (front.length : Int) + 1 ≠ LIST_START ∧ (front.length : Int) + 1 ≠ LIST_END := by
    unfold LIST_START LIST_END
    omega
  rw [listFindItem, sized.numItems, if_neg (by omega), if_neg start.1, if_neg start.2, Int.toNat_natCast]
  exact found

theorem remove_at (sized : Sized list bytes items room) {q : Nat} (inside : q < items) :
    Sized (listRemoveItem list (q + 1)).2 bytes (items - 1) room ∧
      content (listRemoveItem list (q + 1)).2 = (content list).take q ++ (content list).drop (q + 1) := by
  have index : removeIndex items (q + 1) = q := by
    unfold removeIndex LIST_START LIST_END
    rw [if_neg (by omega), if_neg (by omega)]
    omega
  have range : InRange list (q + 1) 1 := by
    unfold InRange
    rw [sized.numItems, Int.toNat_natCast, index]
    unfold LIST_START LIST_END
    rw [if_neg (by omega), if_neg (by omega)]
    omega
  have removed := (@remove_sized list bytes items room sized (q + 1) 1 range).2
  rw [index] at removed
  exact removed

theorem item_ptr_position (sized : Sized list bytes items room) {i : Nat} (inside : i < items) :
    bytesAt list (listGetPtrToItem list (i + 1)) = itemAt list i := by
  unfold listGetPtrToItem LIST_START LIST_END
  rw [if_neg (by omega), if_neg (by omega)]
  dsimp only
  rw [add_sub_cancel_right]
  exact bytes_at sized inside

/-- The inner loop takes the equals of an item away. -/
theorem remove_equal (held : 28 + bytes * room < 2 ^ 31)
    (equal : TestsEqual (fun a => a.length = bytes) (compared compareFunction)) {i fuel : Nat}
    {front rest : List (List UInt8)} (sized : Sized list bytes items room)
    (parts : content list = front ++ rest) (place : i < front.length) (enough : rest.length < fuel) :
    ∃ (after : ListStruct) (count : Nat), removeEqual compareFunction (i + 1) fuel list items (front.length + 1) =
        some (after, (count : Int)) ∧ Sized after bytes count room ∧
      content after = front ++ rest.filter fun a => compared compareFunction front[i] a != 0 := by
  induction fuel generalizing list items front rest with
  | zero => omega
  | succ fuel ih =>
      have length := content_length sized
      rw [parts, List.length_append] at length
      have same : bytesAt list (listGetPtrToItem list (i + 1)) = front[i] := by
        rw [item_ptr_position sized (by omega)]
        have all := content_drop sized (show i < items by omega)
        rw [parts, List.drop_append_of_le_length (by omega), List.drop_eq_getElem_cons place] at all
        exact (List.cons_eq_cons.mp all).1.symm
      have one : front[i].length = bytes :=
        content_domain sized _ (by rw [parts]; exact List.mem_append_left _ (List.getElem_mem place))
      rw [removeEqual]
      cases more : rest.findIdx? fun a => compared compareFunction front[i] a == 0 with
      | none =>
          have kept : (rest.filter fun a => compared compareFunction front[i] a != 0) = rest := by
            apply List.filter_eq_self.mpr
            intro a member
            simpa using List.findIdx?_eq_none_iff.mp more a member
          refine ⟨list, items, ?_, sized, by rw [kept, parts]⟩
          split
          · rw [same, find_item sized held equal one parts (by omega), more]
            rfl
          · rfl
      | some k =>
          obtain ⟨inside, hit, before⟩ := List.findIdx?_eq_some_iff_getElem.mp more
          have split : rest = rest.take k ++ rest[k] :: rest.drop (k + 1) := by
            rw [← List.drop_eq_getElem_cons inside, List.take_append_drop]
          have skipped : ∀ a ∈ rest.take k, (compared compareFunction front[i] a != 0) = true := by
            intro a member
            obtain ⟨j, bound, rfl⟩ := List.getElem_of_mem member
            rw [List.length_take] at bound
            rw [List.getElem_take]
            simpa using before j (by omega)
          obtain ⟨shorter, left⟩ := @remove_at _ _ _ _ sized (front.length + k) (by omega)
          have longer : (front ++ rest.take k).length = front.length + k := by
            rw [List.length_append, List.length_take]
            omega
          have further : i < (front ++ rest.take k).length := by omega
          have first : (front ++ rest.take k)[i] = front[i] := List.getElem_append_left place
          have left : content (listRemoveItem list ((front.length + k : Nat) + 1)).2 =
              (front ++ rest.take k) ++ rest.drop (k + 1) := by
            rw [left, parts, List.take_length_add_append, Nat.add_assoc, List.drop_length_add_append]
          obtain ⟨after, count, removed, ordered, kept⟩ :=
            ih shorter left further (by rw [List.length_drop]; omega)
          refine ⟨after, count, ?_, ordered, ?_⟩
          · rw [if_pos (by omega), same, find_item sized held equal one parts (by omega), more]
            dsimp only
            rw [if_pos (by positivity)]
            rw [longer] at removed
            have fewer : (items : Int) - 1 = (items - 1 : Nat) := by omega
            have next : (front.length : Int) + k + 1 = (front.length + k : Nat) + 1 := by push_cast; rfl
            rw [fewer, next]
            exact removed
          · rw [kept, first, List.append_assoc]
            congr 1
            conv_rhs => rw [split]
            rw [List.filter_append, List.filter_cons_of_neg (by simpa using hit),
              List.filter_eq_self.mpr skipped]

/-- The outer loop, with the items that it is behind. -/
theorem duplicates_loop (held : 28 + bytes * room < 2 ^ 31)
    (equal : TestsEqual (fun a => a.length = bytes) (compared compareFunction)) {fuel : Nat}
    {front rest : List (List UInt8)} (sized : Sized list bytes items room)
    (parts : content list = front ++ rest) (enough : rest.length < fuel) :
    ∃ after count, removeDuplicatesLoop compareFunction fuel list items (front.length + 1) = some after ∧
      Sized after bytes count room ∧ content after = front ++ sweep (compared compareFunction) rest := by
  induction fuel generalizing list items front rest with
  | zero => omega
  | succ fuel ih =>
      have length := content_length sized
      rw [parts, List.length_append] at length
      rw [removeDuplicatesLoop]
      match rest with
      | [] =>
          rw [if_neg (by simp at length; omega)]
          exact ⟨list, items, rfl, sized, by rw [parts, sweep]⟩
      | [last] =>
          rw [if_neg (by simp at length; omega)]
          exact ⟨list, items, rfl, sized, by rw [parts, sweep, List.filter_nil, sweep]⟩
      | item :: next :: tail =>
          have place : front.length < (front ++ [item]).length := by simp
          have here : (front ++ [item])[front.length] = item := by simp
          have grown : content list = (front ++ [item]) ++ next :: tail := by simp [parts]
          simp only [List.length_cons] at length enough
          obtain ⟨between, count, removed, kept, left⟩ := @remove_equal _ _ _ _ compareFunction held equal
            front.length (items + 1) (front ++ [item]) (next :: tail) sized grown place
            (by simp; omega)
          rw [here] at left
          have filtered := List.length_filter_le (fun a => compared compareFunction item a != 0) (next :: tail)
          rw [List.length_cons] at filtered
          obtain ⟨after, total, swept, ordered, result⟩ := ih kept left (by omega)
          refine ⟨after, total, ?_, ordered, ?_⟩
          · have longer : ((front ++ [item]).length : Int) = (front.length : Int) + 1 := by simp
            rw [longer] at removed swept
            rw [if_pos (by omega), Int.toNat_natCast, removed]
            exact swept
          · rw [result, sweep, List.append_assoc]
            rfl

end Removal

/-- Of the items that are equal to each other the first one is left, and the order is kept. -/
theorem list_remove_duplicates {list : ListStruct} {bytes items room : Nat}
    (sized : Sized list bytes items room) (held : list.size < 2 ^ 31)
    {compareFunction : Option CompareFunction}
    (equal : TestsEqual (fun a => a.length = bytes) (compared compareFunction)) :
    ∃ after count, listRemoveDuplicates list compareFunction = some after ∧
      Sized after bytes count room ∧
      content after = firsts (compared compareFunction) [] (content list) := by
  have covers := sized.covers
  have length := content_length sized
  obtain ⟨after, count, removed, ordered, left⟩ := @duplicates_loop list bytes items room compareFunction
    (by omega) equal (items + 1) [] (content list) sized rfl (by omega)
  refine ⟨after, count, ?_, ordered, ?_⟩
  · rw [listRemoveDuplicates, sized.numItems, Int.toNat_natCast]
    exact removed
  · rw [left, List.nil_append, sweep_firsts equal (content_domain sized)]

/-- The bytes 1, 3, 1, 1. -/
def fourBytes : ListStruct :=
  ⟨0x100, 32, 10, 4, 4, 1, 4, fun place => if place = 1 then 3 else 1, false⟩

theorem four_bytes_sized : Sized fourBytes 1 4 4 := by
  constructor <;> decide

theorem four_bytes_swept : ∃ after count, listRemoveDuplicates fourBytes none = some after ∧
    Sized after 1 count 4 ∧ content after = firsts (compared none) [] (content fourBytes) :=
  list_remove_duplicates four_bytes_sized (by decide) (memcmp_tests 1)

end UBoot.Common.ListDuplicates
