import UBoot.Library.Runs
import UBoot.Common.Lists

/-!
Lists as sequences. Each operation of the list package has its counterpart on
sequences of items, and a run of operations follows it as long as no insertion
finds a list that still has room, but not enough of it.
-/

namespace UBoot.Common.ListRuns

open Library.Runs Lists

/-- What a list is for: its items, and how many bytes each of them has. -/
structure Sequence where
  itemSize : Nat
  items : List (List UInt8)

def insertIndex (length : Nat) (position : Int) : Nat :=
  if position = LIST_END then length
  else if position = LIST_START then 0
  else (position - 1).toNat

def insertItems (items new : List (List UInt8)) (position : Int) : List (List UInt8) :=
  items.take (insertIndex items.length position) ++ new ++
    items.drop (insertIndex items.length position)

def removeIndex (length : Nat) (position : Int) : Nat :=
  if position = LIST_START then 0
  else if position = LIST_END then length - 1
  else (position - 1).toNat

/-- The room that a full list gets when `count` items are to be inserted. -/
def roomAfter (list : ListStruct) (count : Int) : Int :=
  list.listSize + count + numItemsPerAlloc list

/-- The insertion is refused, or the list is full and can grow, or it has room for all items. -/
def InsertAdmitted (list : ListStruct) (position count : Int) : Prop :=
  position < 2147483648 ∧
    (list.numItems + 1 < position ∨
      LIST_START ≤ position ∧ 0 ≤ count ∧
        if list.numItems < list.listSize then list.numItems + count ≤ list.listSize
        else roomAfter list count < 2147483648 ∧
          list.itemSize * roomAfter list count < 2147483648)

instance (list : ListStruct) (position count : Int) :
    Decidable (InsertAdmitted list position count) := by
  unfold InsertAdmitted
  infer_instance

def InRange (list : ListStruct) (position count : Int) : Prop :=
  0 ≤ count ∧ (if position = LIST_START then 0 ≤ list.numItems
    else if position = LIST_END then 1 ≤ list.numItems else 1 ≤ position) ∧
    removeIndex list.numItems.toNat position + count ≤ list.numItems

instance (list : ListStruct) (position count : Int) : Decidable (InRange list position count) := by
  unfold InRange
  infer_instance

section Operations

variable {list : ListStruct} {bytes items room : Nat}

theorem content_length (sized : Sized list bytes items room) : (content list).length = items := by
  simp [content_sized sized]

theorem expand_sized (sized : Sized list bytes items room) (newPtr count : Nat)
    (listSizeInt : roomAfter list count < 2147483648)
    (bytesInt : list.itemSize * roomAfter list count < 2147483648) :
    ∃ newRoom, room + count ≤ newRoom ∧
      Sized (expandListSpace list newPtr (wrapInt (-(count : Int)))) bytes items newRoom ∧
      content (expandListSpace list newPtr (wrapInt (-(count : Int)))) = content list := by
  have policy : 0 ≤ numItemsPerAlloc list := le_max_of_le_right sized.policy
  rcases Int.eq_ofNat_of_zero_le policy with ⟨more, grow⟩
  have after : roomAfter list count = (room + count + more : Nat) := by
    unfold roomAfter
    rw [sized.listSize, grow]
    push_cast
    rfl
  rw [after] at listSizeInt bytesInt
  rw [sized.itemSize, ← Nat.cast_mul] at bytesInt
  have small : room + count + more < 2147483648 := by omega
  have product : bytes * (room + count + more) < 2147483648 := by omega
  have new : (if wrapInt (-(count : Int)) = 0 then numItemsPerAlloc list
      else if wrapInt (-(count : Int)) < 0
        then wrapInt (wrapInt (-wrapInt (-(count : Int))) + numItemsPerAlloc list)
        else wrapInt (-(count : Int))) = (count + more : Nat) := by
    rw [wrap_int (show -2147483648 ≤ -(count : Int) by omega) (by omega), neg_neg, grow]
    by_cases zero : count = 0
    · subst zero
      simp
    · rw [if_neg (by omega), if_pos (by omega),
        wrap_int (show -2147483648 ≤ (count : Int) by omega) (by omega)]
      push_cast
      exact wrap_int (by omega) (by omega)
  have size : wrapInt (list.listSize + (count + more : Nat)) = (room + count + more : Nat) := by
    rw [sized.listSize, wrap_int (by omega) (by omega)]
    push_cast
    ring
  have total : wrapSize (sizeofListStruct +
      wrapInt (((room + count + more : Nat) : Int) * list.itemSize)) =
        28 + bytes * (room + count + more) := by
    rw [sized.itemSize, ← Nat.cast_mul, Nat.mul_comm, wrap_int (by omega) (by omega)]
    exact @wrap_size (28 + bytes * (room + count + more)) (by omega)
  have whole : expandListSpace list newPtr (wrapInt (-(count : Int))) =
      { setHandleSize list newPtr (28 + bytes * (room + count + more)) with
        listSize := ((room + count + more : Nat) : Int) } := by
    unfold expandListSpace
    simp only [new, size, total]
  have fits := sized.fits
  have grown := resize_sized sized newPtr
    (show items ≤ room + count + more by omega) small product
  refine ⟨room + count + more, by omega, ?_, ?_⟩
  · rw [whole]
    exact grown
  · rw [whole, content_sized grown, content_sized sized]
    apply List.map_congr_left
    intro k member
    have bound : k < items := List.mem_range.mp member
    exact resize_item sized newPtr _ (Nat.lt_of_lt_of_le bound sized.fits)

/-- The position that the code works with: the end, or the item in front of which it inserts. -/
theorem insert_position {position : Int} (start : -1 ≤ position) (place : position ≤ items + 1)
    (int : position < 2147483648) (small : items < 2147483648) :
    let first := if position = wrapInt (items + 1) then LIST_END else position
    let second := if first = LIST_START then if (items : Int) = 0 then LIST_END else 1 else first
    (second = LIST_END ∧ insertIndex items position = items) ∨
      (second = insertIndex items position + 1 ∧ insertIndex items position < items) := by
  have wrapped : wrapInt (items + 1) = items + 1 ∨
      (items = 2147483647 ∧ wrapInt (items + 1) = -2147483648) := by
    by_cases last : items = 2147483647
    · subst last
      exact Or.inr ⟨rfl, by decide⟩
    · exact Or.inl (wrap_int (by omega) (by omega))
  unfold insertIndex LIST_END LIST_START
  have first : (if position = wrapInt (items + 1) then 0 else position) =
      if position = items + 1 then 0 else position := by
    rcases wrapped with same | ⟨last, turned⟩
    · rw [same]
    · rw [turned, if_neg (by omega), if_neg (by omega)]
  dsimp only
  rw [first]
  by_cases end_ : position = items + 1
  · left
    rw [if_pos end_, if_neg (show ¬(0 : Int) = -1 by decide)]
    exact ⟨rfl, by split_ifs <;> omega⟩
  · simp only [end_, if_false]
    split_ifs <;> omega

theorem insert_sized (sized : Sized list bytes items room) (newPtr : Nat)
    (ptrToItems : Option (Nat → UInt8)) {position : Int} {count : Nat}
    (start : -1 ≤ position) (place : position ≤ items + 1) (int : position < 2147483648)
    (admitted : if list.numItems < list.listSize then list.numItems + count ≤ list.listSize
      else roomAfter list count < 2147483648 ∧
        list.itemSize * roomAfter list count < 2147483648) :
    (listInsertItems list newPtr ptrToItems position count).1 = 1 ∧
      (∃ newRoom, Sized (listInsertItems list newPtr ptrToItems position count).2 bytes
        (items + count) newRoom) ∧
      content (listInsertItems list newPtr ptrToItems position count).2 =
        insertItems (content list) (chunks bytes count (ptrToItems.getD fun _ => 0)) position := by
  -- the list behind the check of its room
  obtain ⟨grown, checked, newRoom, enough, sized', same⟩ : ∃ grown,
      (if list.numItems ≥ list.listSize then expandListSpace list newPtr (wrapInt (-(count : Int)))
        else list) = grown ∧ ∃ newRoom, items + count ≤ newRoom ∧
      Sized grown bytes items newRoom ∧ content grown = content list := by
    refine ⟨_, rfl, ?_⟩
    have fits := sized.fits
    by_cases full : list.numItems ≥ list.listSize
    · rw [if_neg (by omega)] at admitted
      rw [if_pos full]
      rcases expand_sized sized newPtr count admitted.1 admitted.2 with ⟨more, enough, grown, same⟩
      exact ⟨more, by omega, grown, same⟩
    · rw [if_pos (by omega), sized.numItems, sized.listSize] at admitted
      rw [if_neg full]
      exact ⟨room, by omega, sized, rfl⟩
  have small := sized'.listSizeInt
  have total : wrapInt ((items : Int) + count) = (items + count : Nat) := by
    rw [wrap_int (by omega) (by omega)]
    push_cast
    rfl
  have refused : ¬(position ≠ wrapInt ((items : Int) + 1) ∧ position > items) := by
    rintro ⟨other, above⟩
    exact other (by rw [wrap_int (by omega) (by omega)]; omega)
  have found := insert_position start place int (show items < 2147483648 by omega)
  unfold listInsertItems
  simp only [sized.numItems, refused, if_false]
  rw [sized.numItems] at checked
  rw [checked, sized'.itemSize, total]
  dsimp only at found
  unfold insertItems
  rw [content_length sized]
  refine ⟨trivial, ?_⟩
  rcases found with ⟨second, last⟩ | ⟨second, inner⟩
  · rw [second, if_pos rfl, item_ptr sized' (by omega), item_bytes sized' (by omega), last]
    refine ⟨⟨newRoom, count_sized (store_sized sized' enough _) enough⟩, ?_⟩
    rw [fill_end sized' enough, same, List.take_of_length_le (by rw [content_length sized]),
      List.drop_of_length_le (by rw [content_length sized]), List.append_nil]
  · generalize insertIndex items position = p at second inner ⊢
    have other : ¬((p : Int) + 1 = LIST_END) := by
      unfold LIST_END
      omega
    have destination : wrapInt ((p : Int) + 1 - 1 + count) = (p + count : Nat) := by
      rw [wrap_int (by omega) (by omega)]
      push_cast
      ring
    have rest : wrapInt ((items : Int) + 1 - (p + 1)) = (items - p : Nat) := by
      rw [wrap_int (by omega) (by omega)]
      omega
    have source : (p : Int) + 1 - 1 = p := by omega
    have moved := fill_middle sized' (Nat.le_of_lt inner) enough (ptrToItems.getD fun _ => 0)
    rw [second, if_neg other, destination, rest, source, item_ptr sized' (by omega),
      mul_comm ((items - p : Nat) : Int), item_bytes sized' (by omega), item_ptr sized' (by omega),
      item_ptr moved.1 (by omega), item_bytes sized' (by omega)]
    refine ⟨⟨newRoom, count_sized (store_sized moved.1 (by omega) _) enough⟩, ?_⟩
    rw [moved.2, same]

theorem remove_sized (sized : Sized list bytes items room) {position : Int} {count : Nat}
    (range : InRange list position count) :
    (listRemoveItems list position count).1 =
        (((content list).drop (removeIndex items position)).take count).flatten ∧
      Sized (listRemoveItems list position count).2 bytes (items - count) room ∧
      content (listRemoveItems list position count).2 =
        (content list).take (removeIndex items position) ++
          (content list).drop (removeIndex items position + count) := by
  rcases range with ⟨_, first, last⟩
  have fits := sized.fits
  have small := sized.listSizeInt
  rw [sized.numItems] at first last
  rw [Int.toNat_natCast] at last
  have place : (if position = LIST_START then 1 else if position = LIST_END then (items : Int)
      else position) = removeIndex items position + 1 := by
    unfold removeIndex at last ⊢
    split_ifs at first last ⊢ <;> omega
  generalize removeIndex items position = p at place last ⊢
  have bound : p + count ≤ items := by omega
  have after : p + count < items → wrapInt ((p : Int) + 1 + count) - 1 = (p + count : Nat) := by
    intro more
    rw [wrap_int (by omega) (by omega)]
    omega
  have move : wrapInt ((items : Int) - (wrapInt ((p : Int) + 1 + count) - 1)) =
      (items - (p + count) : Nat) := by
    by_cases top : p + count = 2147483647
    · have sum : (p : Int) + 1 + count = 2147483648 := by omega
      have all : items = 2147483647 := by omega
      rw [sum, all, top]
      decide
    · rw [wrap_int (show -2147483648 ≤ (p : Int) + 1 + count by omega) (by omega),
        wrap_int (by omega) (by omega)]
      omega
  have total : wrapInt ((items : Int) - count) = (items - count : Nat) := by
    rw [wrap_int (by omega) (by omega)]
    omega
  have taken : ((content list).drop p).take count =
      chunks bytes count fun i => list.itemList ((bytes * p : Nat) + i) := by
    rw [(content_parts sized (show p ≤ items by omega)).2, ← List.map_take, List.take_range,
      Nat.min_eq_left (by omega)]
    apply List.map_congr_left
    intro k _
    exact (chunk_items sized p k).symm
  unfold listRemoveItems
  simp only [sized.numItems, place, add_sub_cancel_right, move, total, sized.itemSize]
  rw [item_ptr sized (show p ≤ room by omega), item_bytes sized (show count ≤ room by omega),
    taken, flatten_chunks]
  refine ⟨rfl, ?_⟩
  by_cases more : p + count < items
  · rw [if_pos (by omega), after more, item_ptr sized (show p + count ≤ room by omega),
      item_bytes sized (show items - (p + count) ≤ room by omega)]
    exact ⟨count_sized (store_sized sized (by omega) _) (by omega), close_gap sized bound⟩
  · have same : items - count = p := by omega
    have none : items - (p + count) = 0 := by omega
    rw [if_neg (by omega)]
    refine ⟨count_sized sized (by omega), ?_⟩
    rw [content_sized (count_sized sized (show items - count ≤ room by omega)), same,
      (content_parts sized (show p ≤ items by omega)).1, (content_parts sized bound).2, none]
    simp only [List.range_zero, List.map_nil, List.append_nil]
    rfl

/-- Room for exactly the items that the list is to have. -/
theorem exact_room (sized : Sized list bytes items room) (newPtr : Nat) {count : Nat}
    (fits : items ≤ count) (listSizeInt : count < 2147483648)
    (bytesInt : bytes * count < 2147483648) :
    setHandleSize list newPtr (wrapSize (sizeofListStruct + wrapInt ((count : Int) * bytes))) =
        setHandleSize list newPtr (28 + bytes * count) ∧
      Sized { setHandleSize list newPtr (28 + bytes * count) with listSize := (count : Int) }
        bytes items count := by
  constructor
  · rw [← Nat.cast_mul, Nat.mul_comm, wrap_int (by omega) (by omega)]
    congr 1
    exact @wrap_size (28 + bytes * count) (by omega)
  · exact resize_sized sized newPtr fits listSizeInt bytesInt

theorem compact_sized (sized : Sized list bytes items room) (newPtr : Nat) :
    Sized (listCompact list newPtr) bytes items items ∧
      content (listCompact list newPtr) = content list := by
  have fits := sized.fits
  have small := sized.listSizeInt
  have product := Nat.mul_le_mul_left bytes fits
  have bound := sized.bytesInt
  rcases exact_room sized newPtr (Nat.le_refl items) (by omega) (by omega) with ⟨size, compact⟩
  have whole : listCompact list newPtr =
      { setHandleSize list newPtr (28 + bytes * items) with listSize := (items : Int) } := by
    unfold listCompact
    rw [sized.numItems, sized.itemSize, size]
  rw [whole]
  refine ⟨compact, ?_⟩
  rw [content_sized compact, content_sized sized]
  apply List.map_congr_left
  intro k member
  exact resize_item sized newPtr _ (Nat.lt_of_lt_of_le (List.mem_range.mp member) fits)

theorem create_sized (ptr : Nat) (fresh : Int → UInt8) {element : Nat}
    (small : element < 2147483648) :
    Sized (listCreate ptr fresh element) element 0 0 :=
  ⟨rfl, rfl, rfl, Nat.le_refl 0, small, by omega, by omega, by simp [listCreate],
    show (0 : Int) ≤ 4 by decide, rfl⟩

theorem copy_room (sized : Sized list bytes items room) (ptr newPtr : Nat)
    (fresh : Int → UInt8) : Sized (copyRoom list ptr newPtr fresh) bytes items items := by
  have product := Nat.mul_le_mul_left bytes sized.fits
  have fits := sized.fits
  have small := sized.listSizeInt
  have bound := sized.bytesInt
  have created := create_sized ptr fresh sized.itemSizeInt
  rcases exact_room created newPtr (Nat.zero_le items) (by omega) (by omega) with ⟨size, room'⟩
  unfold copyRoom
  simp only [sized.numItems, sized.itemSize, created.itemSize, size]
  exact ⟨rfl, rfl, rfl, Nat.le_refl items, sized.itemSizeInt, room'.listSizeInt, room'.bytesInt,
    room'.covers, sized.policy, room'.inside⟩

theorem copy_sized (sized : Sized list bytes items room) (ptr newPtr : Nat)
    (fresh : Int → UInt8) : Sized (listCopy list ptr newPtr fresh) bytes items items ∧
      content (listCopy list ptr newPtr fresh) = content list := by
  have filled := copy_room sized ptr newPtr fresh
  have start : itemPtr (copyRoom list ptr newPtr fresh) 0 = (bytes * 0 : Nat) :=
    item_ptr filled (Nat.zero_le items)
  have origin : itemPtr list 0 = (bytes * 0 : Nat) := item_ptr sized (Nat.zero_le room)
  unfold listCopy
  simp only [start, origin]
  rw [sized.numItems, filled.itemSize, mul_comm (items : Int),
    item_bytes filled (Nat.le_refl items)]
  have stored := store_sized filled (show 0 + items ≤ items by omega)
    fun i => list.itemList ((bytes * 0 : Nat) + i)
  refine ⟨stored, ?_⟩
  rw [content_sized stored, content_sized sized]
  apply List.map_congr_left
  intro k member
  have inner : k < items := List.mem_range.mp member
  rw [store_item filled, if_pos (by omega), chunk_items sized, Nat.zero_add, Nat.sub_zero]

theorem append_sized (sized : Sized list bytes items room) (newPtr : Nat) (source : ListStruct)
    (more room2 : Nat)
    (listSizeInt : items + more < 2147483648) (bytesInt : bytes * (items + more) < 2147483648) :
    Sized (appendRoom list newPtr more) bytes (items + more) (items + more) ∧
      (∀ k < items, itemAt (appendRoom list newPtr more) k = itemAt list k) ∧
      (Sized source bytes more room2 ∨ source = appendRoom list newPtr more ∧ more = items →
        Sized (appendMove (appendRoom list newPtr more) source items more) bytes
          (items + more) (items + more) ∧
        content (appendMove (appendRoom list newPtr more) source items more) =
          content list ++ (List.range more).map (itemAt source)) := by
  rcases exact_room sized newPtr (show items ≤ items + more by omega) listSizeInt bytesInt with
    ⟨size, roomy⟩
  have total : wrapInt ((items : Int) + more) = (items + more : Nat) := by
    rw [wrap_int (by omega) (by omega)]
    push_cast
    rfl
  have whole : appendRoom list newPtr more =
      { ({ setHandleSize list newPtr (28 + bytes * (items + more)) with
          listSize := ((items + more : Nat) : Int) } : ListStruct) with
        numItems := ((items + more : Nat) : Int) } := by
    unfold appendRoom
    simp only [sized.numItems, sized.itemSize, total, size]
  have grown : Sized (appendRoom list newPtr more) bytes (items + more) (items + more) := by
    rw [whole]
    exact count_sized roomy (Nat.le_refl _)
  have kept : ∀ k < items, itemAt (appendRoom list newPtr more) k = itemAt list k := by
    intro k inner
    rw [whole]
    exact resize_item sized newPtr _ (Nat.lt_of_lt_of_le inner sized.fits)
  refine ⟨grown, kept, fun other => ?_⟩
  obtain ⟨itemSize, pointer⟩ : source.itemSize = bytes ∧ itemPtr source 0 = (bytes * 0 : Nat) := by
    rcases other with other | ⟨rfl, _⟩
    · exact ⟨other.itemSize, item_ptr other (Nat.zero_le _)⟩
    · exact ⟨grown.itemSize, item_ptr grown (Nat.zero_le _)⟩
  have moved : appendMove (appendRoom list newPtr more) source items more =
      store (appendRoom list newPtr more) (bytes * items : Nat) (bytes * more)
        fun i => source.itemList ((bytes * 0 : Nat) + i) := by
    unfold appendMove
    rw [item_ptr grown (by omega), itemSize, mul_comm (more : Int),
      item_bytes grown (by omega), pointer]
  have stored := store_sized grown (Nat.le_refl (items + more))
    fun i => source.itemList ((bytes * 0 : Nat) + i)
  rw [moved]
  refine ⟨stored, ?_⟩
  rw [content_sized stored, content_sized sized, List.range_add, List.map_append, List.map_map]
  refine congrArg₂ (· ++ ·) ?_ ?_
  · apply List.map_congr_left
    intro k member
    have inner : k < items := List.mem_range.mp member
    rw [store_item grown, if_neg (by omega), kept k inner]
  · apply List.map_congr_left
    intro k member
    have inner : k < more := List.mem_range.mp member
    rw [Function.comp_apply, store_item grown, if_pos (by omega), Nat.add_sub_cancel_left]
    unfold chunk itemAt
    rw [itemSize]
    apply List.map_congr_left
    intro i _
    have place : ((bytes * 0 : Nat) : Int) + ((bytes * k + i : Nat) : Int) =
        (bytes : Int) * k + i := by
      push_cast
      ring
    exact congrArg source.itemList place

end Operations

/-! ### Runs -/

inductive Reply where
  | done
  | status (result : Int)
  | bytes (itemsDestination : List UInt8)
  | handle (list : Option Nat)

/-- The operations. A list is named by the number of its handle, and each call that may move a
block is told where. -/
inductive Operation where
  | create (ptr : Nat) (fresh : Int → UInt8) (elementSize : Int)
  | insertItems (list newPtr : Nat) (ptrToItems : Option (Nat → UInt8))
      (firstItemPosition numItemsToInsert : Int)
  | removeItems (list : Nat) (firstItemPosition numItemsToRemove : Int)
  | append (list1 list2 : Option Nat) (newPtr : Nat)
  | copy (originalList : Option Nat) (ptr newPtr : Nat) (fresh : Int → UInt8)
  | compact (list newPtr : Nat)
  | clear (list : Option Nat)

def appendTo (lists : List ListStruct) (h1 : Nat) (list1 list2 : ListStruct) (same : Bool)
    (newPtr : Nat) : List ListStruct × Reply :=
  if list1.itemSize ≠ list2.itemSize then (lists, .status 0)
  else if list2.numItems = 0 then (lists, .status 1)
  else
    let grown := appendRoom list1 newPtr list2.numItems
    let source := if same then grown else list2
    (lists.set h1 (appendMove grown source list1.numItems list2.numItems), .status 1)

def perform (lists : List ListStruct) : Operation → List ListStruct × Reply
  | .create ptr fresh elementSize =>
      (lists ++ [listCreate ptr fresh elementSize], .handle (some lists.length))
  | .insertItems h newPtr ptrToItems firstItemPosition numItemsToInsert =>
      match lists[h]? with
      | none => (lists, .done)
      | some list =>
          let inserted :=
            listInsertItems list newPtr ptrToItems firstItemPosition numItemsToInsert
          (lists.set h inserted.2, .status inserted.1)
  | .removeItems h firstItemPosition numItemsToRemove =>
      match lists[h]? with
      | none => (lists, .done)
      | some list =>
          let removed := listRemoveItems list firstItemPosition numItemsToRemove
          (lists.set h removed.2, .bytes removed.1)
  | .append _ none _ => (lists, .status 1)
  | .append none (some _) _ => (lists, .status 0)
  | .append (some h1) (some h2) newPtr =>
      match lists[h1]?, lists[h2]? with
      | some list1, some list2 => appendTo lists h1 list1 list2 (h1 = h2) newPtr
      | _, _ => (lists, .done)
  | .copy none _ _ _ => (lists, .handle none)
  | .copy (some h) ptr newPtr fresh =>
      match lists[h]? with
      | none => (lists, .done)
      | some list => (lists ++ [listCopy list ptr newPtr fresh], .handle (some lists.length))
  | .compact h newPtr =>
      match lists[h]? with
      | none => (lists, .done)
      | some list => (lists.set h (listCompact list newPtr), .done)
  | .clear none => (lists, .done)
  | .clear (some h) =>
      match lists[h]? with
      | none => (lists, .done)
      | some list => (lists.set h (listClear list), .done)

/-- What the operations mean for sequences. -/
def describe (seqs : List Sequence) : Operation → List Sequence × Reply
  | .create _ _ elementSize => (seqs ++ [⟨elementSize.toNat, []⟩], .handle (some seqs.length))
  | .insertItems h _ ptrToItems firstItemPosition numItemsToInsert =>
      match seqs[h]? with
      | none => (seqs, .done)
      | some seq =>
          if seq.items.length + 1 < firstItemPosition then (seqs, .status 0)
          else
            let new := chunks seq.itemSize numItemsToInsert.toNat (ptrToItems.getD fun _ => 0)
            (seqs.set h ⟨seq.itemSize, insertItems seq.items new firstItemPosition⟩, .status 1)
  | .removeItems h firstItemPosition numItemsToRemove =>
      match seqs[h]? with
      | none => (seqs, .done)
      | some seq =>
          let index := removeIndex seq.items.length firstItemPosition
          let count := numItemsToRemove.toNat
          (seqs.set h ⟨seq.itemSize, seq.items.take index ++ seq.items.drop (index + count)⟩,
            .bytes ((seq.items.drop index).take count).flatten)
  | .append _ none _ => (seqs, .status 1)
  | .append none (some _) _ => (seqs, .status 0)
  | .append (some h1) (some h2) _ =>
      match seqs[h1]?, seqs[h2]? with
      | some seq1, some seq2 =>
          if seq1.itemSize ≠ seq2.itemSize then (seqs, .status 0)
          else (seqs.set h1 ⟨seq1.itemSize, seq1.items ++ seq2.items⟩, .status 1)
      | _, _ => (seqs, .done)
  | .copy none _ _ _ => (seqs, .handle none)
  | .copy (some h) _ _ _ =>
      match seqs[h]? with
      | none => (seqs, .done)
      | some seq => (seqs ++ [seq], .handle (some seqs.length))
  | .compact _ _ => (seqs, .done)
  | .clear none => (seqs, .done)
  | .clear (some h) =>
      match seqs[h]? with
      | none => (seqs, .done)
      | some seq => (seqs.set h ⟨seq.itemSize, []⟩, .done)

/-- The calls within range, with insertions for which the list has room or makes it, and with
sizes that an int can hold. -/
def Admitted (lists : List ListStruct) : Operation → Prop
  | .create _ _ elementSize => 0 ≤ elementSize ∧ elementSize < 2147483648
  | .insertItems h _ _ firstItemPosition numItemsToInsert =>
      ∀ list ∈ lists[h]?, InsertAdmitted list firstItemPosition numItemsToInsert
  | .removeItems h firstItemPosition numItemsToRemove =>
      ∀ list ∈ lists[h]?, InRange list firstItemPosition numItemsToRemove
  | .append h1 h2 _ =>
      ∀ list1 ∈ h1.bind (lists[·]?), ∀ list2 ∈ h2.bind (lists[·]?),
        list1.itemSize = list2.itemSize →
          list1.numItems + list2.numItems < 2147483648 ∧
            list1.itemSize * (list1.numItems + list2.numItems) < 2147483648
  | .copy _ _ _ _ => True
  | .compact _ _ => True
  | .clear _ => True

instance (lists : List ListStruct) (operation : Operation) :
    Decidable (Admitted lists operation) := by
  cases operation <;> unfold Admitted <;> infer_instance

/-- A list has its items within its room, and its room within its block. -/
def Sound (list : ListStruct) : Prop := ∃ bytes items room, Sized list bytes items room

def sequenceOf (list : ListStruct) : Sequence := ⟨list.itemSize.toNat, content list⟩

/-- The lists after an operation are in order and stand for the sequences that it describes. -/
def Follows (after : List ListStruct × Reply) (described : List Sequence × Reply) : Prop :=
  (∀ list ∈ after.1, Sound list) ∧ after.1.map sequenceOf = described.1 ∧ after.2 = described.2

section Steps

variable {lists : List ListStruct} {list new : ListStruct} {bytes items room : Nat}

theorem sequence_sized (sized : Sized list bytes items room) :
    sequenceOf list = ⟨bytes, content list⟩ := by
  simp [sequenceOf, sized.itemSize]

theorem follows_set (sound : ∀ list ∈ lists, Sound list) (h : Nat)
    (sized : Sized new bytes items room) (reply : Reply) :
    Follows (lists.set h new, reply)
      ((lists.map sequenceOf).set h ⟨bytes, content new⟩, reply) := by
  refine ⟨?_, ?_, rfl⟩
  · intro list member
    rcases List.mem_or_eq_of_mem_set member with old | rfl
    · exact sound list old
    · exact ⟨bytes, items, room, sized⟩
  · rw [List.map_set, sequence_sized sized]

theorem follows_add (sound : ∀ list ∈ lists, Sound list) (sized : Sized new bytes items room) :
    Follows (lists ++ [new], .handle (some lists.length))
      (lists.map sequenceOf ++ [⟨bytes, content new⟩],
        .handle (some (lists.map sequenceOf).length)) := by
  refine ⟨?_, ?_, by rw [List.length_map]⟩
  · intro list member
    rcases List.mem_append.mp member with old | added
    · exact sound list old
    · rw [List.mem_singleton.mp added]
      exact ⟨bytes, items, room, sized⟩
  · rw [List.map_append, List.map_singleton, sequence_sized sized]

theorem follows_same (sound : ∀ list ∈ lists, Sound list) (reply : Reply) :
    Follows (lists, reply) (lists.map sequenceOf, reply) := ⟨sound, rfl, rfl⟩

/-- An operation that leaves the list as it stands. -/
theorem follows_kept (sound : ∀ list ∈ lists, Sound list) {h : Nat}
    (here : lists[h]? = some list) (sized : Sized new bytes items room)
    (same : sequenceOf list = ⟨bytes, content new⟩) (reply : Reply) :
    Follows (lists.set h new, reply) (lists.map sequenceOf, reply) := by
  have kept := follows_set sound h sized reply
  have found : (lists.map sequenceOf)[h]? = some ⟨bytes, content new⟩ := by
    rw [List.getElem?_map, here, Option.map_some, same]
  rcases List.getElem?_eq_some_iff.mp found with ⟨bound, value⟩
  rw [← value, List.set_getElem_self] at kept
  exact kept

theorem insert_follows (sound : ∀ list ∈ lists, Sound list) {h : Nat} (here : lists[h]? = some list)
    (newPtr : Nat) (ptrToItems : Option (Nat → UInt8)) {position count : Int}
    (admitted : InsertAdmitted list position count) :
    Follows (perform lists (.insertItems h newPtr ptrToItems position count))
      (describe (lists.map sequenceOf) (.insertItems h newPtr ptrToItems position count)) := by
  obtain ⟨bytes, items, room, sized⟩ := sound list (List.mem_of_getElem? here)
  have sequence := sequence_sized sized
  simp only [perform, describe, here, List.getElem?_map, Option.map_some, sequence,
    content_length sized]
  rcases admitted with ⟨int, place⟩
  by_cases above : (items : Int) + 1 < position
  · -- bad arguments
    have other : position ≠ wrapInt ((items : Int) + 1) := by
      rw [wrap_int (by omega) (by omega)]
      omega
    have inserted : listInsertItems list newPtr ptrToItems position count = (0, list) := by
      unfold listInsertItems
      rw [sized.numItems, if_pos ⟨other, by omega⟩]
    rw [inserted, if_pos above]
    exact follows_kept sound here sized sequence (.status 0)
  · rw [sized.numItems] at place
    rcases place.resolve_left above with ⟨start, positive, enough⟩
    rcases Int.eq_ofNat_of_zero_le positive with ⟨more, rfl⟩
    rw [← sized.numItems] at enough
    rcases insert_sized sized newPtr ptrToItems start (by omega) int enough with
      ⟨status, ⟨newRoom, grown⟩, new⟩
    rw [if_neg above, status, Int.toNat_natCast, ← new]
    exact follows_set sound h grown (.status 1)

theorem remove_follows (sound : ∀ list ∈ lists, Sound list) {h : Nat} (here : lists[h]? = some list)
    {position count : Int} (range : InRange list position count) :
    Follows (perform lists (.removeItems h position count))
      (describe (lists.map sequenceOf) (.removeItems h position count)) := by
  obtain ⟨bytes, items, room, sized⟩ := sound list (List.mem_of_getElem? here)
  rcases Int.eq_ofNat_of_zero_le range.1 with ⟨fewer, rfl⟩
  rcases remove_sized sized range with ⟨taken, removed, rest⟩
  simp only [perform, describe, here, List.getElem?_map, Option.map_some, sequence_sized sized,
    content_length sized, Int.toNat_natCast, taken, ← rest]
  exact follows_set sound h removed _

/-- A list may be appended to itself: its items are then taken from the grown block. -/
theorem append_moved {list1 list2 : ListStruct} {items1 room1 items2 room2 : Nat}
    (sized1 : Sized list1 bytes items1 room1) (sized2 : Sized list2 bytes items2 room2)
    (same : Bool) (itself : same = true → list1 = list2) (newPtr : Nat)
    (listSizeInt : items1 + items2 < 2147483648) (bytesInt : bytes * (items1 + items2) < 2147483648) :
    let grown := appendRoom list1 newPtr items2
    let moved := appendMove grown (if same then grown else list2) items1 items2
    Sized moved bytes (items1 + items2) (items1 + items2) ∧
      content moved = content list1 ++ content list2 := by
  intro grown moved
  cases same with
  | false =>
      rcases append_sized sized1 newPtr list2 items2 room2 listSizeInt bytesInt with
        ⟨_, _, done⟩
      rw [content_sized sized2]
      exact done (Or.inl sized2)
  | true =>
      have equal := itself rfl
      subst equal
      have count : items2 = items1 := by
        have := sized1.numItems
        rw [sized2.numItems] at this
        omega
      subst count
      rcases append_sized sized1 newPtr grown items2 room2 listSizeInt bytesInt with
        ⟨_, kept, done⟩
      have old : content list1 = (List.range items2).map (itemAt grown) := by
        rw [content_sized sized1]
        apply List.map_congr_left
        intro k member
        exact (kept k (List.mem_range.mp member)).symm
      rcases done (Or.inr ⟨rfl, rfl⟩) with ⟨filled, new⟩
      refine ⟨filled, ?_⟩
      rw [← old] at new
      exact new

theorem append_follows (sound : ∀ list ∈ lists, Sound list) {h1 h2 : Nat}
    {list1 list2 : ListStruct} (here1 : lists[h1]? = some list1) (here2 : lists[h2]? = some list2)
    (newPtr : Nat) (small : list1.itemSize = list2.itemSize →
      list1.numItems + list2.numItems < 2147483648 ∧
        list1.itemSize * (list1.numItems + list2.numItems) < 2147483648) :
    Follows (perform lists (.append (some h1) (some h2) newPtr))
      (describe (lists.map sequenceOf) (.append (some h1) (some h2) newPtr)) := by
  obtain ⟨bytes1, items1, room1, sized1⟩ := sound list1 (List.mem_of_getElem? here1)
  obtain ⟨bytes2, items2, room2, sized2⟩ := sound list2 (List.mem_of_getElem? here2)
  simp only [perform, describe, here1, here2, List.getElem?_map, Option.map_some,
    sequence_sized sized1, sequence_sized sized2, appendTo]
  rw [sized1.itemSize, sized2.itemSize] at small ⊢
  by_cases differ : bytes1 = bytes2
  · subst differ
    rw [sized1.numItems, sized2.numItems] at small ⊢
    rcases small rfl with ⟨listSizeInt, bytesInt⟩
    rw [if_neg (show ¬(bytes1 : Int) ≠ bytes1 by simp), if_neg (show ¬bytes1 ≠ bytes1 by simp)]
    by_cases empty : (items2 : Int) = 0
    · have none : items2 = 0 := by omega
      have rest : content list2 = [] := by
        rw [content_sized sized2, none]
        rfl
      have found : (lists.map sequenceOf)[h1]? = some ⟨bytes1, content list1⟩ := by
        rw [List.getElem?_map, here1, Option.map_some, sequence_sized sized1]
      rcases List.getElem?_eq_some_iff.mp found with ⟨bound, value⟩
      rw [if_pos empty, rest, List.append_nil, ← value, List.set_getElem_self]
      exact follows_same sound (.status 1)
    · have total : bytes1 * (items1 + items2) < 2147483648 := by
        have product : ((bytes1 * (items1 + items2) : Nat) : Int) < 2147483648 := by
          push_cast
          exact bytesInt
        omega
      have itself : decide (h1 = h2) = true → list1 = list2 := by
        intro equal
        rw [of_decide_eq_true equal] at here1
        exact Option.some.inj (here1.symm.trans here2)
      rcases append_moved sized1 sized2 (decide (h1 = h2)) itself newPtr (by omega) total with
        ⟨done, new⟩
      rw [if_neg empty, ← new]
      exact follows_set sound h1 done (.status 1)
  · rw [if_pos (by omega), if_pos differ]
    exact follows_same sound (.status 0)

theorem perform_follows (sound : ∀ list ∈ lists, Sound list) (operation : Operation)
    (admitted : Admitted lists operation) :
    Follows (perform lists operation) (describe (lists.map sequenceOf) operation) := by
  cases operation with
  | create ptr fresh elementSize =>
      rcases Int.eq_ofNat_of_zero_le admitted.1 with ⟨element, rfl⟩
      have small : element < 2147483648 := by
        have := admitted.2
        omega
      exact follows_add sound (create_sized ptr fresh small)
  | insertItems h newPtr ptrToItems position count =>
      cases here : lists[h]? with
      | none =>
          simp only [perform, describe, here, List.getElem?_map, Option.map_none]
          exact follows_same sound .done
      | some list => exact insert_follows sound here newPtr ptrToItems (admitted list here)
  | removeItems h position count =>
      cases here : lists[h]? with
      | none =>
          simp only [perform, describe, here, List.getElem?_map, Option.map_none]
          exact follows_same sound .done
      | some list => exact remove_follows sound here (admitted list here)
  | append h1 h2 newPtr =>
      cases h2 with
      | none => exact follows_same sound (.status 1)
      | some h2 =>
          cases h1 with
          | none => exact follows_same sound (.status 0)
          | some h1 =>
              cases here1 : lists[h1]? with
              | none =>
                  simp only [perform, describe, here1, List.getElem?_map, Option.map_none]
                  exact follows_same sound .done
              | some list1 =>
                  cases here2 : lists[h2]? with
                  | none =>
                      simp only [perform, describe, here1, here2, List.getElem?_map,
                        Option.map_none]
                      exact follows_same sound .done
                  | some list2 =>
                      exact append_follows sound here1 here2 newPtr
                        (admitted list1 here1 list2 here2)
  | copy h ptr newPtr fresh =>
      cases h with
      | none => exact follows_same sound (.handle none)
      | some h =>
          cases here : lists[h]? with
          | none =>
              simp only [perform, describe, here, List.getElem?_map, Option.map_none]
              exact follows_same sound .done
          | some list =>
              obtain ⟨bytes, items, room, sized⟩ := sound list (List.mem_of_getElem? here)
              rcases copy_sized sized ptr newPtr fresh with ⟨copied, same⟩
              simp only [perform, describe, here, List.getElem?_map, Option.map_some,
                sequence_sized sized, ← same]
              exact follows_add sound copied
  | compact h newPtr =>
      cases here : lists[h]? with
      | none =>
          simp only [perform, describe, here]
          exact follows_same sound .done
      | some list =>
          obtain ⟨bytes, items, room, sized⟩ := sound list (List.mem_of_getElem? here)
          rcases compact_sized sized newPtr with ⟨compacted, same⟩
          simp only [perform, describe, here]
          apply follows_kept sound here compacted
          rw [sequence_sized sized, same]
  | clear h =>
      cases h with
      | none => exact follows_same sound .done
      | some h =>
          cases here : lists[h]? with
          | none =>
              simp only [perform, describe, here, List.getElem?_map, Option.map_none]
              exact follows_same sound .done
          | some list =>
              obtain ⟨bytes, items, room, sized⟩ := sound list (List.mem_of_getElem? here)
              have cleared := count_sized sized (Nat.zero_le room)
              have empty : content (listClear list) = [] := content_sized cleared
              simp only [perform, describe, here, List.getElem?_map, Option.map_some,
                sequence_sized sized, ← empty]
              exact follows_set sound h cleared .done

end Steps

/-- The lists, and what the operations have returned so far. -/
abbrev State := List ListStruct × List Reply

def next (state : State) (operation : Operation) : State :=
  let done := perform state.1 operation
  (done.1, state.2 ++ [done.2])

def expect (state : List Sequence × List Reply) (operation : Operation) :
    List Sequence × List Reply :=
  let described := describe state.1 operation
  (described.1, state.2 ++ [described.2])

def AdmittedIn (state : State) (operation : Operation) : Prop := Admitted state.1 operation

instance (state : State) (operation : Operation) : Decidable (AdmittedIn state operation) := by
  unfold AdmittedIn
  infer_instance

/-- After the operations the lists are the sequences that these describe, every reply was the one
described, and no list ever left its block. -/
structure Behaves (state : State) (operations : List Operation) : Prop where
  sequences : state.1.map sequenceOf = (operations.foldl expect ([], [])).1
  replies : state.2 = (operations.foldl expect ([], [])).2
  inside : ∀ list ∈ state.1, list.numItems ≤ list.listSize ∧
    sizeofListStruct + list.listSize * list.itemSize ≤ list.size ∧ list.strayed = false

theorem run_follows {before after : State} {operations : List Operation}
    (run : Run (Guarded AdmittedIn (stepOf next)) before operations after)
    (sound : ∀ list ∈ before.1, Sound list) :
    (∀ list ∈ after.1, Sound list) ∧
      (after.1.map sequenceOf, after.2) =
        operations.foldl expect (before.1.map sequenceOf, before.2) := by
  induction run with
  | refl state => exact ⟨sound, rfl⟩
  | next step _ induction =>
      rcases step with ⟨admitted, rfl⟩
      rcases perform_follows sound _ admitted with ⟨kept, sequences, reply⟩
      rcases induction kept with ⟨last, done⟩
      refine ⟨last, done.trans ?_⟩
      rw [List.foldl_cons]
      congr 1
      simp only [next, expect, sequences, reply]

theorem sound_inside {list : ListStruct} (sound : Sound list) :
    list.numItems ≤ list.listSize ∧
      sizeofListStruct + list.listSize * list.itemSize ≤ list.size ∧ list.strayed = false := by
  obtain ⟨bytes, items, room, sized⟩ := sound
  refine ⟨?_, ?_, sized.inside⟩
  · rw [sized.numItems, sized.listSize]
    exact Int.ofNat_le.mpr sized.fits
  · rw [sized.listSize, sized.itemSize, sized.covers, mul_comm (room : Int)]
    unfold sizeofListStruct
    push_cast
    exact Int.le_refl _

/-- A run of admitted operations leaves every list the sequence that it stands for. -/
theorem run_behaves {after : State} {operations : List Operation}
    (run : Run (Guarded AdmittedIn (stepOf next)) ([], []) operations after) :
    Behaves after operations := by
  have none : ∀ list ∈ (([], []) : State).1, Sound list := by
    intro list member
    cases member
  rcases run_follows run none with ⟨sound, same⟩
  refine ⟨congrArg Prod.fst same, congrArg Prod.snd same, ?_⟩
  intro list member
  exact sound_inside (sound list member)

/-- Two lists of words: one is filled, thinned out and appended to the other. -/
def ordinaryCalls : List Operation :=
  [.create 0x100 (fun _ => 0) 4, .insertItems 0 0x200 (some fun i => i.toUInt8) LIST_END 3,
    .insertItems 0 0x200 none LIST_START 2, .removeItems 0 2 2, .copy (some 0) 0x300 0x300
    fun _ => 0, .append (some 1) (some 0) 0x400, .compact 0 0x200, .clear (some 0)]

theorem ordinary_behaves :
    Behaves (ordinaryCalls.foldl next ([], [])) ordinaryCalls :=
  run_behaves (run_passes AdmittedIn next (by decide +kernel))

/-- The first item makes room for five, and ten more are taken for a list that is not full. -/
def overfillingCalls : List Operation :=
  [.create 0x100 (fun _ => 0) 4, .insertItems 0 0x200 none LIST_END 1,
    .insertItems 0 0x200 none LIST_END 10]

theorem overfilled : ¬Behaves (overfillingCalls.foldl next ([], [])) overfillingCalls := by
  intro behaves
  have outside : ¬∀ list ∈ (overfillingCalls.foldl next ([], [])).1,
      list.numItems ≤ list.listSize := by decide +kernel
  exact outside fun list member => (behaves.inside list member).1

end UBoot.Common.ListRuns
