import Mathlib.Tactic

/-!
The list package. A list is one block that starts with a header and goes on
with the items. The header knows how many items the block has room for, and the
block grows when an insertion finds it full. Sizes and positions are ints.
-/

namespace UBoot.Common.Lists

def LIST_START : Int := -1
def LIST_END : Int := 0

def kDefaultAllocationPercentIncrease : Int := 10
def kDefaultAllocationminNumItemsIncrease : Int := 4

/-- The header: six ints, and the first byte of the items with its padding. -/
def sizeofListStruct : Int := 28

/-- The items start before the padding. -/
def offsetofItemList : Int := 24

/-- What an int holds of a result. -/
def wrapInt (value : Int) : Int := value.bmod (2 ^ 32)

/-- What an unsigned int holds of a result. -/
def wrapSize (value : Int) : Nat := (value % 2 ^ 32).toNat

/-- A list with the handle that has its block. The bytes of the items are counted from their first
one, and `strayed` records that a write left the block or reached into the header. -/
structure ListStruct where
  ptr : Nat
  size : Nat
  percentIncrease : Int
  minNumItemsIncrease : Int
  listSize : Int
  itemSize : Int
  numItems : Int
  itemList : Int → UInt8
  strayed : Bool

def itemPtr (list : ListStruct) (item : Int) : Int := wrapInt (list.itemSize * item)

/-- memcpy, memmove and memset to the items: `source` gives the bytes. -/
def store (list : ListStruct) (start : Int) (count : Nat) (source : Nat → UInt8) : ListStruct :=
  { list with
    itemList := fun place =>
      if start ≤ place ∧ place < start + count then source (place - start).toNat
      else list.itemList place
    strayed := list.strayed ||
      decide (count ≠ 0 ∧ ¬(0 ≤ start ∧ offsetofItemList + start + count ≤ list.size)) }

/-- SetHandleSize, when realloc succeeds and moves the block to `newPtr`. -/
def setHandleSize (list : ListStruct) (newPtr newSize : Nat) : ListStruct :=
  if list.size = newSize then list
  else
    { list with
      ptr := newPtr
      size := newSize
      itemList := fun place =>
        if (list.size : Int) ≤ offsetofItemList + place ∧ offsetofItemList + place < newSize then 0
        else list.itemList place }

def numItemsPerAlloc (list : ListStruct) : Int :=
  max ((wrapInt (list.listSize * wrapInt (list.percentIncrease + 100))).tdiv 100)
    list.minNumItemsIncrease

def expandListSpace (list : ListStruct) (newPtr : Nat) (numNewItems : Int) : ListStruct :=
  let numNewItems :=
    if numNewItems = 0 then numItemsPerAlloc list
    else if numNewItems < 0 then wrapInt (wrapInt (-numNewItems) + numItemsPerAlloc list)
    else numNewItems
  let listSize := wrapInt (list.listSize + numNewItems)
  let grown := setHandleSize list newPtr
    (wrapSize (sizeofListStruct + wrapInt (listSize * list.itemSize)))
  { grown with listSize := listSize }

def listCompact (list : ListStruct) (newPtr : Nat) : ListStruct :=
  let compact := setHandleSize list newPtr
    (wrapSize (sizeofListStruct + wrapInt (list.numItems * list.itemSize)))
  { compact with listSize := list.numItems }

/-- ListCreate. The block comes from malloc and holds what `fresh` says. -/
def listCreate (ptr : Nat) (fresh : Int → UInt8) (elementSize : Int) : ListStruct where
  ptr := ptr
  size := 28
  percentIncrease := kDefaultAllocationPercentIncrease
  minNumItemsIncrease := kDefaultAllocationminNumItemsIncrease
  listSize := 0
  itemSize := elementSize
  numItems := 0
  itemList := fresh
  strayed := false

def listClear (list : ListStruct) : ListStruct := { list with numItems := 0 }

/-- ListCopy before its items: a new list, as large as necessary. -/
def copyRoom (originalList : ListStruct) (ptr newPtr : Nat) (fresh : Int → UInt8) : ListStruct :=
  let tempList := listCreate ptr fresh originalList.itemSize
  let tempList := setHandleSize tempList newPtr
    (wrapSize (sizeofListStruct + wrapInt (originalList.numItems * tempList.itemSize)))
  { tempList with
    numItems := originalList.numItems
    listSize := originalList.numItems
    itemSize := originalList.itemSize
    percentIncrease := originalList.percentIncrease
    minNumItemsIncrease := originalList.minNumItemsIncrease }

def listCopy (originalList : ListStruct) (ptr newPtr : Nat) (fresh : Int → UInt8) : ListStruct :=
  let tempList := copyRoom originalList ptr newPtr fresh
  store tempList (itemPtr tempList 0)
    (wrapSize (wrapInt (originalList.numItems * tempList.itemSize)))
    fun i => originalList.itemList (itemPtr originalList 0 + i)

/-- ListAppend behind its checks: room for the items of the second list. -/
def appendRoom (list1 : ListStruct) (newPtr : Nat) (numItemsL2 : Int) : ListStruct :=
  let numItems := wrapInt (list1.numItems + numItemsL2)
  let grown := setHandleSize list1 newPtr
    (wrapSize (sizeofListStruct + wrapInt (numItems * list1.itemSize)))
  { grown with numItems := numItems, listSize := numItems }

/-- The move of ListAppend. The second list may be the first one with its new room. -/
def appendMove (list1 list2 : ListStruct) (numItemsL1 numItemsL2 : Int) : ListStruct :=
  store list1 (itemPtr list1 numItemsL1) (wrapSize (wrapInt (numItemsL2 * list2.itemSize)))
    fun i => list2.itemList (itemPtr list2 0 + i)

/-- ListInsertItems. A null pointer inserts zeros. -/
def listInsertItems (list : ListStruct) (newPtr : Nat) (ptrToItems : Option (Nat → UInt8))
    (firstItemPosition numItemsToInsert : Int) : Int × ListStruct :=
  let numItems := list.numItems
  if firstItemPosition ≠ wrapInt (numItems + 1) ∧ firstItemPosition > numItems then (0, list)
  else
    let firstItemPosition :=
      if firstItemPosition = wrapInt (numItems + 1) then LIST_END else firstItemPosition
    let list := if list.numItems ≥ list.listSize
      then expandListSpace list newPtr (wrapInt (-numItemsToInsert)) else list
    let firstItemPosition :=
      if firstItemPosition = LIST_START then
        -- special case for empty list
        if numItems = 0 then LIST_END else 1
      else firstItemPosition
    let bytes := wrapSize (wrapInt (list.itemSize * numItemsToInsert))
    let source := ptrToItems.getD fun _ => 0
    let filled :=
      if firstItemPosition = LIST_END then
        -- add at the end of the list
        store list (itemPtr list numItems) bytes source
      else
        -- move part of list up to make room for new item
        let moved := store list (itemPtr list (wrapInt (firstItemPosition - 1 + numItemsToInsert)))
          (wrapSize (wrapInt (wrapInt (numItems + 1 - firstItemPosition) * list.itemSize)))
          fun i => list.itemList (itemPtr list (firstItemPosition - 1) + i)
        store moved (itemPtr moved (firstItemPosition - 1)) bytes source
    (1, { filled with numItems := wrapInt (numItems + numItemsToInsert) })

def listInsertItem (list : ListStruct) (newPtr : Nat) (ptrToItem : Option (Nat → UInt8))
    (itemPosition : Int) : Int × ListStruct :=
  listInsertItems list newPtr ptrToItem itemPosition 1

/-- ListRemoveItems, with the bytes that it copies to a destination. -/
def listRemoveItems (list : ListStruct) (firstItemPosition numItemsToRemove : Int) :
    List UInt8 × ListStruct :=
  let firstItemPosition :=
    if firstItemPosition = LIST_START then 1
    else if firstItemPosition = LIST_END then list.numItems
    else firstItemPosition
  let itemsDestination :=
    (List.range (wrapSize (wrapInt (list.itemSize * numItemsToRemove)))).map fun i : Nat =>
      list.itemList (itemPtr list (firstItemPosition - 1) + i)
  let firstItemAfterChunk := wrapInt (firstItemPosition + numItemsToRemove)
  let numToMove := wrapInt (list.numItems - (firstItemAfterChunk - 1))
  -- move part of list down to cover hole left by removed item
  let moved := if numToMove > 0 then
      store list (itemPtr list (firstItemPosition - 1))
        (wrapSize (wrapInt (list.itemSize * numToMove)))
        fun i => list.itemList (itemPtr list (firstItemAfterChunk - 1) + i)
    else list
  (itemsDestination, { moved with numItems := wrapInt (list.numItems - numItemsToRemove) })

def listRemoveItem (list : ListStruct) (itemPosition : Int) : List UInt8 × ListStruct :=
  listRemoveItems list itemPosition 1

/-! ### The items of a list -/

theorem wrap_int {value : Int} (low : -2147483648 ≤ value) (high : value < 2147483648) :
    wrapInt value = value := by
  unfold wrapInt
  rw [Int.bmod_def]
  split <;> omega

theorem wrap_size {value : Nat} (fits : value < 4294967296) : wrapSize value = value := by
  unfold wrapSize
  omega

def itemAt (list : ListStruct) (k : Nat) : List UInt8 :=
  (List.range list.itemSize.toNat).map fun i : Nat => list.itemList (list.itemSize * k + i)

/-- The sequence that a list stands for. -/
def content (list : ListStruct) : List (List UInt8) :=
  (List.range list.numItems.toNat).map (itemAt list)

/-- `count` items of `itemSize` bytes, one behind the other. -/
def chunk (itemSize : Nat) (source : Nat → UInt8) (k : Nat) : List UInt8 :=
  (List.range itemSize).map fun i => source (itemSize * k + i)

def chunks (itemSize count : Nat) (source : Nat → UInt8) : List (List UInt8) :=
  (List.range count).map (chunk itemSize source)

/-- A list in order: `items` items of `bytes` bytes, in a block with room for `room`. -/
structure Sized (list : ListStruct) (bytes items room : Nat) : Prop where
  itemSize : list.itemSize = bytes
  numItems : list.numItems = items
  listSize : list.listSize = room
  fits : items ≤ room
  itemSizeInt : bytes < 2147483648
  listSizeInt : room < 2147483648
  bytesInt : bytes * room < 2147483648
  covers : list.size = 28 + bytes * room
  policy : 0 ≤ list.minNumItemsIncrease
  inside : list.strayed = false

theorem within_iff {bytes i : Nat} (small : i < bytes) (j count k : Nat) :
    (bytes * j ≤ bytes * k + i ∧ bytes * k + i < bytes * j + bytes * count) ↔
      (j ≤ k ∧ k < j + count) := by
  rw [← Nat.mul_add]
  constructor
  · rintro ⟨above, below⟩
    constructor
    · by_contra less
      have := Nat.mul_le_mul_left bytes (show k + 1 ≤ j by omega)
      rw [Nat.mul_succ] at this
      omega
    · by_contra more
      have := Nat.mul_le_mul_left bytes (show j + count ≤ k by omega)
      omega
  · rintro ⟨above, below⟩
    have low := Nat.mul_le_mul_left bytes above
    have high := Nat.mul_le_mul_left bytes (show k + 1 ≤ j + count by omega)
    rw [Nat.mul_succ] at high
    omega

section Items

variable {list : ListStruct} {bytes items room : Nat}

theorem content_sized (sized : Sized list bytes items room) :
    content list = (List.range items).map (itemAt list) := by
  simp [content, sized.numItems]

theorem item_ptr (sized : Sized list bytes items room) {j : Nat} (bound : j ≤ room) :
    itemPtr list j = (bytes * j : Nat) := by
  have product := Nat.mul_le_mul_left bytes bound
  have small := sized.bytesInt
  unfold itemPtr
  rw [sized.itemSize, ← Nat.cast_mul]
  exact wrap_int (by omega) (by omega)

theorem item_bytes (sized : Sized list bytes items room) {count : Nat} (bound : count ≤ room) :
    wrapSize (wrapInt ((bytes : Int) * count)) = bytes * count := by
  have product := Nat.mul_le_mul_left bytes bound
  have small := sized.bytesInt
  rw [← Nat.cast_mul, wrap_int (by omega) (by omega), wrap_size (by omega)]

theorem store_sized (sized : Sized list bytes items room) {j count : Nat}
    (bound : j + count ≤ room) (source : Nat → UInt8) :
    Sized (store list (bytes * j : Nat) (bytes * count) source) bytes items room := by
  have product := Nat.mul_le_mul_left bytes bound
  rw [Nat.mul_add] at product
  have covers := sized.covers
  refine ⟨sized.itemSize, sized.numItems, sized.listSize, sized.fits, sized.itemSizeInt,
    sized.listSizeInt, sized.bytesInt, covers, sized.policy, ?_⟩
  unfold store offsetofItemList
  simp only [sized.inside, Bool.false_or, decide_eq_false_iff_not]
  rintro ⟨_, outside⟩
  exact outside ⟨by omega, by omega⟩

theorem store_item (sized : Sized list bytes items room) (j count k : Nat)
    (source : Nat → UInt8) :
    itemAt (store list (bytes * j : Nat) (bytes * count) source) k =
      if j ≤ k ∧ k < j + count then chunk bytes source (k - j) else itemAt list k := by
  have size : list.itemSize = bytes := sized.itemSize
  have covered : ∀ i < bytes, (((bytes * j : Nat) : Int) ≤ (bytes : Int) * k + i ∧
      (bytes : Int) * k + i < (bytes * j : Nat) + (bytes * count : Nat)) ↔
      (j ≤ k ∧ k < j + count) := by
    intro i small
    rw [← within_iff small j count k]
    omega
  unfold itemAt store chunk
  simp only [size, Int.toNat_natCast]
  by_cases inside : j ≤ k ∧ k < j + count
  · rw [if_pos inside]
    apply List.map_congr_left
    intro i member
    have small : i < bytes := List.mem_range.mp member
    rw [if_pos ((covered i small).mpr inside)]
    have place : bytes * k = bytes * j + bytes * (k - j) := by
      rw [← Nat.mul_add]
      congr 1
      omega
    congr 1
    omega
  · rw [if_neg inside]
    apply List.map_congr_left
    intro i member
    rw [if_neg (fun hit => inside ((covered i (List.mem_range.mp member)).mp hit))]

/-- A block of another size keeps the items that have room in it. -/
theorem resize_sized (sized : Sized list bytes items room) (newPtr : Nat) {newRoom : Nat}
    (fits : items ≤ newRoom) (listSizeInt : newRoom < 2147483648)
    (bytesInt : bytes * newRoom < 2147483648) :
    Sized { setHandleSize list newPtr (28 + bytes * newRoom) with listSize := newRoom }
      bytes items newRoom := by
  unfold setHandleSize
  split
  · rename_i same
    exact ⟨sized.itemSize, sized.numItems, rfl, fits, sized.itemSizeInt, listSizeInt, bytesInt,
      same, sized.policy, sized.inside⟩
  · exact ⟨sized.itemSize, sized.numItems, rfl, fits, sized.itemSizeInt, listSizeInt, bytesInt,
      rfl, sized.policy, sized.inside⟩

theorem resize_item (sized : Sized list bytes items room) (newPtr newSize : Nat) {k : Nat}
    (bound : k < room) : itemAt (setHandleSize list newPtr newSize) k = itemAt list k := by
  have product := Nat.mul_le_mul_left bytes (show k + 1 ≤ room from bound)
  rw [Nat.mul_succ] at product
  have covers := sized.covers
  unfold setHandleSize
  split
  · rfl
  · unfold itemAt offsetofItemList
    simp only [sized.itemSize, Int.toNat_natCast]
    apply List.map_congr_left
    intro i member
    have small : i < bytes := List.mem_range.mp member
    rw [if_neg (by omega)]

theorem chunk_items (sized : Sized list bytes items room) (p k : Nat) :
    chunk bytes (fun i => list.itemList ((bytes * p : Nat) + i)) k = itemAt list (p + k) := by
  unfold chunk itemAt
  simp only [sized.itemSize, Int.toNat_natCast]
  apply List.map_congr_left
  intro i _
  congr 1
  push_cast
  ring

theorem flatten_chunks (bytes count : Nat) (source : Nat → UInt8) :
    (chunks bytes count source).flatten = (List.range (bytes * count)).map source := by
  unfold chunks
  induction count with
  | zero => rfl
  | succ count induction =>
      rw [List.range_succ, List.map_append, List.flatten_append, induction, Nat.mul_succ,
        List.range_add, List.map_append, List.map_map]
      simp [chunk, Function.comp_def]

theorem count_sized (sized : Sized list bytes items room) {count : Nat} (fits : count ≤ room) :
    Sized { list with numItems := (count : Int) } bytes count room :=
  ⟨sized.itemSize, rfl, sized.listSize, fits, sized.itemSizeInt, sized.listSizeInt,
    sized.bytesInt, sized.covers, sized.policy, sized.inside⟩

theorem content_parts (sized : Sized list bytes items room) {p : Nat} (bound : p ≤ items) :
    (content list).take p = (List.range p).map (itemAt list) ∧
      (content list).drop p = (List.range (items - p)).map fun k => itemAt list (p + k) := by
  have parts : content list = (List.range p).map (itemAt list) ++
      (List.range (items - p)).map fun k => itemAt list (p + k) := by
    rw [content_sized sized]
    conv_lhs => rw [← Nat.add_sub_cancel' bound]
    rw [List.range_add, List.map_append, List.map_map]
    rfl
  have length : ((List.range p).map (itemAt list)).length = p := by simp
  rw [parts]
  exact ⟨List.take_left' length, List.drop_left' length⟩

/-- New items behind the last one. -/
theorem fill_end (sized : Sized list bytes items room) {count : Nat} (fits : items + count ≤ room)
    (source : Nat → UInt8) :
    content { store list (bytes * items : Nat) (bytes * count) source with
      numItems := ((items + count : Nat) : Int) } = content list ++ chunks bytes count source := by
  have filled := count_sized (store_sized sized fits source) fits
  rw [content_sized filled, content_sized sized, List.range_add, List.map_append, List.map_map]
  congr 1
  · apply List.map_congr_left
    intro k member
    have bound : k < items := List.mem_range.mp member
    exact (store_item sized items count k source).trans (if_neg (by omega))
  · apply List.map_congr_left
    intro k member
    have bound : k < count := List.mem_range.mp member
    refine (store_item sized items count (items + k) source).trans ?_
    rw [if_pos (by omega), Nat.add_sub_cancel_left]

/-- New items in front of item `p`, which moves up with those behind it. -/
theorem fill_middle (sized : Sized list bytes items room) {p count : Nat} (place : p ≤ items)
    (fits : items + count ≤ room) (source : Nat → UInt8) :
    let moved := store list (bytes * (p + count) : Nat) (bytes * (items - p))
      fun i => list.itemList ((bytes * p : Nat) + i)
    Sized moved bytes items room ∧
      content { store moved (bytes * p : Nat) (bytes * count) source with
        numItems := ((items + count : Nat) : Int) } =
        (content list).take p ++ chunks bytes count source ++ (content list).drop p := by
  intro moved
  have up : Sized moved bytes items room := store_sized sized (by omega) _
  have filled := count_sized (store_sized up (show p + count ≤ room by omega) source) fits
  refine ⟨up, ?_⟩
  have item : ∀ k, itemAt { store moved (bytes * p : Nat) (bytes * count) source with
      numItems := ((items + count : Nat) : Int) } k =
      if p ≤ k ∧ k < p + count then chunk bytes source (k - p)
      else if p + count ≤ k ∧ k < p + count + (items - p) then itemAt list (p + (k - (p + count)))
      else itemAt list k := by
    intro k
    refine (store_item up p count k source).trans ?_
    split
    · rfl
    · rw [store_item sized (p + count) (items - p) k, chunk_items sized]
  have split : items + count = p + count + (items - p) := by omega
  rw [content_sized filled, split, List.range_add, List.range_add, List.map_append,
    List.map_append, List.map_map, List.map_map, (content_parts sized place).1,
    (content_parts sized place).2]
  rw [← split]
  congr 1
  · congr 1
    · apply List.map_congr_left
      intro k member
      have bound : k < p := List.mem_range.mp member
      rw [item k, if_neg (by omega), if_neg (by omega)]
    · apply List.map_congr_left
      intro k member
      have bound : k < count := List.mem_range.mp member
      rw [Function.comp_apply, item (p + k), if_pos (by omega), Nat.add_sub_cancel_left]
  · apply List.map_congr_left
    intro k member
    have bound : k < items - p := List.mem_range.mp member
    rw [Function.comp_apply, item (p + count + k), if_neg (by omega), if_pos (by omega),
      Nat.add_sub_cancel_left]

/-- The items behind a removed chunk move down. -/
theorem close_gap (sized : Sized list bytes items room) {p count : Nat}
    (place : p + count ≤ items) :
    content { store list (bytes * p : Nat) (bytes * (items - (p + count)))
        (fun i => list.itemList ((bytes * (p + count) : Nat) + i)) with
      numItems := ((items - count : Nat) : Int) } =
        (content list).take p ++ (content list).drop (p + count) := by
  have fits := sized.fits
  have moved := count_sized (store_sized sized (show p + (items - (p + count)) ≤ room by omega)
    fun i => list.itemList ((bytes * (p + count) : Nat) + i)) (show items - count ≤ room by omega)
  have item : ∀ k, itemAt { store list (bytes * p : Nat) (bytes * (items - (p + count)))
        (fun i => list.itemList ((bytes * (p + count) : Nat) + i)) with
      numItems := ((items - count : Nat) : Int) } k =
      if p ≤ k ∧ k < p + (items - (p + count)) then itemAt list (p + count + (k - p))
      else itemAt list k := by
    intro k
    refine (store_item sized p (items - (p + count)) k
      fun i => list.itemList ((bytes * (p + count) : Nat) + i)).trans ?_
    rw [chunk_items sized]
  have split : items - count = p + (items - (p + count)) := by omega
  rw [content_sized moved, split, List.range_add, List.map_append, List.map_map,
    (content_parts sized (show p ≤ items by omega)).1, (content_parts sized place).2]
  rw [← split]
  congr 1
  · apply List.map_congr_left
    intro k member
    have bound : k < p := List.mem_range.mp member
    rw [item k, if_neg (by omega)]
  · apply List.map_congr_left
    intro k member
    have bound : k < items - (p + count) := List.mem_range.mp member
    rw [Function.comp_apply, item (p + k), if_pos (by omega), Nat.add_sub_cancel_left]

end Items

end UBoot.Common.Lists
