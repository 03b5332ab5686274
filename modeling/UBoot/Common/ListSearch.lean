import UBoot.Common.ListRuns
import UBoot.Library.Compare

/-!
BinSearch and ListBinSearch of common/lists.c. A comparison function sees the bytes of two items;
without one the bytes themselves are compared. An address has 32 bits.
-/

namespace UBoot.Common.ListSearch

open Library.Compare Lists ListRuns

abbrev CompareFunction := List UInt8 → List UInt8 → Int

def memcmp : List UInt8 → List UInt8 → Int
  | a :: as, b :: bs => if a ≠ b then (a.toNat : Int) - b.toNat else memcmp as bs
  | _, _ => 0

/-- ListMemBlockCmp where there is no function; both items have all their bytes. -/
def compared (compareFunction : Option CompareFunction) (a b : List UInt8) : Int :=
  match compareFunction with
  | some compare => compare a b
  | none => memcmp a b

/-- The bytes at `arrayItemPtr`. -/
def arrayItem (memory : BitVec 32 → UInt8) (array : BitVec 32) (elementSize mid : Int) : List UInt8 :=
  (List.range elementSize.toNat).map fun i =>
    memory (array + BitVec.ofInt 32 (mid * elementSize) + BitVec.ofNat 32 i)

/-- The loop of BinSearch; `side` compares the item with an element. -/
def binSearchLoop (side : Int → Int) : (fuel : Nat) → (low high mid cmp : Int) → Option Int
  | 0, _, _, _, _ => none
  | fuel + 1, low, high, mid, cmp =>
      if low ≤ high then
        let mid := wrapInt (low + high) / 2
        let cmp := side mid
        if cmp = 0 then some mid
        else if cmp < 0 then binSearchLoop side fuel low (mid - 1) mid cmp
        else binSearchLoop side fuel (mid + 1) high mid cmp
      else
        let mid := if cmp > 0 then mid + 1 else mid
        some (-mid - 1)

def binSearch (memory : BitVec 32 → UInt8) (array : BitVec 32) (numElements elementSize : Int)
    (item : List UInt8) (compareFunction : Option CompareFunction) : Option Int :=
  binSearchLoop (fun mid => compared compareFunction item (arrayItem memory array elementSize mid))
    (numElements.toNat + 1) 0 (numElements - 1) 0 (-1)

/-- The bytes of the items as memory. -/
def itemMemory (list : ListStruct) (address : BitVec 32) : UInt8 := list.itemList address.toInt

def listBinSearch (list : ListStruct) (item : List UInt8) (compareFunction : Option CompareFunction) :
    Option Int :=
  (binSearch (itemMemory list) (BitVec.ofInt 32 (itemPtr list 0)) list.numItems list.itemSize item
    compareFunction).map fun index => if index ≥ 0 then index + 1 else 0

/-! ### Without a function -/

section Blocks
variable {size : Nat}

theorem memcmp_self (a : List UInt8) : memcmp a a = 0 := by
  induction a with
  | nil => rfl
  | cons c rest ih => simp [memcmp, ih]

theorem memcmp_swap (a b : List UInt8) : memcmp a b = -memcmp b a := by
  induction a generalizing b with
  | nil => cases b <;> rfl
  | cons c rest ih =>
      cases b with
      | nil => rfl
      | cons d more =>
          by_cases same : c = d
          · simp [memcmp, same, ih more]
          · simp [memcmp, same, Ne.symm same]

theorem memcmp_trans {a b c : List UInt8} (first : a.length = b.length) (second : b.length = c.length)
    (below : memcmp a b ≤ 0) (above : memcmp b c ≤ 0) : memcmp a c ≤ 0 := by
  induction a generalizing b c with
  | nil =>
      cases c <;> exact le_refl 0
  | cons x a ih =>
      match b, c, first, second with
      | y :: b, z :: c, first, second =>
          have lengths : a.length = b.length ∧ b.length = c.length :=
            ⟨Nat.succ.inj first, Nat.succ.inj second⟩
          simp only [memcmp, ne_eq, ite_not] at below above ⊢
          by_cases low : x = y
          · subst low
            rw [if_pos rfl] at below
            by_cases high : x = z
            · subst high
              rw [if_pos rfl] at above ⊢
              exact ih lengths.1 lengths.2 below above
            · rw [if_neg high] at above ⊢
              exact above
          · have apart : x.toNat ≠ y.toNat := fun same => low (UInt8.toNat_inj.mp same)
            rw [if_neg low] at below
            have order : z.toNat ≥ y.toNat := by
              by_cases high : y = z
              · rw [high]
              · rw [if_neg high] at above
                omega
            have other : x ≠ z := by
              rintro rfl
              omega
            rw [if_neg other]
            omega

theorem memcmp_zero {a b : List UInt8} (same : a.length = b.length) (equal : memcmp a b = 0) : a = b := by
  induction a generalizing b with
  | nil => exact (List.eq_nil_of_length_eq_zero same.symm).symm
  | cons x a ih =>
      cases b with
      | nil => cases same
      | cons y b =>
          rw [memcmp] at equal
          by_cases head : x = y
          · rw [if_neg (not_not.mpr head)] at equal
            rw [head, ih (Nat.succ.inj same) equal]
          · rw [if_pos head] at equal
            exact absurd (UInt8.toNat_inj.mp (by omega)) head

/-- memcmp orders the blocks of a size. -/
theorem memcmp_orders (size : Nat) : Orders (fun a => a.length = size) (compared none) where
  swap a b _ _ := by
    have swap := memcmp_swap a b
    simp only [compared]
    omega
  trans _ _ _ first second third :=
    memcmp_trans (first.trans second.symm) (second.trans third.symm)

theorem memcmp_tests (size : Nat) : TestsEqual (fun a => a.length = size) (compared none) where
  refl a _ := memcmp_self a
  symm a b _ _ equal := by
    have swap := memcmp_swap a b
    simp only [compared] at equal ⊢
    omega
  trans a b c first second _ below above := by
    rw [memcmp_zero (first.trans second.symm) below]
    exact above

end Blocks

/-! ### The binary search -/

section Search
variable {side : Int → Int} {count : Int}

/-- The bounds of the search, and what is behind them. The last midpoint is the place between the
bounds as soon as these have met. -/
structure Between (side : Int → Int) (count low high mid cmp : Int) : Prop where
  low_bound : 0 ≤ low
  order : low ≤ high + 1
  high_bound : high < count
  below : ∀ k, 0 ≤ k → k < low → 0 < side k
  above : ∀ k, high < k → k < count → side k < 0
  last : cmp < 0 ∧ (mid = high + 1 ∨ mid = low) ∨ 0 < cmp ∧ mid + 1 = low

/-- The place of an equal element, or the one between the smaller and the greater ones. -/
def Placed (side : Int → Int) (count result : Int) : Prop :=
  (0 ≤ result ∧ result < count ∧ side result = 0) ∨
    ∃ i, 0 ≤ i ∧ i ≤ count ∧ result = -i - 1 ∧ (∀ k, 0 ≤ k → k < i → 0 < side k) ∧
      ∀ k, i ≤ k → k < count → side k < 0

theorem search_placed (few : count < 2 ^ 30)
    (earlier : ∀ j k, 0 ≤ j → j ≤ k → k < count → 0 < side k → 0 < side j)
    (later : ∀ j k, 0 ≤ j → j ≤ k → k < count → side j < 0 → side k < 0) {fuel : Nat}
    {low high mid cmp : Int} (between : Between side count low high mid cmp)
    (enough : high + 1 - low < fuel) :
    ∃ result, binSearchLoop side fuel low high mid cmp = some result ∧ Placed side count result := by
  induction fuel generalizing low high mid cmp with
  | zero =>
      have order := between.order
      omega
  | succ fuel ih =>
      obtain ⟨low_bound, order, high_bound, below, above, last⟩ := between
      rw [binSearchLoop]
      by_cases open_ : low ≤ high
      · have sum : wrapInt (low + high) = low + high := wrap_int (by omega) (by omega)
        rw [if_pos open_]
        dsimp only
        rw [sum]
        generalize middle : (low + high) / 2 = m
        by_cases equal : side m = 0
        · rw [if_pos equal]
          exact ⟨m, rfl, .inl ⟨by omega, by omega, equal⟩⟩
        · rw [if_neg equal]
          by_cases less : side m < 0
          · rw [if_pos less]
            apply ih _ (by omega)
            refine ⟨low_bound, by omega, by omega, below, ?_, .inl ⟨less, .inl (by omega)⟩⟩
            intro k behind bound
            exact later m k (by omega) (by omega) bound less
          · rw [if_neg less]
            apply ih _ (by omega)
            refine ⟨by omega, by omega, high_bound, ?_, above, .inr ⟨by omega, rfl⟩⟩
            intro k bound before
            exact earlier k m bound (by omega) (by omega) (by omega)
      · rw [if_neg open_]
        refine ⟨_, rfl, .inr ⟨low, low_bound, by omega, ?_, below, ?_⟩⟩
        · split <;> omega
        · intro k behind bound
          exact above k (by omega) bound

theorem start_between (positive : 0 ≤ count) : Between side count 0 (count - 1) 0 (-1) := by
  refine ⟨le_refl 0, by omega, by omega, ?_, ?_, .inl ⟨by decide, .inr rfl⟩⟩
  · intro k low high
    omega
  · intro k low high
    omega

end Search

/-- The index of an equal element if there is one; otherwise `-i - 1` for the place `i` where the item keeps
the elements sorted. -/
def Located (compare : CompareFunction) (elements : List (List UInt8)) (item : List UInt8) (result : Int) :
    Prop :=
  (∃ k, ∃ inside : k < elements.length, result = k ∧ compare item elements[k] = 0) ∨
    (∀ a ∈ elements, compare item a ≠ 0) ∧ ∃ i ≤ elements.length, result = -(i : Int) - 1 ∧
      Sorted compare (elements.take i ++ item :: elements.drop i)

section Arrays
variable {domain : List UInt8 → Prop} {compare : CompareFunction} {elements : List (List UInt8)}
  {item : List UInt8} {side : Int → Int}

theorem placed_located (orders : Orders domain compare) (inside : ∀ a ∈ elements, domain a)
    (sorted : Sorted compare elements) (one : domain item)
    (same : ∀ k (bound : k < elements.length), side k = compare item elements[k]) {result : Int}
    (placed : Placed side elements.length result) : Located compare elements item result := by
  rcases placed with ⟨low, high, equal⟩ | ⟨i, low, high, place, below, above⟩
  · refine .inl ⟨result.toNat, by omega, by omega, ?_⟩
    rw [← same, Int.toNat_of_nonneg low]
    exact equal
  · obtain ⟨p, rfl⟩ := Int.eq_ofNat_of_zero_le low
    have front : ∀ a ∈ elements.take p, 0 < compare item a := by
      intro a member
      obtain ⟨k, bound, rfl⟩ := List.getElem_of_mem member
      rw [List.length_take] at bound
      rw [List.getElem_take, ← same]
      exact below k (by omega) (by omega)
    have behind : ∀ a ∈ elements.drop p, compare item a < 0 := by
      intro a member
      obtain ⟨k, bound, rfl⟩ := List.getElem_of_mem member
      rw [List.length_drop] at bound
      rw [List.getElem_drop, ← same]
      exact above _ (by omega) (by omega)
    refine .inr ⟨?_, p, by omega, place, insert_sorted orders inside sorted one p front behind⟩
    intro a member
    rw [← List.take_append_drop p elements] at member
    rcases List.mem_append.mp member with first | second
    · exact (front a first).ne'
    · exact (behind a second).ne

theorem search_located (orders : Orders domain compare) (inside : ∀ a ∈ elements, domain a)
    (sorted : Sorted compare elements) (one : domain item) (few : elements.length < 2 ^ 30)
    (same : ∀ k (bound : k < elements.length), side k = compare item elements[k]) :
    ∃ result, binSearchLoop side (elements.length + 1) 0 (elements.length - 1) 0 (-1) = some result ∧
      Located compare elements item result := by
  have earlier : ∀ j k : Int, 0 ≤ j → j ≤ k → k < elements.length → 0 < side k → 0 < side j := by
    intro j k low order high above
    obtain ⟨j, rfl⟩ := Int.eq_ofNat_of_zero_le low
    obtain ⟨k, rfl⟩ := Int.eq_ofNat_of_zero_le (le_trans low order)
    rw [same k (by omega)] at above
    rw [same j (by omega)]
    exact above_earlier orders inside sorted one _ _ (by omega) above
  have later : ∀ j k : Int, 0 ≤ j → j ≤ k → k < elements.length → side j < 0 → side k < 0 := by
    intro j k low order high below
    obtain ⟨j, rfl⟩ := Int.eq_ofNat_of_zero_le low
    obtain ⟨k, rfl⟩ := Int.eq_ofNat_of_zero_le (le_trans low order)
    rw [same j (by omega)] at below
    rw [same k (by omega)]
    exact below_later orders inside sorted one _ _ (by omega) below
  obtain ⟨result, found, placed⟩ := search_placed (by omega) earlier later
    (start_between (by omega)) (show (elements.length : Int) - 1 + 1 - 0 < (elements.length + 1 : Nat) by omega)
  exact ⟨result, found, placed_located orders inside sorted one same placed⟩

end Arrays

/-- The elements of an array. -/
def arrayItems (memory : BitVec 32 → UInt8) (array : BitVec 32) (elementSize count : Nat) :
    List (List UInt8) :=
  (List.range count).map fun k : Nat => arrayItem memory array elementSize k

theorem array_located {memory : BitVec 32 → UInt8} {array : BitVec 32} {size count : Nat}
    {item : List UInt8} {compareFunction : Option CompareFunction} (few : count < 2 ^ 30)
    (one : item.length = size)
    (orders : Orders (fun a => a.length = size) (compared compareFunction))
    (sorted : Sorted (compared compareFunction) (arrayItems memory array size count)) :
    ∃ result, binSearch memory array count size item compareFunction = some result ∧
      Located (compared compareFunction) (arrayItems memory array size count) item result := by
  have length : (arrayItems memory array size count).length = count := by simp [arrayItems]
  have inside : ∀ a ∈ arrayItems memory array size count, a.length = size := by
    simp [arrayItems, arrayItem]
  have located := @search_located _ _ _ item
    (fun mid => compared compareFunction item (arrayItem memory array size mid)) orders inside sorted one
    (by omega) (by
      intro k bound
      simp [arrayItems])
  rw [length] at located
  exact located

section Lists
variable {list : ListStruct} {bytes items room : Nat} {item : List UInt8}
  {compareFunction : Option CompareFunction}

theorem item_memory (sized : Sized list bytes items room) :
    arrayItems (itemMemory list) (BitVec.ofInt 32 (itemPtr list 0)) bytes items = content list := by
  have start : itemPtr list 0 = 0 := by
    have first := item_ptr sized (Nat.zero_le room)
    rwa [Nat.mul_zero] at first
  rw [content_sized sized, start]
  apply List.map_congr_left
  intro k member
  unfold arrayItem itemAt itemMemory
  rw [sized.itemSize, Int.toNat_natCast]
  apply List.map_congr_left
  intro i inside
  have below := List.mem_range.mp member
  have within := List.mem_range.mp inside
  have product := Nat.mul_le_mul_left bytes (show k + 1 ≤ room from by have := sized.fits; omega)
  rw [Nat.mul_succ] at product
  have small := sized.bytesInt
  have address : BitVec.ofInt 32 0 + BitVec.ofInt 32 ((k : Int) * bytes) + BitVec.ofNat 32 i =
      BitVec.ofNat 32 (bytes * k + i) := by
    rw [BitVec.ofNat_add, ← Nat.cast_mul, BitVec.ofInt_natCast, Nat.mul_comm k]
    congr 1
    exact BitVec.zero_add _
  rw [address, BitVec.toInt_ofNat']
  have same := @wrap_int ((bytes * k + i : Nat) : Int) (by omega) (by omega)
  rw [wrapInt] at same
  have place : ((bytes * k + i : Nat) : Int) = (bytes : Int) * k + i := by push_cast; rfl
  exact congrArg list.itemList (same.trans place)

/-- What ListBinSearch gives. -/
def ListLocated (compare : CompareFunction) (elements : List (List UInt8)) (item : List UInt8)
    (result : Int) : Prop :=
  (∃ k, ∃ inside : k < elements.length, result = k + 1 ∧ compare item elements[k] = 0) ∨
    (∀ a ∈ elements, compare item a ≠ 0) ∧ result = 0

theorem list_located (sized : Sized list bytes items room) (few : items < 2 ^ 30)
    (one : item.length = bytes)
    (orders : Orders (fun a => a.length = bytes) (compared compareFunction))
    (sorted : Sorted (compared compareFunction) (content list)) :
    ∃ result, listBinSearch list item compareFunction = some result ∧
      ListLocated (compared compareFunction) (content list) item result := by
  rw [← item_memory sized] at sorted ⊢
  obtain ⟨result, found, located⟩ := array_located few one orders sorted
  rw [listBinSearch, sized.numItems, sized.itemSize, found]
  refine ⟨_, rfl, ?_⟩
  rcases located with ⟨k, inside, rfl, equal⟩ | ⟨none, i, -, rfl, -⟩
  · exact .inl ⟨k, inside, if_pos (by omega), equal⟩
  · exact .inr ⟨none, if_neg (by omega)⟩

end Lists

/-- BinSearch finds an equal element or the place where the item keeps the array sorted; ListBinSearch gives
the position of an equal item, or 0. -/
theorem bin_search_located :
    (∀ (memory : BitVec 32 → UInt8) (array : BitVec 32) (size count : Nat) (item : List UInt8)
      (compareFunction : Option CompareFunction), count < 2 ^ 30 → item.length = size →
      Orders (fun a => a.length = size) (compared compareFunction) →
      Sorted (compared compareFunction) (arrayItems memory array size count) →
      ∃ result, binSearch memory array count size item compareFunction = some result ∧
        Located (compared compareFunction) (arrayItems memory array size count) item result) ∧
    ∀ (list : ListStruct) (bytes items room : Nat) (item : List UInt8)
      (compareFunction : Option CompareFunction), Sized list bytes items room → items < 2 ^ 30 →
      item.length = bytes → Orders (fun a => a.length = bytes) (compared compareFunction) →
      Sorted (compared compareFunction) (content list) →
      ∃ result, listBinSearch list item compareFunction = some result ∧
        ListLocated (compared compareFunction) (content list) item result := by
  constructor
  · intro memory array size count item compareFunction few one orders sorted
    exact array_located few one orders sorted
  · intro list bytes items room item compareFunction sized few one orders sorted
    exact list_located sized few one orders sorted

/-- The bytes 1 and 3. -/
def twoBytes : ListStruct := ⟨0x100, 30, 10, 4, 2, 1, 2, fun place => if place = 0 then 1 else 3, false⟩

theorem two_bytes_sized : Sized twoBytes 1 2 2 := by
  constructor <;> decide

theorem three_located : ∃ result, listBinSearch twoBytes [3] none = some result ∧
    ListLocated (compared none) (content twoBytes) [3] result :=
  bin_search_located.2 twoBytes 1 2 2 [3] none two_bytes_sized (by decide) rfl (memcmp_orders 1)
    (by unfold Sorted; decide)

/-- 0 and 2 have different places, but ListBinSearch does not tell them apart. -/
theorem place_lost : ¬ ∃ renumbered : Int → Int, Function.Injective renumbered ∧ ∀ item ∈ [[0], [2]],
    listBinSearch twoBytes item none =
      (binSearch (itemMemory twoBytes) 0 2 1 item none).map renumbered := by
  rintro ⟨renumbered, injective, same⟩
  have front := same [0] (by decide)
  have middle := same [2] (by decide)
  have first : binSearch (itemMemory twoBytes) 0 2 1 [0] none = some (-1) := by decide +kernel
  have second : binSearch (itemMemory twoBytes) 0 2 1 [2] none = some (-2) := by decide +kernel
  have none_front : listBinSearch twoBytes [0] none = some 0 := by decide +kernel
  have none_middle : listBinSearch twoBytes [2] none = some 0 := by decide +kernel
  rw [first, none_front, Option.map_some, Option.some_inj] at front
  rw [second, none_middle, Option.map_some, Option.some_inj] at middle
  exact absurd (injective (front.symm.trans middle)) (by decide)

end UBoot.Common.ListSearch
