import UBoot.Common.ListRuns
import UBoot.Common.Devices

/-!
Where the consoles point to. A console keeps the device of its name as long as the
list of the devices stays where it is while a console has a device, and the names
that a removal puts aside are short enough for their rows.
-/

namespace UBoot.Common.ConsoleRuns

open Library.Runs Lists Devices
open ListRuns (InsertAdmitted insertItems insertIndex removeIndex InRange content_length create_sized
  insert_sized remove_sized)

/-! ### Strings -/

section Strings

variable {bytes other : Nat → UInt8}

theorem string_congr {limit place place' : Nat}
    (same : ∀ i < limit, bytes (place + i) = other (place' + i)) :
    stringAt bytes limit place = stringAt other limit place' := by
  induction limit generalizing place place' with
  | zero => rfl
  | succ limit inductive_hypothesis =>
      have here : bytes place = other place' := same 0 (Nat.succ_pos limit)
      have rest : stringAt bytes limit (place + 1) = stringAt other limit (place' + 1) := by
        refine inductive_hypothesis fun i bound => ?_
        rw [Nat.add_right_comm, Nat.add_assoc, Nat.add_right_comm place', Nat.add_assoc place']
        exact same (i + 1) (Nat.succ_lt_succ bound)
      simp only [stringAt, here, rest]

theorem string_proper (limit place : Nat) : 0 ∉ stringAt bytes limit place := by
  induction limit generalizing place with
  | zero => exact List.not_mem_nil
  | succ limit inductive_hypothesis =>
      unfold stringAt
      split
      · exact List.not_mem_nil
      · next char =>
          rw [List.mem_cons]
          rintro (zero | rest)
          · exact char zero.symm
          · exact inductive_hypothesis _ rest

/-- In a field that a string ends in, strcmp finds that string only. -/
theorem strcmp_iff {name : List UInt8} (proper : 0 ∉ name) {limit place : Nat}
    (ends : ∃ i < limit, bytes (place + i) = 0) :
    strcmpEqual name bytes place = true ↔ stringAt bytes limit place = name := by
  induction limit generalizing name place with
  | zero =>
      obtain ⟨i, bound, _⟩ := ends
      exact absurd bound (Nat.not_lt_zero i)
  | succ limit inductive_hypothesis =>
      by_cases zero : bytes place = 0
      · cases name with
        | nil => simp [strcmpEqual, stringAt, zero]
        | cons char rest =>
            have other_char : ¬ (0 : UInt8) = char := fun same => proper (by simp [same])
            simp [strcmpEqual, stringAt, zero, other_char]
      · cases name with
        | nil => simp [strcmpEqual, stringAt, zero]
        | cons char rest =>
            have later : ∃ i < limit, bytes (place + 1 + i) = 0 := by
              obtain ⟨i, bound, null⟩ := ends
              cases i with
              | zero => exact absurd null zero
              | succ i => exact ⟨i, by omega, by rw [← null]; congr 1; omega⟩
            have rest_proper : 0 ∉ rest := fun member => proper (List.mem_cons_of_mem _ member)
            simp [strcmpEqual, stringAt, zero, inductive_hypothesis rest_proper later]

/-- Two strings that strcmp finds at one address are the same. -/
theorem strcmp_unique {one two : List UInt8} (proper : 0 ∉ one) (proper' : 0 ∉ two) {place : Nat}
    (first : strcmpEqual one bytes place = true) (second : strcmpEqual two bytes place = true) :
    one = two := by
  induction one generalizing two place with
  | nil =>
      cases two with
      | nil => rfl
      | cons char rest =>
          simp only [strcmpEqual, decide_eq_true_eq, Bool.and_eq_true] at first second
          exact absurd (by rw [← second.1, first]; exact List.mem_cons_self) proper'
  | cons char rest inductive_hypothesis =>
      cases two with
      | nil =>
          simp only [strcmpEqual, decide_eq_true_eq, Bool.and_eq_true] at first second
          exact absurd (by rw [← first.1, second]; exact List.mem_cons_self) proper
      | cons char' rest' =>
          simp only [strcmpEqual, decide_eq_true_eq, Bool.and_eq_true] at first second
          rw [← first.1, ← second.1, inductive_hypothesis
            (fun member => proper (List.mem_cons_of_mem _ member))
            (fun member => proper' (List.mem_cons_of_mem _ member)) first.2 second.2]

/-- A string that was copied with its end is found in the copy. -/
theorem strcmp_copied {name : List UInt8} {limit place place' : Nat}
    (string : stringAt bytes limit place = name) (short : name.length < limit)
    (copied : ∀ i ≤ name.length, other (place' + i) = bytes (place + i)) :
    strcmpEqual name other place' = true := by
  induction name generalizing limit place place' with
  | nil =>
      obtain ⟨limit, rfl⟩ := Nat.exists_eq_succ_of_ne_zero (Nat.pos_iff_ne_zero.mp short)
      have null : bytes place = 0 := by
        by_contra char
        simp [stringAt, char] at string
      have here : other place' = bytes place := copied 0 (Nat.zero_le _)
      simp [strcmpEqual, here, null]
  | cons char rest inductive_hypothesis =>
      obtain ⟨limit, rfl⟩ : ∃ more, limit = more + 1 := ⟨limit - 1, by omega⟩
      have char_here : ¬ bytes place = 0 := by
        intro null
        simp [stringAt, null] at string
      simp only [stringAt, char_here, if_false, List.cons.injEq] at string
      have here : other place' = bytes place := copied 0 (Nat.zero_le _)
      have later : strcmpEqual rest other (place' + 1) = true := by
        refine inductive_hypothesis string.2 (Nat.lt_of_succ_lt_succ short) fun i bound => ?_
        have next := copied (i + 1) (Nat.succ_le_succ bound)
        rw [← Nat.add_right_comm, ← Nat.add_right_comm place]
        exact next
      simp [strcmpEqual, here, string.1, later]

end Strings

/-! ### The devices in memory -/

/-- What a record of the list names its device. -/
def deviceName (record : List UInt8) : List UInt8 :=
  stringAt (fun i => (record[i]?).getD 0) sizeofName offsetofName

/-- The name of a record ends within its field. -/
def Named (record : List UInt8) : Prop :=
  ∃ i < sizeofName, (record[offsetofName + i]?).getD 0 = 0

section Devices

variable {devlist : ListStruct} {items room : Nat}

theorem device_ptr (sized : Sized devlist sizeofDevice items room) {k : Nat} (bound : k ≤ room) :
    devicePtr devlist k = devlist.ptr + 24 + 52 * k := by
  unfold devicePtr
  rw [item_ptr sized bound, Int.toNat_natCast]
  rfl

theorem device_memory (sized : Sized devlist sizeofDevice items room) {k : Nat} (bound : k < items)
    (other : Nat → UInt8) {i : Nat} (field : i < 52) :
    memory devlist other (devicePtr devlist k + i) = ((itemAt devlist k)[i]?).getD 0 := by
  have fits := sized.fits
  have covers := sized.covers
  have inside : 52 * (k + 1) ≤ 52 * room := Nat.mul_le_mul_left 52 (by omega)
  have size : devlist.itemSize = 52 := sized.itemSize
  have record : (itemAt devlist k)[i]? = some (devlist.itemList (52 * k + i)) := by
    simp [itemAt, size, field]
  rw [device_ptr sized (by omega), record]
  unfold memory
  rw [if_pos (by unfold sizeofDevice at covers; omega)]
  show devlist.itemList _ = devlist.itemList _
  congr 1
  omega

theorem content_get (sized : Sized devlist sizeofDevice items room) {k : Nat} (bound : k < items) :
    (content devlist)[k]? = some (itemAt devlist k) := by
  rw [content_sized sized]
  simp [bound]

/-- The names as the code reads them are those of the records. -/
theorem name_memory (sized : Sized devlist sizeofDevice items room) {k : Nat} (bound : k < items)
    (other : Nat → UInt8) :
    stringAt (memory devlist other) sizeofName (devicePtr devlist k + offsetofName) =
      deviceName (itemAt devlist k) := by
  refine string_congr fun i field => ?_
  rw [Nat.add_assoc]
  exact device_memory sized bound other (by unfold offsetofName; unfold sizeofName at field; omega)

theorem named_memory (sized : Sized devlist sizeofDevice items room) {k : Nat} (bound : k < items)
    (other : Nat → UInt8) (named : Named (itemAt devlist k)) :
    ∃ i < sizeofName, memory devlist other (devicePtr devlist k + offsetofName + i) = 0 := by
  obtain ⟨i, field, null⟩ := named
  refine ⟨i, field, ?_⟩
  rw [Nat.add_assoc, device_memory sized bound other
    (by unfold offsetofName; unfold sizeofName at field; omega)]
  exact null

theorem device_strcmp (sized : Sized devlist sizeofDevice items room) {k : Nat} (bound : k < items)
    (other : Nat → UInt8) (named : Named (itemAt devlist k)) (devname : CString) :
    strcmpEqual devname.chars (memory devlist other) (devicePtr devlist k + offsetofName) = true ↔
      deviceName (itemAt devlist k) = devname.chars := by
  rw [strcmp_iff devname.proper (named_memory sized bound other named),
    name_memory sized bound other]

end Devices

/-! ### What holds of the consoles -/

/-- A console has the device of the current list that carries the name it was assigned last, or
none if it was assigned none. -/
def Designates (consoles : Consoles) (file : Nat) : Prop :=
  match consoles.assigned file with
  | none => consoles.stdioDevices file = 0
  | some name => ∃ k device, (content consoles.devlist)[k]? = some device ∧
      consoles.stdioDevices file = devicePtr consoles.devlist k ∧ deviceName device = name

structure Sound (consoles : Consoles) : Prop where
  sized : ∃ items room, Sized consoles.devlist sizeofDevice items room
  named : ∀ device ∈ content consoles.devlist, Named device
  designates : ∀ file < MAX_FILES, Designates consoles file

/-- The registration does not move the list while a console has a device, an initialization finds
the device of the name, and a removal puts names aside that have at most seven characters. -/
def Kept (consoles : Consoles) (operation : Operation × (Nat → UInt8)) : Prop :=
  match operation.1 with
  | .register _ newPtr =>
      InsertAdmitted consoles.devlist LIST_END 1 ∧
        (consoles.devlist.numItems < consoles.devlist.listSize ∨ newPtr = consoles.devlist.ptr ∨
          ∀ file < MAX_FILES, consoles.stdioDevices file = 0)
  | .assign _ _ _ => True
  | .initR file stdname _ =>
      numDevices consoles.devlist = 0 ∨ (fileFlag file).all fun flag =>
        (searched consoles operation.2 flag (stdname.getD serial)).isSome
  | .deregister devname =>
      ∀ k ∈ findDevice consoles operation.2 devname,
        (∃ file < MAX_FILES, consoles.stdioDevices file = devicePtr consoles.devlist k) ∨
          ∀ file < MAX_FILES, ∃ name ∈ consoles.assigned file, name.length < 8

instance decideKept : ∀ consoles operation, Decidable (Kept consoles operation)
  | consoles, (.register _ newPtr, _) =>
      inferInstanceAs (Decidable (InsertAdmitted consoles.devlist LIST_END 1 ∧
        (consoles.devlist.numItems < consoles.devlist.listSize ∨ newPtr = consoles.devlist.ptr ∨
          ∀ file < MAX_FILES, consoles.stdioDevices file = 0)))
  | _, (.assign _ _ _, _) => isTrue trivial
  | consoles, (.initR file stdname _, other) =>
      inferInstanceAs (Decidable (numDevices consoles.devlist = 0 ∨
        (fileFlag file).all fun flag => (searched consoles other flag (stdname.getD serial)).isSome))
  | consoles, (.deregister devname, other) =>
      inferInstanceAs (Decidable (∀ k ∈ findDevice consoles other devname,
        (∃ file < MAX_FILES, consoles.stdioDevices file = devicePtr consoles.devlist k) ∨
          ∀ file < MAX_FILES, ∃ name ∈ consoles.assigned file, name.length < 8))

section Steps

variable {consoles : Consoles}

theorem designates_none {file : Nat} (was : consoles.assigned file = none) :
    Designates consoles file ↔ consoles.stdioDevices file = 0 := by
  unfold Designates
  rw [was]

theorem designates_some {file : Nat} {name : List UInt8} (was : consoles.assigned file = some name) :
    Designates consoles file ↔ ∃ k device, (content consoles.devlist)[k]? = some device ∧
      consoles.stdioDevices file = devicePtr consoles.devlist k ∧ deviceName device = name := by
  unfold Designates
  rw [was]

theorem init_sound (ptr : Nat) (fresh : Int → UInt8) : Sound (devicesInit ptr fresh) where
  sized := ⟨0, 0, create_sized ptr fresh (by decide)⟩
  named := fun _ member => absurd member List.not_mem_nil
  designates := fun _ _ => rfl

theorem found_place {devlist : ListStruct} {items room k : Nat}
    (sized : Sized devlist sizeofDevice items room) {device : List UInt8}
    (here : (content devlist)[k]? = some device) : k < items ∧ device = itemAt devlist k := by
  have bound : k < items := by
    rw [← content_length sized]
    exact (List.getElem?_eq_some_iff.mp here).1
  refine ⟨bound, ?_⟩
  rw [content_get sized bound] at here
  exact (Option.some.inj here).symm

/-! ### A new device -/

theorem resize_ptr (list : ListStruct) (newPtr newSize : Nat) :
    (setHandleSize list newPtr newSize).ptr = list.ptr ∨
      (setHandleSize list newPtr newSize).ptr = newPtr := by
  unfold setHandleSize
  split
  · exact .inl rfl
  · exact .inr rfl

/-- A list stays where it is unless it is full. -/
theorem register_ptr (list : ListStruct) (newPtr : Nat) (source : Option (Nat → UInt8)) :
    (listInsertItem list newPtr source LIST_END).2.ptr = list.ptr ∨
      list.listSize ≤ list.numItems ∧
        (listInsertItem list newPtr source LIST_END).2.ptr = newPtr := by
  unfold listInsertItem listInsertItems
  dsimp only
  split
  · exact .inl rfl
  · by_cases full : list.numItems ≥ list.listSize
    · simp only [if_pos full]
      have grown : (expandListSpace list newPtr (wrapInt (-1))).ptr = list.ptr ∨
          (expandListSpace list newPtr (wrapInt (-1))).ptr = newPtr := resize_ptr list newPtr _
      refine Or.imp ?_ (fun moved => ⟨full, ?_⟩) grown
      · intro same
        split <;> exact same
      · split <;> exact moved
    · simp only [if_neg full]
      left
      split <;> rfl

/-- The devices of a list with one more. -/
theorem register_content {list : ListStruct} {items room : Nat}
    (sized : Sized list sizeofDevice items room) (dev : Device) (newPtr : Nat)
    (admitted : InsertAdmitted list LIST_END 1) :
    (∃ newRoom, Sized (listInsertItem list newPtr (some dev.bytes) LIST_END).2 sizeofDevice
        (items + 1) newRoom) ∧
      content (listInsertItem list newPtr (some dev.bytes) LIST_END).2 =
        content list ++ [(List.range sizeofDevice).map dev.bytes] := by
  obtain ⟨_, place⟩ := admitted
  have inside : ¬ (list.numItems + 1 < LIST_END) := by
    rw [sized.numItems]
    unfold LIST_END
    omega
  obtain ⟨_, _, enough⟩ := place.resolve_left inside
  have inserted := @insert_sized list sizeofDevice items room sized newPtr (some dev.bytes)
    LIST_END 1 (by decide) (by unfold LIST_END; omega) (by decide) enough
  refine ⟨inserted.2.1, ?_⟩
  refine inserted.2.2.trans ?_
  have index : insertIndex (content list).length LIST_END = (content list).length := rfl
  have one : chunks sizeofDevice 1 dev.bytes = [(List.range sizeofDevice).map dev.bytes] := by
    simp [chunks, chunk]
  unfold insertItems
  rw [index, List.take_length, List.drop_length, List.append_nil, Option.getD_some, one]

theorem device_named (dev : Device) : Named ((List.range sizeofDevice).map dev.bytes) := by
  obtain ⟨i, field, null⟩ := dev.named
  refine ⟨i, field, ?_⟩
  have inside : offsetofName + i < sizeofDevice := by
    unfold sizeofName at field
    unfold offsetofName sizeofDevice
    omega
  simp [inside, null]

theorem register_sound (sound : Sound consoles) (dev : Device) (newPtr : Nat)
    (admitted : InsertAdmitted consoles.devlist LIST_END 1)
    (stays : consoles.devlist.numItems < consoles.devlist.listSize ∨
      newPtr = consoles.devlist.ptr ∨ ∀ file < MAX_FILES, consoles.stdioDevices file = 0) :
    Sound (deviceRegister consoles dev newPtr) := by
  obtain ⟨items, room, sized⟩ := sound.sized
  obtain ⟨⟨newRoom, registered⟩, more⟩ := register_content sized dev newPtr admitted
  refine ⟨⟨items + 1, newRoom, registered⟩, ?_, fun file bound => ?_⟩
  · intro device member
    have member : device ∈ content consoles.devlist ++ [(List.range sizeofDevice).map dev.bytes] :=
      more ▸ member
    rcases List.mem_append.mp member with old | new
    · exact sound.named device old
    · rw [List.mem_singleton.mp new]
      exact device_named dev
  · have before := sound.designates file bound
    cases was : consoles.assigned file with
    | none =>
        rw [designates_none was] at before
        rw [designates_none (show (deviceRegister consoles dev newPtr).assigned file = none from was)]
        exact before
    | some name =>
        rw [designates_some was] at before
        rw [designates_some
          (show (deviceRegister consoles dev newPtr).assigned file = some name from was)]
        obtain ⟨k, device, here, pointer, named⟩ := before
        have place := found_place sized here
        have old_ptr := device_ptr sized (Nat.le_of_lt (Nat.lt_of_lt_of_le place.1 sized.fits))
        have new_ptr := device_ptr registered
          (Nat.le_trans (Nat.le_of_lt (Nat.lt_succ_of_lt place.1)) registered.fits)
        have fixed : (listInsertItem consoles.devlist newPtr (some dev.bytes) LIST_END).2.ptr =
            consoles.devlist.ptr := by
          rcases register_ptr consoles.devlist newPtr (some dev.bytes) with same | ⟨full, moved⟩
          · exact same
          · rcases stays with free | same | unassigned
            · omega
            · exact moved.trans same
            · have empty := unassigned file bound
              rw [pointer, old_ptr] at empty
              omega
        refine ⟨k, device, ?_, ?_, named⟩
        · refine Eq.trans ?_ here
          have inside : k < (content consoles.devlist).length := by
            rw [content_length sized]
            exact place.1
          exact (congrArg (·[k]?) more).trans (List.getElem?_append_left inside)
        · refine Eq.trans pointer (old_ptr.trans (Eq.trans ?_ new_ptr.symm))
          rw [fixed]

/-! ### An assignment -/

theorem setfile_sound (sound : Sound consoles) (other : Nat → UInt8) (file : Nat) {k : Nat}
    {device : List UInt8} (here : (content consoles.devlist)[k]? = some device) (error : Int) :
    Sound (consoleSetfile consoles other file (devicePtr consoles.devlist k)
      (deviceName device) error).2 := by
  unfold consoleSetfile
  dsimp only
  split
  · exact sound
  · split
    · split
      · exact sound
      · refine ⟨sound.sized, sound.named, fun l bound => ?_⟩
        unfold Designates
        by_cases same : l = file
        · subst same
          simp only [Function.update_self]
          exact ⟨k, device, here, rfl, rfl⟩
        · simp only [Function.update_of_ne same]
          exact sound.designates l bound
    · exact sound

/-- What a search through the devices finds. -/
theorem find_named (sound : Sound consoles) (other : Nat → UInt8) {devname : CString} {k : Nat}
    {test : Nat → Bool}
    (found : (List.range (numDevices consoles.devlist)).find? test = some k)
    (right : test k = true → strcmpEqual devname.chars (memory consoles.devlist other)
      (devicePtr consoles.devlist k + offsetofName) = true) :
    ∃ device, (content consoles.devlist)[k]? = some device ∧ deviceName device = devname.chars := by
  obtain ⟨items, room, sized⟩ := sound.sized
  have bound : k < items := by
    have member := List.mem_range.mp (List.mem_of_find?_eq_some found)
    unfold numDevices at member
    rw [sized.numItems, Int.toNat_natCast] at member
    exact member
  have here := content_get sized bound
  have named := sound.named _ (List.mem_of_getElem? here)
  exact ⟨_, here, (device_strcmp sized bound other named devname).mp
    (right (List.find?_some found))⟩

theorem assign_sound (sound : Sound consoles) (other : Nat → UInt8) (file : Nat)
    (devname : CString) (error : Int) :
    Sound (consoleAssign consoles other file devname error).2 := by
  unfold consoleAssign
  cases fileFlag file with
  | none => exact sound
  | some flag =>
      dsimp only
      cases found : findDevice consoles other devname with
      | none => exact sound
      | some k =>
          obtain ⟨device, here, name⟩ := find_named sound other found id
          dsimp only
          split
          · rw [← name]
            exact setfile_sound sound other file here error
          · exact sound

theorem searched_found {other : Nat → UInt8} {flag : UInt32} {name : CString} {k : Nat}
    (found : searched consoles other flag name = some k) :
    searchDevice consoles other flag (some name) = devicePtr consoles.devlist k := by
  simp only [searchDevice, found]

theorem initR_sound (sound : Sound consoles) (other : Nat → UInt8) (file : Nat)
    (stdname : Option CString) (error : Int)
    (finds : numDevices consoles.devlist = 0 ∨ (fileFlag file).all fun flag =>
      (searched consoles other flag (stdname.getD serial)).isSome) :
    Sound (consoleInitR consoles other file stdname error) := by
  unfold consoleInitR
  cases flagged : fileFlag file with
  | none => exact sound
  | some flag =>
      dsimp only
      rcases finds with empty | finds
      · -- no device, and so no search ends at one
        have nothing : ∀ name, searchDevice consoles other flag name = 0 := by
          rintro (_ | name)
          · rfl
          · simp [searchDevice, searched, empty]
        simp only [nothing, if_true, ne_eq, not_true, if_false]
        exact sound
      · rw [flagged, Option.all_some] at finds
        obtain ⟨k, found⟩ := Option.isSome_iff_exists.mp finds
        have result := searched_found found
        have device_here : devicePtr consoles.devlist k ≠ 0 := by
          unfold devicePtr
          omega
        have target : (if searchDevice consoles other flag stdname = 0 then
            searchDevice consoles other flag (some serial)
          else searchDevice consoles other flag stdname) = devicePtr consoles.devlist k := by
          cases stdname with
          | none => exact result
          | some name =>
              have result : searchDevice consoles other flag (some name) = _ := result
              rw [result, if_neg device_here]
        obtain ⟨device, here, name⟩ := find_named sound other found fun both =>
          (of_decide_eq_true both).2
        rw [target, if_pos device_here, ← name]
        exact setfile_sound sound other file here error

/-! ### A removal -/

theorem copy_here (other temp : Nat → UInt8) (l : Nat) {i : Nat} (row : i < 8) :
    copyName consoles other temp l (8 * l + i) =
      memory consoles.devlist other (consoles.stdioDevices l + offsetofName + i) := by
  unfold copyName sizeofName
  rw [if_pos ⟨by omega, by omega⟩, Nat.add_sub_cancel_left]

theorem copy_before (other temp : Nat → UInt8) {l place : Nat} (before : place < 8 * l) :
    copyName consoles other temp l place = temp place := by
  unfold copyName
  rw [if_neg (by omega)]

/-- The names as they were put aside: each copy leaves the rows before it alone. -/
theorem temp_names {other : Nat → UInt8} {dev : Nat} {temp : Nat → UInt8}
    (saved : tempNames consoles other dev = some temp) :
    (∀ l < MAX_FILES, consoles.stdioDevices l ≠ dev) ∧
      ∀ l < MAX_FILES, ∀ i < 8, temp (8 * l + i) =
        memory consoles.devlist other (consoles.stdioDevices l + offsetofName + i) := by
  have files : List.range MAX_FILES = [0, 1, 2] := by decide
  unfold tempNames at saved
  rw [files] at saved
  by_cases first : consoles.stdioDevices 0 = dev
  · simp [first] at saved
  by_cases second : consoles.stdioDevices 1 = dev
  · simp [first, second] at saved
  by_cases third : consoles.stdioDevices 2 = dev
  · simp [first, second, third] at saved
  simp only [List.foldlM_cons, List.foldlM_nil, first, second, third, if_false,
    Option.bind_eq_bind, Option.bind_some, Option.pure_def, Option.some.injEq] at saved
  subst saved
  have cases_of : ∀ l < MAX_FILES, l = 0 ∨ l = 1 ∨ l = 2 := by
    intro l bound
    unfold MAX_FILES at bound
    omega
  constructor
  · intro l bound
    rcases cases_of l bound with rfl | rfl | rfl
    · exact first
    · exact second
    · exact third
  · intro l bound i row
    rcases cases_of l bound with rfl | rfl | rfl
    · rw [copy_before other _ (by omega), copy_before other _ (by omega), copy_here other _ 0 row]
    · rw [copy_before other _ (by omega), copy_here other _ 1 row]
    · rw [copy_here other _ 2 row]

/-- What is found again: the last device with the name that was put aside. -/
theorem reassign_found (other temp : Nat → UInt8) {l : Nat} (bound : l < MAX_FILES)
    (some_device : ∃ k < numDevices consoles.devlist,
      strcmpEqual (stringAt (memory consoles.devlist other) sizeofName
        (devicePtr consoles.devlist k + offsetofName)) temp (8 * l) = true) :
    ∃ k < numDevices consoles.devlist, reassign consoles other temp l = devicePtr consoles.devlist k ∧
      strcmpEqual (stringAt (memory consoles.devlist other) sizeofName
        (devicePtr consoles.devlist k + offsetofName)) temp (8 * l) = true := by
  unfold reassign
  generalize consoles.stdioDevices = old
  generalize numDevices consoles.devlist = n at some_device ⊢
  induction n with
  | zero =>
      obtain ⟨k, inside, _⟩ := some_device
      exact absurd inside (Nat.not_lt_zero k)
  | succ n inductive_hypothesis =>
      rw [List.range_succ, List.foldl_append, List.foldl_cons, List.foldl_nil]
      by_cases last : strcmpEqual (stringAt (memory consoles.devlist other) sizeofName
          (devicePtr consoles.devlist n + offsetofName)) temp (8 * l) = true
      · exact ⟨n, Nat.lt_succ_self n, if_pos ⟨bound, last⟩, last⟩
      · have earlier : ∃ k < n, strcmpEqual (stringAt (memory consoles.devlist other) sizeofName
            (devicePtr consoles.devlist k + offsetofName)) temp (8 * l) = true := by
          obtain ⟨k, inside, hit⟩ := some_device
          have other_device : k ≠ n := fun same => last (same ▸ hit)
          exact ⟨k, by omega, hit⟩
        obtain ⟨k, inside, found, hit⟩ := inductive_hypothesis earlier
        exact ⟨k, Nat.lt_succ_of_lt inside, (if_neg fun both => last both.2).trans found, hit⟩

theorem remove_content {list : ListStruct} {items room : Nat}
    (sized : Sized list sizeofDevice items room) {k : Nat} (bound : k < items) :
    Sized (listRemoveItem list ((k : Int) + 1)).2 sizeofDevice (items - 1) room ∧
      content (listRemoveItem list ((k : Int) + 1)).2 = (content list).eraseIdx k := by
  have index : removeIndex items ((k : Int) + 1) = k := by
    unfold removeIndex LIST_START LIST_END
    rw [if_neg (by omega), if_neg (by omega)]
    omega
  have range : InRange list ((k : Int) + 1) (1 : Nat) := by
    refine ⟨by decide, ?_, ?_⟩
    · rw [if_neg (by unfold LIST_START; omega), if_neg (by unfold LIST_END; omega)]
      omega
    · rw [sized.numItems, Int.toNat_natCast, index]
      omega
  obtain ⟨_, removed, rest⟩ := remove_sized sized range
  refine ⟨removed, rest.trans ?_⟩
  rw [index, List.eraseIdx_eq_take_drop_succ]

/-- Another item of a list is still there after a removal. -/
theorem erased_get {α : Type} (items : List α) {j k : Nat} (different : j ≠ k) :
    ∃ j' : Nat, (items.eraseIdx k)[j']? = items[j]? := by
  by_cases before : j < k
  · exact ⟨j, by rw [List.getElem?_eraseIdx, if_pos before]⟩
  · obtain ⟨j, rfl⟩ : ∃ less, j = less + 1 := ⟨j - 1, by omega⟩
    exact ⟨j, by rw [List.getElem?_eraseIdx, if_neg (by omega)]⟩

/-- A console whose name was put aside in full gets a device of that name. -/
theorem found_again {items room : Nat} (sized : Sized consoles.devlist sizeofDevice items room)
    (other : Nat → UInt8) {temp : Nat → UInt8} {file j : Nat} {device name : List UInt8}
    (here : (content consoles.devlist)[j]? = some device) (carries : deviceName device = name)
    (inside : file < MAX_FILES) (string : strcmpEqual name temp (8 * file) = true) :
    ∃ k device, (content consoles.devlist)[k]? = some device ∧
      reassign consoles other temp file = devicePtr consoles.devlist k ∧ deviceName device = name := by
  have count : numDevices consoles.devlist = items := by
    unfold numDevices
    rw [sized.numItems, Int.toNat_natCast]
  obtain ⟨bound, rfl⟩ := found_place sized here
  obtain ⟨k, place, pointer, hit⟩ := reassign_found other temp inside
    ⟨j, by rw [count]; exact bound, by rw [name_memory sized bound other, carries]; exact string⟩
  rw [count] at place
  refine ⟨k, itemAt consoles.devlist k, content_get sized place, pointer, ?_⟩
  rw [name_memory sized place other] at hit
  rw [← carries] at string ⊢
  exact strcmp_unique (string_proper _ _) (string_proper _ _) hit string

theorem deregister_sound (sound : Sound consoles) (other : Nat → UInt8) (devname : CString)
    (short : ∀ k ∈ findDevice consoles other devname,
      (∃ file < MAX_FILES, consoles.stdioDevices file = devicePtr consoles.devlist k) ∨
        ∀ file < MAX_FILES, ∃ name ∈ consoles.assigned file, name.length < 8) :
    Sound (deviceDeregister consoles other devname).2 := by
  unfold deviceDeregister
  cases found : findDevice consoles other devname with
  | none => exact sound
  | some k =>
      dsimp only
      cases saved : tempNames consoles other (devicePtr consoles.devlist k) with
      | none => exact sound
      | some temp =>
          obtain ⟨elsewhere, copied⟩ := temp_names saved
          obtain ⟨items, room, sized⟩ := sound.sized
          obtain ⟨found_device, found_here, _⟩ := find_named sound other found id
          have bound := (found_place sized found_here).1
          obtain ⟨removed, rest⟩ := remove_content sized bound
          have names : ∀ file < MAX_FILES, ∃ name ∈ consoles.assigned file, name.length < 8 := by
            rcases short k found with ⟨file, inside, here⟩ | names
            · exact absurd here (elsewhere file inside)
            · exact names
          have named : ∀ device ∈ content (listRemoveItem consoles.devlist ((k : Int) + 1)).2,
              Named device := by
            intro device member
            rw [rest] at member
            exact sound.named device (List.mem_of_mem_eraseIdx member)
          refine ⟨⟨items - 1, room, removed⟩, named, fun file inside => ?_⟩
          obtain ⟨name, member, few⟩ := names file inside
          have was := Option.mem_def.mp member
          obtain ⟨j, device, here, pointer, carries⟩ :=
            (designates_some was).mp (sound.designates file inside)
          obtain ⟨j_bound, rfl⟩ := found_place sized here
          have other_device : j ≠ k := by
            rintro rfl
            exact elsewhere file inside pointer
          obtain ⟨j', here'⟩ := erased_get (content consoles.devlist) other_device
          rw [← rest, here] at here'
          have string : strcmpEqual name temp (8 * file) = true := by
            refine strcmp_copied ((name_memory sized j_bound other).trans carries)
              (Nat.lt_trans few (by decide)) fun i within => ?_
            rw [copied file inside i (by omega), pointer]
          unfold Designates
          simp only [was]
          exact @found_again { consoles with devlist := _ } _ _ removed other temp file j' _ name
            here' carries inside string

end Steps

/-! ### Runs -/

theorem step_sound (before : Consoles) (operation : Operation × (Nat → UInt8)) (after : Consoles)
    (sound : Sound before) (step : Guarded Kept (stepOf perform) before operation after) :
    Sound after := by
  obtain ⟨operation, other⟩ := operation
  obtain ⟨kept, rfl⟩ := step
  cases operation with
  | register dev newPtr => exact register_sound sound dev newPtr kept.1 kept.2
  | assign file devname error => exact assign_sound sound other file devname error
  | initR file stdname error => exact initR_sound sound other file stdname error kept
  | deregister devname => exact deregister_sound sound other devname kept

/-- From devices_init on, each console has the device of the name that it was assigned last. -/
theorem consoles_designate (ptr : Nat) (fresh : Int → UInt8)
    (operations : List (Operation × (Nat → UInt8))) (consoles : Consoles)
    (run : Run (Guarded Kept (stepOf perform)) (devicesInit ptr fresh) operations consoles) :
    ∀ file < MAX_FILES, Designates consoles file :=
  (run_preserves _ Sound step_sound run (init_sound ptr fresh)).designates

/-- A device for input and output. -/
def deviceBytes (name : List UInt8) (place : Nat) : UInt8 :=
  if place = 3 then 3
  else if offsetofName ≤ place then (name[place - offsetofName]?).getD 0
  else 0

theorem device_bytes_named (name : List UInt8) (short : name.length < sizeofName) :
    ∃ i < sizeofName, deviceBytes name (offsetofName + i) = 0 := by
  refine ⟨name.length, short, ?_⟩
  unfold deviceBytes offsetofName
  rw [if_neg (by omega), if_pos (by omega), Nat.add_sub_cancel_left]
  simp

def terminal (name : List UInt8) (short : name.length < sizeofName) : Device where
  bytes := deviceBytes name
  named := device_bytes_named name short

theorem usbkbd_proper : (0 : UInt8) ∉ [117, 115, 98, 107, 98, 100] := by decide

theorem usbkbd_short : [117, 115, 98, 107, 98, 100].length < sizeofName := by decide

/-- "usbkbd" -/
def usbkbd : CString where
  chars := [117, 115, 98, 107, 98, 100]
  proper := usbkbd_proper

/-- A terminal takes all consoles, and the USB keyboard goes. -/
def keyboardGoes (name : CString) (short : name.chars.length < sizeofName) :
    List (Operation × (Nat → UInt8)) :=
  [.register (terminal usbkbd.chars usbkbd_short) 0x80101000,
    .register (terminal name.chars short) 0x80101000,
    .assign 0 name 0, .initR 1 (some name) 0, .assign 2 name 0,
    .deregister usbkbd].map fun operation => (operation, fun _ => 0)

def consolesAt : Consoles := devicesInit 0x80100000 fun _ => 0

theorem serial_short : serial.chars.length < sizeofName := by decide

theorem serial_moves :
    Designates ((keyboardGoes serial serial_short).foldl perform consolesAt) 0 :=
  consoles_designate 0x80100000 (fun _ => 0) (keyboardGoes serial serial_short) _
    (run_passes Kept perform (by decide +kernel)) 0 (by decide)

theorem keyboard_proper : (0 : UInt8) ∉ [107, 101, 121, 98, 111, 97, 114, 100] := by decide

/-- "keyboard" -/
def keyboard : CString where
  chars := [107, 101, 121, 98, 111, 97, 114, 100]
  proper := keyboard_proper

theorem keyboard_short : keyboard.chars.length < sizeofName := by decide

/-- A name of eight characters is lost, and stdin stays behind the end of the list. -/
theorem keyboard_stays :
    ¬ Designates ((keyboardGoes keyboard keyboard_short).foldl perform consolesAt) 0 := by
  have assigned : ((keyboardGoes keyboard keyboard_short).foldl perform consolesAt).assigned 0 =
      some keyboard.chars := by decide +kernel
  have one : (numDevices
      ((keyboardGoes keyboard keyboard_short).foldl perform consolesAt).devlist) = 1 := by
    decide +kernel
  have apart : ((keyboardGoes keyboard keyboard_short).foldl perform consolesAt).stdioDevices 0 ≠
      devicePtr ((keyboardGoes keyboard keyboard_short).foldl perform consolesAt).devlist 0 := by
    decide +kernel
  rw [designates_some assigned]
  rintro ⟨k, device, here, pointer, _⟩
  have bound := (List.getElem?_eq_some_iff.mp here).1
  rw [content, List.length_map, List.length_range] at bound
  have first : k = 0 := Nat.lt_one_iff.mp (one ▸ bound)
  subst first
  exact apart pointer

end UBoot.Common.ConsoleRuns
