import UBoot.Flash.FlashWrite
import UBoot.Library.Memory
import UBoot.Load.SRecord

/-!
save_serial and load_serial of common/cmd_load.c. Nobody interrupts a transfer:
ctrlc finds no character in save_serial, and read_record asks for one only where
the console is not the serial line. The echo and the dots are left out.
-/

namespace UBoot.Load.Loads

open Lib.Strings Library.Memory Library.BigEndian SRecord Flash.AthFlash Flash.SectRanges
  Flash.FlashWrite

def srecMaxreclen : Nat := 512 + 4

def srecBytesPerRecord : Nat := 16

def srec3Start : List UInt8 := ascii "S0030000FC"

def srec3End : List UInt8 := ascii "S70500000000FA"

/-- The variables of the loop in save_serial; `data` is the text of `reclen` bytes. -/
structure Saver where
  address : Nat
  reclen : Nat
  checksum : Nat
  data : List UInt8

def collect (mem : Nat → UInt8) (s : Saver) : Saver :=
  let c := (mem ((s.address + s.reclen) % 2 ^ 32)).toNat
  { s with
    checksum := s.checksum + c
    data := s.data ++ [hexDigit (c / 16 % 16), hexDigit (c % 16)]
    reclen := s.reclen + 1 }

/-- The record that is written, if there is one. -/
def dump (s : Saver) : List (List UInt8) :=
  if s.reclen = 0 then []
  else
    let length := 4 + s.reclen + 1
    let lengthSum := ((List.range 2).map fun i => length / 2 ^ (8 * i) % 256).sum
    let addressSum := ((List.range 4).map fun i => s.address / 2 ^ (8 * i) % 256).sum
    let checksum := 255 - (s.checksum + lengthSum + addressSum) % 256
    [srec3Format length s.address s.data checksum]

def afterDump (s : Saver) : Saver := ⟨(s.address + s.reclen) % 2 ^ 32, 0, 0, []⟩

/-- The loop with `count` bytes to go: its records without their line ends. -/
def saveLoop (mem : Nat → UInt8) : (count : Nat) → Saver → List (List UInt8)
  | 0, s => dump s
  | count + 1, s =>
      let s := collect mem s
      if count = 0 then dump s
      else if s.reclen = srecBytesPerRecord then dump s ++ saveLoop mem count (afterDump s)
      else saveLoop mem count s

def saveSerial (mem : Nat → UInt8) (address count : Nat) : List (List UInt8) :=
  [srec3Start] ++ saveLoop mem count ⟨address, 0, 0, []⟩ ++ [srec3End]

/-- The text on the line. The formats end a record with a newline, which the serial driver sends
with a carriage return in front. -/
def serialText (crlf : Bool) (records : List (List UInt8)) : List UInt8 :=
  records.flatMap fun record => record ++ if crlf then [13, 10] else [10]

inductive Read where
  | waiting
  | aborted
  | record (text rest : List UInt8)

/-- read_record with room for so many characters, behind those that it has read. -/
def readRecord : (room : Nat) → List UInt8 → List UInt8 → Read
  | 0, buf, input => .record buf input
  | _ + 1, _, [] => .waiting
  | room + 1, buf, c :: input =>
      if c = 13 ∨ c = 10 then .record buf input
      else if c = 0 ∨ c = 3 then .aborted
      else readRecord room (buf ++ [c]) input

structure Loader where
  memory : Nat → UInt8
  chip : Chip
  startAddr : Nat
  endAddr : Nat

inductive Outcome where
  | waiting
  | aborted (loader : Loader)
  | done (addr size : Nat) (loader : Loader)

/-- Stores the data of a record, unless flash_write fails. -/
def storeData (banks : List FlashInfo) (loader : Loader) (storeAddr : Nat) (binlen : Int)
    (binbuf : Nat → UInt8) : Option Loader :=
  if (addr2info banks storeAddr).isSome then
    let result := flashWrite banks storeAddr (toUlong binlen)
    if result.rcode ≠ 0 then none
    else some { loader with chip := writeAll binbuf loader.chip result.calls }
  else
    some { loader with
      memory := copy (2 ^ 32) loader.memory storeAddr binbuf (toUlong binlen) }

def extend (loader : Loader) (storeAddr : Nat) (binlen : Int) : Loader :=
  let last := toUlong (storeAddr + binlen - 1)
  { loader with
    startAddr := if storeAddr < loader.startAddr then storeAddr else loader.startAddr
    endAddr := if last > loader.endAddr then last else loader.endAddr }

inductive Next where
  | stop (outcome : Outcome)
  | more (loader : Loader)

/-- One record in the loop of load_serial. -/
def takeRecord (banks : List FlashInfo) (offset : Nat) (loader : Loader) (text : List UInt8) :
    Next :=
  match srecDecode text with
  | .error _ => .stop (.aborted loader)
  | .empty => .more loader
  | .record type binlen addr data =>
      match type with
      | .data2 | .data3 | .data4 =>
          let storeAddr := (addr + offset) % 2 ^ 32
          match storeData banks loader storeAddr binlen (fun i => data.getD i 0) with
          | none => .stop (.aborted loader)
          | some loader => .more (extend loader storeAddr binlen)
      | .end2 | .end3 | .end4 =>
          .stop (.done addr (toUlong ((loader.endAddr : Int) - loader.startAddr + 1)) loader)
      | .start | .count => .more loader

/-- The loop of load_serial; a record takes at least one character. -/
def loadLoop (banks : List FlashInfo) (offset : Nat) :
    (fuel : Nat) → List UInt8 → Loader → Outcome
  | 0, _, _ => .waiting
  | fuel + 1, input, loader =>
      match readRecord srecMaxreclen [] input with
      | .waiting => .waiting
      | .aborted => .aborted loader
      | .record text rest =>
          match takeRecord banks offset loader text with
          | .stop outcome => outcome
          | .more loader => loadLoop banks offset fuel rest loader

def loadSerial (banks : List FlashInfo) (offset : Nat) (input : List UInt8)
    (memory : Nat → UInt8) (chip : Chip) : Outcome :=
  loadLoop banks offset (input.length + 1) input ⟨memory, chip, 2 ^ 32 - 1, 0⟩

section Saving

/-- The data records for bytes from an address on. -/
def records (address : Nat) (bytes : List UInt8) : List (Nat × List UInt8) :=
  if bytes = [] then []
  else (address, bytes.take srecBytesPerRecord) ::
    records ((address + srecBytesPerRecord) % 2 ^ 32) (bytes.drop srecBytesPerRecord)
termination_by bytes.length
decreasing_by
  have nonempty : 0 < bytes.length := List.length_pos_of_ne_nil ‹_›
  rw [List.length_drop, srecBytesPerRecord]
  omega

def recordText (record : Nat × List UInt8) : List UInt8 :=
  srec3Format (5 + record.2.length) record.1 (hexText record.2)
    (255 - (5 + record.2.length + sum (wordBytes record.1) + sum record.2) % 256)

/-- The loop state that has collected the bytes `held`. -/
def holding (address : Nat) (held : List UInt8) : Saver :=
  ⟨address, held.length, sum held, hexText held⟩

theorem records_nil (address : Nat) : records address [] = [] := by
  rw [records, if_pos rfl]

theorem records_cons (address : Nat) (bytes : List UInt8) (nonempty : bytes ≠ []) :
    records address bytes = (address, bytes.take srecBytesPerRecord) ::
      records ((address + srecBytesPerRecord) % 2 ^ 32) (bytes.drop srecBytesPerRecord) := by
  rw [records, if_neg nonempty]

theorem collect_holding (mem : Nat → UInt8) (address : Nat) (held : List UInt8) :
    collect mem (holding address held) =
      holding address (held ++ [mem ((address + held.length) % 2 ^ 32)]) := by
  simp [collect, holding, sum, hexText, hexByte]

theorem dump_holding (address : Nat) (held : List UInt8) (nonempty : held ≠ [])
    (short : held.length ≤ srecBytesPerRecord) :
    dump (holding address held) = [recordText (address, held)] := by
  have pending : held.length ≠ 0 := fun zero => nonempty (List.length_eq_zero_iff.mp zero)
  have length : 4 + held.length + 1 = 5 + held.length := by omega
  have lengthSum : ((List.range 2).map fun i => (5 + held.length) / 2 ^ (8 * i) % 256).sum =
      5 + held.length := by
    simp only [srecBytesPerRecord] at short
    simp [List.range_succ]
    omega
  have addressSum : ((List.range 4).map fun i => address / 2 ^ (8 * i) % 256).sum =
      sum (wordBytes address) := by
    simp [List.range_succ, sum, wordBytes]
    omega
  unfold dump recordText
  simp only [holding, if_neg pending, length, lengthSum, addressSum]
  congr 3
  omega

/-- The bytes from an address on, around the top of the address space. -/
def bytesFrom (mem : Nat → UInt8) (address count : Nat) : List UInt8 :=
  (List.range count).map fun i => mem ((address + i) % 2 ^ 32)

theorem bytes_from_succ (mem : Nat → UInt8) (address count : Nat) :
    bytesFrom mem address (count + 1) =
      mem (address % 2 ^ 32) :: bytesFrom mem (address + 1) count := by
  unfold bytesFrom
  rw [List.range_succ_eq_map, List.map_cons, List.map_map, Nat.add_zero]
  congr 1
  apply List.map_congr_left
  intro i _
  have shift : address + (i + 1) = address + 1 + i := by omega
  show mem ((address + (i + 1)) % 2 ^ 32) = mem ((address + 1 + i) % 2 ^ 32)
  rw [shift]

theorem bytes_from_mod (mem : Nat → UInt8) (address count : Nat) :
    bytesFrom mem (address % 2 ^ 32) count = bytesFrom mem address count := by
  simp [bytesFrom]

theorem after_dump_holding (address : Nat) (held : List UInt8)
    (full : held.length = srecBytesPerRecord) :
    afterDump (holding address held) = holding ((address + srecBytesPerRecord) % 2 ^ 32) [] := by
  unfold afterDump holding
  rw [full]
  rfl

/-- The records of the loop hold the collected bytes and those to come. -/
theorem save_loop_records (mem : Nat → UInt8) (count address : Nat) (held : List UInt8)
    (short : held.length < srecBytesPerRecord) (more : 0 < count) :
    saveLoop mem count (holding address held) =
      (records address (held ++ bytesFrom mem (address + held.length) count)).map recordText := by
  induction count generalizing address held with
  | zero => omega
  | succ count ih =>
      have grown : held ++ [mem ((address + held.length) % 2 ^ 32)] ≠ [] := by simp
      have length : (held ++ [mem ((address + held.length) % 2 ^ 32)]).length =
          held.length + 1 := by simp
      have bytes : held ++ bytesFrom mem (address + held.length) (count + 1) =
          held ++ [mem ((address + held.length) % 2 ^ 32)] ++
            bytesFrom mem (address + held.length + 1) count := by
        rw [bytes_from_succ]
        simp
      rw [bytes]
      unfold saveLoop
      rw [collect_holding]
      generalize held ++ [mem ((address + held.length) % 2 ^ 32)] = next at grown length
      rw [Nat.add_assoc, ← length]
      dsimp only
      by_cases last : count = 0
      · subst last
        rw [if_pos rfl, dump_holding address next grown (by omega)]
        have whole : next.take srecBytesPerRecord = next := List.take_of_length_le (by omega)
        have nothing : next.drop srecBytesPerRecord = [] := List.drop_of_length_le (by omega)
        simp [bytesFrom, records_cons address next grown, whole, nothing, records_nil]
      · rw [if_neg last]
        by_cases full : next.length = srecBytesPerRecord
        · have reclen : (holding address next).reclen = srecBytesPerRecord := full
          have rest := ih ((address + srecBytesPerRecord) % 2 ^ 32) [] (by decide) (by omega)
          rw [List.nil_append, List.length_nil, Nat.add_zero, bytes_from_mod] at rest
          rw [if_pos reclen, dump_holding address next grown (by omega),
            after_dump_holding address next full, rest,
            records_cons address (next ++ _) (by simp [grown]), full, ← full,
            List.take_left, List.drop_left, full]
          simp
        · have reclen : (holding address next).reclen ≠ srecBytesPerRecord := full
          rw [if_neg reclen]
          exact ih address next (by omega) (by omega)

theorem save_serial_records (mem : Nat → UInt8) (address count : Nat) :
    saveSerial mem address count =
      [srec3Start] ++ (records address (bytesFrom mem address count)).map recordText ++
        [srec3End] := by
  unfold saveSerial
  by_cases empty : count = 0
  · subst empty
    simp [saveLoop, dump, bytesFrom, records_nil]
  · have loop := save_loop_records mem count address [] (by decide) (by omega)
    rw [List.nil_append, List.length_nil, Nat.add_zero] at loop
    rw [← loop]
    rfl

end Saving

section Reading

/-- Characters that read_record keeps. -/
def Kept (text : List UInt8) : Prop := ∀ c ∈ text, 48 ≤ c.toNat

theorem kept_append {front back : List UInt8} (first : Kept front) (second : Kept back) :
    Kept (front ++ back) := by
  intro c member
  cases List.mem_append.mp member with
  | inl early => exact first c early
  | inr late => exact second c late

theorem hex_byte_kept (n : Nat) : Kept (hexByte n) := by
  have digit : ∀ m < 16, 48 ≤ (hexDigit m).toNat := by decide
  intro c member
  simp only [hexByte, List.mem_cons, List.not_mem_nil, or_false] at member
  rcases member with rfl | rfl
  · exact digit _ (Nat.mod_lt _ (by decide))
  · exact digit _ (Nat.mod_lt _ (by decide))

theorem hex_text_kept (bytes : List UInt8) : Kept (hexText bytes) := by
  intro c member
  obtain ⟨byte, -, digit⟩ := List.mem_flatMap.mp member
  exact hex_byte_kept byte.toNat c digit

theorem record_text_kept (record : Nat × List UInt8) : Kept (recordText record) := by
  have front : Kept (ascii "S3") := by
    unfold Kept
    decide +kernel
  exact kept_append (kept_append (kept_append (kept_append front (hex_byte_kept _))
    (hex_text_kept _)) (hex_text_kept _)) (hex_byte_kept _)

theorem hex_text_length (bytes : List UInt8) : (hexText bytes).length = 2 * bytes.length := by
  simp [hexText, hexByte, List.length_flatMap, Nat.mul_comm]

theorem record_text_length (record : Nat × List UInt8) :
    (recordText record).length = 14 + 2 * record.2.length := by
  simp only [recordText, srec3Format, List.length_append, hex_text_length, word_bytes_length]
  simp [hexByte, ascii]
  omega

theorem read_record_line (text rest : List UInt8) (stop : UInt8) (ends : stop = 13 ∨ stop = 10)
    (kept : Kept text) (room : Nat) (fits : text.length < room) (buf : List UInt8) :
    readRecord room buf (text ++ stop :: rest) = .record (buf ++ text) rest := by
  induction text generalizing room buf with
  | nil =>
      obtain ⟨room, rfl⟩ := Nat.exists_eq_add_one_of_ne_zero (show room ≠ 0 by omega)
      simp [readRecord, ends]
  | cons c text ih =>
      obtain ⟨room, rfl⟩ := Nat.exists_eq_add_one_of_ne_zero (show room ≠ 0 by omega)
      have large := kept c (List.mem_cons_self ..)
      have noEnd : ¬ (c = 13 ∨ c = 10) := by
        rintro (rfl | rfl) <;> exact absurd large (by decide)
      have noAbort : ¬ (c = 0 ∨ c = 3) := by
        rintro (rfl | rfl) <;> exact absurd large (by decide)
      have later := ih (fun d member => kept d (List.mem_cons_of_mem c member)) room
        (by simpa using fits) (buf ++ [c])
      rw [List.cons_append, readRecord, if_neg noEnd, if_neg noAbort, later]
      simp

variable {banks : List FlashInfo} {offset : Nat}

/-- A line whose record leaves the loop running. The line feed behind a carriage return is an
empty record of its own. -/
theorem load_loop_more (crlf : Bool) (text rest : List UInt8) (loader next : Loader)
    (kept : Kept text) (short : text.length < srecMaxreclen)
    (taken : takeRecord banks offset loader text = .more next) (fuel : Nat)
    (enough : (serialText crlf [text] ++ rest).length < fuel) :
    ∃ left, rest.length < left ∧
      loadLoop banks offset fuel (serialText crlf [text] ++ rest) loader =
        loadLoop banks offset left rest next := by
  obtain ⟨fuel, rfl⟩ := Nat.exists_eq_add_one_of_ne_zero (show fuel ≠ 0 by omega)
  cases crlf with
  | false =>
      have line : serialText false [text] ++ rest = text ++ 10 :: rest := by simp [serialText]
      have read := read_record_line text rest 10 (Or.inr rfl) kept srecMaxreclen short []
      rw [line] at enough ⊢
      refine ⟨fuel, by simp at enough; omega, ?_⟩
      rw [loadLoop, read]
      simp only [List.nil_append, taken]
  | true =>
      have line : serialText true [text] ++ rest = text ++ 13 :: 10 :: rest := by
        simp [serialText]
      have read := read_record_line text (10 :: rest) 13 (Or.inl rfl) kept srecMaxreclen short []
      have blank : readRecord srecMaxreclen [] (10 :: rest) = .record [] rest :=
        read_record_line [] rest 10 (Or.inr rfl) (fun _ member => by cases member) srecMaxreclen
          (by decide) []
      rw [line] at enough ⊢
      simp only [List.length_append, List.length_cons] at enough
      obtain ⟨fuel, rfl⟩ := Nat.exists_eq_add_one_of_ne_zero (show fuel ≠ 0 by omega)
      refine ⟨fuel, by omega, ?_⟩
      rw [loadLoop, read]
      simp only [List.nil_append, taken]
      rw [loadLoop, blank]
      rfl

/-- The effect of a data record on RAM. -/
def place (loader : Loader) (record : Nat × List UInt8) : Loader :=
  extend { loader with
    memory := copy (2 ^ 32) loader.memory record.1 (fun i => record.2.getD i 0) record.2.length }
    record.1 record.2.length

/-- A record as save_serial makes it, for a RAM target. -/
structure Loadable (banks : List FlashInfo) (record : Nat × List UInt8) : Prop where
  address : record.1 < 2 ^ 32
  short : record.2.length ≤ srecBytesPerRecord
  ram : addr2info banks record.1 = none

theorem take_record_data (loader : Loader) (record : Nat × List UInt8)
    (loadable : Loadable banks record) :
    takeRecord banks 0 loader (recordText record) = .more (place loader record) := by
  obtain ⟨address, short, ram⟩ := loadable
  simp only [srecBytesPerRecord] at short
  have decoded := srec_decode_data record.1 record.2 _ address (by omega) rfl
  have target : (record.1 + 0) % 2 ^ 32 = record.1 := Nat.mod_eq_of_lt address
  have size : toUlong record.2.length = record.2.length := by
    unfold toUlong
    omega
  unfold takeRecord recordText
  rw [decoded]
  simp only [target, storeData, ram, Option.isSome_none, Bool.false_eq_true, if_false, size]
  rfl

theorem load_records (crlf : Bool) (data : List (Nat × List UInt8)) (rest : List UInt8)
    (loadable : ∀ record ∈ data, Loadable banks record) (loader : Loader) (fuel : Nat)
    (enough : (serialText crlf (data.map recordText) ++ rest).length < fuel) :
    ∃ left, rest.length < left ∧
      loadLoop banks 0 fuel (serialText crlf (data.map recordText) ++ rest) loader =
        loadLoop banks 0 left rest (data.foldl place loader) := by
  induction data generalizing loader fuel with
  | nil => exact ⟨fuel, enough, rfl⟩
  | cons record data ih =>
      have first := loadable record (List.mem_cons_self ..)
      have short := first.short
      have split : serialText crlf ((record :: data).map recordText) ++ rest =
          serialText crlf [recordText record] ++
            (serialText crlf (data.map recordText) ++ rest) := by
        simp [serialText]
      rw [split] at enough ⊢
      obtain ⟨middle, room, step⟩ := load_loop_more crlf (recordText record) _ loader
        (place loader record) (record_text_kept record)
        (by
          rw [record_text_length]
          simp only [srecBytesPerRecord] at short
          simp only [srecMaxreclen]
          omega)
        (take_record_data loader record first) fuel enough
      obtain ⟨left, remains, steps⟩ := ih
        (fun other member => loadable other (List.mem_cons_of_mem record member))
        (place loader record) middle room
      exact ⟨left, remains, step.trans steps⟩

/-- The whole text of save_serial, with its data records. -/
theorem load_saved (crlf : Bool) (data : List (Nat × List UInt8)) (memory : Nat → UInt8)
    (chip : Chip) (loadable : ∀ record ∈ data, Loadable banks record) :
    let final := data.foldl place ⟨memory, chip, 2 ^ 32 - 1, 0⟩
    loadSerial banks 0 (serialText crlf ([srec3Start] ++ data.map recordText ++ [srec3End]))
        memory chip =
      .done 0 (toUlong ((final.endAddr : Int) - final.startAddr + 1)) final := by
  have split : serialText crlf ([srec3Start] ++ data.map recordText ++ [srec3End]) =
      serialText crlf [srec3Start] ++
        (serialText crlf (data.map recordText) ++ serialText crlf [srec3End]) := by
    simp [serialText]
  have startKept : Kept srec3Start := by
    unfold Kept
    decide +kernel
  have startTaken : takeRecord banks 0 ⟨memory, chip, 2 ^ 32 - 1, 0⟩ srec3Start =
      .more ⟨memory, chip, 2 ^ 32 - 1, 0⟩ := rfl
  unfold loadSerial
  rw [split]
  obtain ⟨middle, room, step⟩ := load_loop_more crlf srec3Start
    (serialText crlf (data.map recordText) ++ serialText crlf [srec3End]) _ _ startKept (by decide)
    startTaken _ (Nat.lt_succ_self _)
  obtain ⟨left, remains, steps⟩ := load_records crlf data (serialText crlf [srec3End]) loadable
    ⟨memory, chip, 2 ^ 32 - 1, 0⟩ middle room
  rw [step, steps]
  obtain ⟨left, rfl⟩ := Nat.exists_eq_add_one_of_ne_zero (show left ≠ 0 by omega)
  have ended : ∃ rest, readRecord srecMaxreclen [] (serialText crlf [srec3End]) =
      .record srec3End rest := by
    cases crlf with
    | false => exact ⟨[], rfl⟩
    | true => exact ⟨[10], rfl⟩
  obtain ⟨rest, read⟩ := ended
  rw [loadLoop, read]
  rfl

end Reading

section Extent

theorem records_loadable (banks : List FlashInfo) (address : Nat) (bytes : List UInt8)
    (bound : address < 2 ^ 32)
    (ram : ∀ i < bytes.length, addr2info banks ((address + i) % 2 ^ 32) = none) :
    ∀ record ∈ records address bytes, Loadable banks record := by
  induction address, bytes using records.induct with
  | case1 address =>
      rw [records_nil]
      intro record member
      cases member
  | case2 address bytes nonempty ih =>
      have positive := List.length_pos_of_ne_nil nonempty
      rw [records_cons address bytes nonempty]
      intro record member
      rcases List.mem_cons.mp member with rfl | later
      · refine ⟨bound, by simp [srecBytesPerRecord], ?_⟩
        have here := ram 0 positive
        rwa [Nat.add_zero, Nat.mod_eq_of_lt bound] at here
      · refine ih (Nat.mod_lt _ (by decide)) ?_ record later
        intro i inside
        rw [List.length_drop] at inside
        have there := ram (srecBytesPerRecord + i) (by omega)
        rw [Nat.mod_add_mod]
        rwa [← Nat.add_assoc] at there

theorem place_chip (data : List (Nat × List UInt8)) (loader : Loader) :
    (data.foldl place loader).chip = loader.chip := by
  induction data generalizing loader with
  | nil => rfl
  | cons record data ih => exact ih (place loader record)

theorem place_one (loader : Loader) (record : Nat × List UInt8) :
    (place loader record).memory = copy (2 ^ 32) loader.memory record.1
      (fun i => record.2.getD i 0) record.2.length := by
  simp only [place, extend]

theorem place_memory (address : Nat) (bytes : List UInt8) (loader : Loader)
    (fits : bytes.length ≤ 2 ^ 32) :
    ((records address bytes).foldl place loader).memory =
      copy (2 ^ 32) loader.memory address (fun i => bytes.getD i 0) bytes.length := by
  induction address, bytes using records.induct generalizing loader with
  | case1 address =>
      rw [records_nil, List.length_nil, copy_zero]
      rfl
  | case2 address bytes nonempty ih =>
      rw [records_cons address bytes nonempty, List.foldl_cons,
        ih _ (by rw [List.length_drop]; omega)]
      have front : (place loader (address, bytes.take srecBytesPerRecord)).memory =
          copy (2 ^ 32) loader.memory address (fun i => bytes.getD i 0)
            (bytes.take srecBytesPerRecord).length := by
        rw [place_one]
        apply copy_congr
        intro i inside
        rw [List.length_take] at inside
        have early : i < srecBytesPerRecord := by omega
        simp [List.getD_eq_getElem?_getD, early]
      rw [front]
      by_cases whole : srecBytesPerRecord ≤ bytes.length
      · have back : (fun i => (bytes.drop srecBytesPerRecord).getD i 0) =
            fun i => bytes.getD (srecBytesPerRecord + i) 0 := by
          funext i
          simp [List.getD_eq_getElem?_getD]
        have lengths : (bytes.take srecBytesPerRecord).length = srecBytesPerRecord := by
          rw [List.length_take]
          omega
        rw [back, lengths, List.length_drop,
          copy_copy (2 ^ 32) loader.memory (fun i => bytes.getD i 0) address srecBytesPerRecord _
            (by omega)]
        congr 1
        omega
      · have nothing : bytes.drop srecBytesPerRecord = [] := List.drop_of_length_le (by omega)
        have everything : bytes.take srecBytesPerRecord = bytes :=
          List.take_of_length_le (by omega)
        rw [nothing, everything, List.length_nil, copy_zero]

theorem place_start (loader : Loader) (record : Nat × List UInt8) :
    (place loader record).startAddr = min loader.startAddr record.1 := by
  simp only [place, extend]
  split <;> omega

theorem place_end (loader : Loader) (record : Nat × List UInt8) :
    (place loader record).endAddr =
      max loader.endAddr (toUlong ((record.1 : Int) + record.2.length - 1)) := by
  simp only [place, extend]
  split <;> omega

/-- Records that stay below the top of the address space. -/
theorem run_extent (address : Nat) (bytes : List UInt8) (loader : Loader) (nonempty : bytes ≠ [])
    (fits : address + bytes.length ≤ 2 ^ 32) :
    ((records address bytes).foldl place loader).startAddr = min loader.startAddr address ∧
      ((records address bytes).foldl place loader).endAddr =
        max loader.endAddr (address + bytes.length - 1) := by
  induction address, bytes using records.induct generalizing loader with
  | case1 address => exact absurd rfl nonempty
  | case2 address bytes _ ih =>
      have positive := List.length_pos_of_ne_nil nonempty
      have first := place_start loader (address, bytes.take srecBytesPerRecord)
      have last := place_end loader (address, bytes.take srecBytesPerRecord)
      have front : (bytes.take srecBytesPerRecord).length = min 16 bytes.length := by
        rw [List.length_take]
        rfl
      have back : (bytes.drop srecBytesPerRecord).length = bytes.length - 16 := by
        rw [List.length_drop]
        rfl
      have word : toUlong ((address : Int) + (bytes.take srecBytesPerRecord).length - 1) =
          address + min 16 bytes.length - 1 := by
        rw [front]
        unfold toUlong
        omega
      dsimp only at first last
      rw [word] at last
      rw [records_cons address bytes nonempty, List.foldl_cons]
      by_cases done : bytes.drop srecBytesPerRecord = []
      · rw [done, List.length_nil] at back
        rw [done, records_nil, List.foldl_nil, first, last]
        constructor
        · rfl
        · congr 1
          omega
      · have more := List.length_pos_of_ne_nil done
        have onward : (address + srecBytesPerRecord) % 2 ^ 32 = address + 16 := by
          simp only [srecBytesPerRecord]
          omega
        have later := ih (place loader (address, bytes.take srecBytesPerRecord)) done
          (by rw [onward, back]; omega)
        have upper : address + min 16 bytes.length - 1 ≤ address + bytes.length - 1 :=
          Nat.sub_le_sub_right (Nat.add_le_add_left (Nat.min_le_right _ _) address) 1
        have top : address + 16 + (bytes.length - 16) - 1 = address + bytes.length - 1 := by omega
        rw [later.1, later.2, first, last, onward, back, top, min_assoc,
          min_eq_left (Nat.le_add_right address 16), max_assoc, max_eq_right upper]
        exact ⟨rfl, rfl⟩

/-- Whole records in front stay as they are. -/
theorem records_append (count address : Nat) (front back : List UInt8) (bound : address < 2 ^ 32)
    (whole : front.length = 16 * count) :
    records address (front ++ back) =
      records address front ++ records ((address + front.length) % 2 ^ 32) back := by
  induction count generalizing address front with
  | zero =>
      have nothing : front = [] := List.length_eq_zero_iff.mp (by omega)
      subst nothing
      rw [records_nil, List.length_nil, Nat.add_zero, Nat.mod_eq_of_lt bound]
      rfl
  | succ count ih =>
      have nonempty : front ≠ [] := by
        rintro rfl
        simp at whole
      have room : srecBytesPerRecord ≤ front.length := by
        simp only [srecBytesPerRecord]
        omega
      have length : (front.drop srecBytesPerRecord).length = 16 * count := by
        rw [List.length_drop]
        simp only [srecBytesPerRecord]
        omega
      have later := ih ((address + srecBytesPerRecord) % 2 ^ 32) (front.drop srecBytesPerRecord)
        (Nat.mod_lt _ (by decide)) length
      rw [records_cons address (front ++ back) (by simp [nonempty]),
        records_cons address front nonempty, List.take_append_of_le_length room,
        List.drop_append_of_le_length room, later, List.cons_append]
      congr 3
      rw [Nat.mod_add_mod, length, whole]
      simp only [srecBytesPerRecord]
      congr 1
      omega

/-- The size that load_serial computes from its two addresses. -/
def reportedSize (loader : Loader) : Nat :=
  toUlong ((loader.endAddr : Int) - loader.startAddr + 1)

/-- The sizes that come out right. An image around the top of the address space is measured from
its lowest record to its highest one. -/
def Reported (address count : Nat) : Prop :=
  count ≠ 0 ∧ (address + count ≤ 2 ^ 32 ∨ count ≤ 16 ∨
    (count = 2 ^ 32 - 16 ∧ address % 16 ≠ 0 ∧ 32 + address % 16 ≤ address ∧
      address + 16 < 2 ^ 32))

section Wrapped
variable (memory : Nat → UInt8) (chip : Chip) (address : Nat) (bytes : List UInt8)

theorem reported_below (nonempty : bytes ≠ []) (fits : address + bytes.length ≤ 2 ^ 32)
    (bound : bytes.length < 2 ^ 32) :
    reportedSize ((records address bytes).foldl place ⟨memory, chip, 2 ^ 32 - 1, 0⟩) =
      bytes.length := by
  have positive := List.length_pos_of_ne_nil nonempty
  obtain ⟨first, last⟩ := run_extent address bytes ⟨memory, chip, 2 ^ 32 - 1, 0⟩ nonempty fits
  dsimp only at first last
  unfold reportedSize toUlong
  rw [first, last]
  omega

/-- One record that passes the top, and what comes behind it. -/
theorem straddling_extent (loader : Loader) (nonempty : bytes ≠ []) (below : address < 2 ^ 32)
    (above : 2 ^ 32 < address + min 16 bytes.length) (room : address + bytes.length ≤ 2 ^ 33) :
    let final := (records address bytes).foldl place loader
    if bytes.length ≤ 16 then
      final.startAddr = min loader.startAddr address ∧
        final.endAddr = max loader.endAddr (address + bytes.length - 1 - 2 ^ 32)
    else
      final.startAddr = min loader.startAddr (address + 16 - 2 ^ 32) ∧
        final.endAddr = max loader.endAddr (address + bytes.length - 1 - 2 ^ 32) := by
  have first := place_start loader (address, bytes.take srecBytesPerRecord)
  have last := place_end loader (address, bytes.take srecBytesPerRecord)
  have front : (bytes.take srecBytesPerRecord).length = min 16 bytes.length := by
    rw [List.length_take]
    rfl
  have back : (bytes.drop srecBytesPerRecord).length = bytes.length - 16 := by
    rw [List.length_drop]
    rfl
  have word : toUlong ((address : Int) + (bytes.take srecBytesPerRecord).length - 1) =
      address + min 16 bytes.length - 1 - 2 ^ 32 := by
    rw [front]
    unfold toUlong
    omega
  dsimp only at first last
  rw [word] at last
  dsimp only
  rw [records_cons address bytes nonempty, List.foldl_cons]
  split
  · have done : bytes.drop srecBytesPerRecord = [] :=
      List.length_eq_zero_iff.mp (by omega)
    have whole : min 16 bytes.length = bytes.length := by omega
    rw [done, records_nil, List.foldl_nil, first, last, whole]
    exact ⟨rfl, rfl⟩
  · have more : bytes.drop srecBytesPerRecord ≠ [] := by
      intro done
      rw [done, List.length_nil] at back
      omega
    have onward : (address + srecBytesPerRecord) % 2 ^ 32 = address + 16 - 2 ^ 32 := by
      simp only [srecBytesPerRecord]
      omega
    have later := run_extent (address + 16 - 2 ^ 32) (bytes.drop srecBytesPerRecord)
      (place loader (address, bytes.take srecBytesPerRecord)) more (by rw [back]; omega)
    have sixteen : min 16 bytes.length = 16 := Nat.min_eq_left (by omega)
    rw [sixteen] at above last
    have lower : address + 16 - 2 ^ 32 ≤ address := by omega
    have upper : address + 16 - 1 - 2 ^ 32 ≤ address + bytes.length - 1 - 2 ^ 32 :=
      Nat.sub_le_sub_right (by omega) (2 ^ 32)
    have top : address + 16 - 2 ^ 32 + (bytes.length - 16) - 1 = address + bytes.length - 1 - 2 ^ 32 := by
      omega
    rw [onward, later.1, later.2, first, last, back, top, min_assoc, min_eq_right lower, max_assoc,
      max_eq_right upper]
    exact ⟨rfl, rfl⟩

/-- The whole records below the top. -/
theorem below_extent (count : Nat) (front : List UInt8) (bound : address < 2 ^ 32)
    (whole : front.length = 16 * count) (fits : address + front.length ≤ 2 ^ 32) :
    let loader := (records address front).foldl place ⟨memory, chip, 2 ^ 32 - 1, 0⟩
    loader.startAddr = (if count = 0 then 2 ^ 32 - 1 else address) ∧
      loader.endAddr = if count = 0 then 0 else address + 16 * count - 1 := by
  dsimp only
  by_cases empty : count = 0
  · have nothing : front = [] := List.length_eq_zero_iff.mp (by omega)
    rw [if_pos empty, if_pos empty, nothing, records_nil, List.foldl_nil]
    exact ⟨rfl, rfl⟩
  · have nonempty : front ≠ [] := by
      rintro rfl
      simp only [List.length_nil] at whole
      omega
    obtain ⟨first, last⟩ :=
      run_extent address front ⟨memory, chip, 2 ^ 32 - 1, 0⟩ nonempty fits
    rw [if_neg empty, if_neg empty, first, last]
    dsimp only
    omega

/-- The largest image that is still measured right: it covers all but sixteen bytes. -/
theorem around_iff (pages top address count length : Nat) (aligned : top = 16 * pages)
    (inside : top ≠ address + 16 * count) (first : count ≠ 0)
    (near : top - address < 16 * count + 16) (far : address + 16 * count ≤ top)
    (long : 16 < length - 16 * count) :
    top - 16 = length ↔ length ≠ 0 ∧ (address + length ≤ top ∨ length ≤ 16 ∨
      (length = top - 16 ∧ address % 16 ≠ 0 ∧ 32 + address % 16 ≤ address ∧
        address + 16 < top)) := by
  constructor
  · intro same
    have unaligned : address % 16 ≠ 0 := by omega
    have high : 32 + address % 16 ≤ address := by omega
    exact ⟨by omega, Or.inr (Or.inr ⟨same.symm, unaligned, high, by omega⟩)⟩
  · rintro ⟨-, fits | short | ⟨same, -, -, -⟩⟩
    · omega
    · omega
    · exact same.symm

/-- What stands around the top is not measured right otherwise. -/
theorem not_reported (pages top address count length : Nat) (aligned : top = 16 * pages)
    (wraps : top < address + length) (long : 16 < length)
    (other : address + 16 * count = top ∨ length ≤ 16 * count + 16)
    (far : address + 16 * count ≤ top) :
    ¬ (length ≠ 0 ∧ (address + length ≤ top ∨ length ≤ 16 ∨
      (length = top - 16 ∧ address % 16 ≠ 0 ∧ 32 + address % 16 ≤ address ∧
        address + 16 < top))) := by
  rintro ⟨-, fits | short | ⟨same, unaligned, high, -⟩⟩
  · omega
  · omega
  · rcases other with boundary | last
    · exact unaligned (by omega)
    · omega

theorem extent_size (loader : Loader) (size : Nat) (bound : size < 2 ^ 32)
    (extent : loader.endAddr + 1 = loader.startAddr + size) : reportedSize loader = size := by
  unfold reportedSize toUlong
  omega

/-- The records in front of the top, and the rest from the top on. -/
theorem wrapped_split (below : address < 2 ^ 32) (wraps : 2 ^ 32 < address + bytes.length)
    (count : Nat) (far : address + 16 * count ≤ 2 ^ 32) :
    ∃ loader, (records address bytes).foldl place ⟨memory, chip, 2 ^ 32 - 1, 0⟩ =
        (records ((address + 16 * count) % 2 ^ 32) (bytes.drop (16 * count))).foldl place loader ∧
      loader.startAddr = (if count = 0 then 2 ^ 32 - 1 else address) ∧
      loader.endAddr = if count = 0 then 0 else address + 16 * count - 1 := by
  have frontLength : (bytes.take (16 * count)).length = 16 * count := by
    rw [List.length_take]
    omega
  have split := records_append count address (bytes.take (16 * count))
    (bytes.drop (16 * count)) below frontLength
  rw [List.take_append_drop, frontLength] at split
  refine ⟨(records address (bytes.take (16 * count))).foldl place ⟨memory, chip, 2 ^ 32 - 1, 0⟩,
    ?_, below_extent memory chip address count (bytes.take (16 * count)) below frontLength
      (by omega)⟩
  rw [split, List.foldl_append]

theorem reported_wrapped (below : address < 2 ^ 32) (long : 16 < bytes.length)
    (wraps : 2 ^ 32 < address + bytes.length) (bound : bytes.length < 2 ^ 32) :
    reportedSize ((records address bytes).foldl place ⟨memory, chip, 2 ^ 32 - 1, 0⟩) =
      bytes.length ↔ Reported address bytes.length := by
  obtain ⟨count, near, far⟩ : ∃ count, 2 ^ 32 - address < 16 * count + 16 ∧
      address + 16 * count ≤ 2 ^ 32 := ⟨(2 ^ 32 - address) / 16, by omega, by omega⟩
  obtain ⟨loader, split, first, last⟩ :=
    wrapped_split memory chip address bytes below wraps count far
  have backLength : (bytes.drop (16 * count)).length = bytes.length - 16 * count :=
    List.length_drop
  have back : bytes.drop (16 * count) ≠ [] := by
    intro nothing
    rw [nothing, List.length_nil] at backLength
    omega
  have aligned : 2 ^ 32 = 16 * 2 ^ 28 := by norm_num
  have fails := not_reported (2 ^ 28) (2 ^ 32) address count bytes.length aligned wraps long
  rw [split]
  by_cases boundary : address + 16 * count = 2 ^ 32
  · -- The last record below the top ends at its very end, and the next one starts at 0.
    have zero : (address + 16 * count) % 2 ^ 32 = 0 := by omega
    obtain ⟨start, finish⟩ := run_extent 0 (bytes.drop (16 * count)) loader back (by omega)
    have several : count ≠ 0 := by omega
    rw [if_neg several] at first last
    rw [zero]
    have size : reportedSize ((records 0 (bytes.drop (16 * count))).foldl place loader) = 0 := by
      unfold reportedSize toUlong
      rw [start, finish, last, Nat.min_eq_right (Nat.zero_le _), Nat.max_eq_left (by omega)]
      omega
    rw [size]
    exact ⟨fun same => by omega, fun reported => absurd reported (fails (Or.inl boundary) far)⟩
  · have onward : (address + 16 * count) % 2 ^ 32 = address + 16 * count := by omega
    have straddles := straddling_extent (address + 16 * count) (bytes.drop (16 * count)) loader back
      (by omega) (by omega) (by omega)
    dsimp only at straddles
    rw [backLength] at straddles
    rw [onward]
    by_cases done : bytes.length - 16 * count ≤ 16
    · -- The record around the top is the last one.
      rw [if_pos done] at straddles
      obtain ⟨start, finish⟩ := straddles
      have several : count ≠ 0 := by
        rintro rfl
        omega
      rw [if_neg several] at first last
      have size := extent_size _ (16 * count) (by omega)
        (show _ = _ by
          rw [start, finish, first, last]
          clear start finish first last fails
          rw [Nat.min_eq_left (by omega), Nat.max_eq_left (by omega)]
          omega)
      rw [size]
      clear start finish first last
      exact ⟨fun same => by omega,
        fun reported => absurd reported (fails (Or.inr (by omega)) far)⟩
    · rw [if_neg done] at straddles
      obtain ⟨start, finish⟩ := straddles
      by_cases none : count = 0
      · rw [if_pos none] at first last
        have size := extent_size _ (bytes.length - 16) (by omega)
          (show _ = _ by
            rw [start, finish, first, last]
            clear start finish first last fails
            rw [Nat.min_eq_right (by omega), Nat.max_eq_right (by omega)]
            omega)
        rw [size]
        clear start finish first last fails
        refine ⟨fun same => by omega, ?_⟩
        rintro ⟨-, fits | short | ⟨-, -, -, room⟩⟩ <;> omega
      · rw [if_neg none] at first last
        have size := extent_size _ (2 ^ 32 - 16) (by omega)
          (show _ = _ by
            rw [start, finish, first, last]
            clear start finish first last fails
            rw [Nat.min_eq_right (by omega), Nat.max_eq_left (by omega)]
            omega)
        rw [size]
        exact around_iff (2 ^ 28) (2 ^ 32) address count bytes.length aligned
          (fun same => boundary same.symm) none near far (by omega)

end Wrapped

theorem reported_iff (memory : Nat → UInt8) (chip : Chip) (address : Nat) (bytes : List UInt8)
    (below : address < 2 ^ 32) (bound : bytes.length < 2 ^ 32) :
    reportedSize ((records address bytes).foldl place ⟨memory, chip, 2 ^ 32 - 1, 0⟩) =
      bytes.length ↔ Reported address bytes.length := by
  by_cases empty : bytes = []
  · rw [empty, records_nil]
    have two : reportedSize ⟨memory, chip, 2 ^ 32 - 1, 0⟩ = 2 := rfl
    constructor
    · intro same
      rw [List.foldl_nil, two] at same
      cases same
    · intro reported
      exact absurd rfl reported.1
  have positive := List.length_pos_of_ne_nil empty
  by_cases fits : address + bytes.length ≤ 2 ^ 32
  · rw [reported_below memory chip address bytes empty fits bound]
    exact ⟨fun _ => ⟨by omega, Or.inl fits⟩, fun _ => rfl⟩
  by_cases short : bytes.length ≤ 16
  · have single := straddling_extent address bytes ⟨memory, chip, 2 ^ 32 - 1, 0⟩ empty below
      (by omega) (by omega)
    dsimp only at single
    rw [if_pos short] at single
    have size : reportedSize ((records address bytes).foldl place ⟨memory, chip, 2 ^ 32 - 1, 0⟩) =
        bytes.length := by
      unfold reportedSize toUlong
      rw [single.1, single.2, Nat.min_eq_right (by omega), Nat.max_eq_right (Nat.zero_le _)]
      omega
    rw [size]
    exact ⟨fun _ => ⟨by omega, Or.inr (Or.inl short)⟩, fun _ => rfl⟩
  · exact reported_wrapped memory chip address bytes below (by omega) (by omega) bound

end Extent

section RoundTrip

/-- load_serial brings back the bytes of an image, and no others, and reports its size. -/
def Restores (banks : List FlashInfo) (chip : Chip) (saved before : Nat → UInt8) (crlf : Bool)
    (address count : Nat) : Prop :=
  ∃ addr loader, loadSerial banks 0 (serialText crlf (saveSerial saved address count)) before chip =
      .done addr count loader ∧
    loader.chip = chip ∧
    ∀ a < 2 ^ 32, loader.memory a =
      if (a + (2 ^ 32 - address)) % 2 ^ 32 < count then saved a else before a

theorem restored_memory (saved before : Nat → UInt8) (chip : Chip) (address count : Nat)
    (below : address < 2 ^ 32) (bound : count < 2 ^ 32) (a : Nat) (inside : a < 2 ^ 32) :
    ((records address (bytesFrom saved address count)).foldl place
        ⟨before, chip, 2 ^ 32 - 1, 0⟩).memory a =
      if (a + (2 ^ 32 - address)) % 2 ^ 32 < count then saved a else before a := by
  have length : (bytesFrom saved address count).length = count := by simp [bytesFrom]
  rw [place_memory _ _ _ (by omega), length]
  simp only [copy, Nat.mod_eq_of_lt below]
  by_cases covered : (a + (2 ^ 32 - address)) % 2 ^ 32 < count
  · rw [if_pos covered, if_pos covered]
    have back : (address + (a + (2 ^ 32 - address)) % 2 ^ 32) % 2 ^ 32 = a := by omega
    have byte : (bytesFrom saved address count)[(a + (2 ^ 32 - address)) % 2 ^ 32]? =
        some (saved a) := by
      unfold bytesFrom
      rw [List.getElem?_map, List.getElem?_range covered, Option.map_some, back]
    rw [List.getD_eq_getElem?_getD, byte]
    rfl
  · rw [if_neg covered, if_neg covered]

theorem s_record_round_trip_iff (banks : List FlashInfo) (chip : Chip)
    (saved before : Nat → UInt8) (crlf : Bool) (address count : UInt32)
    (ram : ∀ i < count.toNat, addr2info banks ((address.toNat + i) % 2 ^ 32) = none) :
    Restores banks chip saved before crlf address.toNat count.toNat ↔
      Reported address.toNat count.toNat := by
  have below := address.toNat_lt
  have bound := count.toNat_lt
  have length : (bytesFrom saved address.toNat count.toNat).length = count.toNat := by
    simp [bytesFrom]
  have loadable := records_loadable banks address.toNat
    (bytesFrom saved address.toNat count.toNat) below (by rwa [length])
  have loaded := load_saved crlf _ before chip loadable
  rw [← save_serial_records] at loaded
  have reported := reported_iff before chip address.toNat
    (bytesFrom saved address.toNat count.toNat) below (by rwa [length])
  rw [length] at reported
  constructor
  · rintro ⟨addr, loader, done, -, -⟩
    rw [loaded] at done
    injection done with _ size _
    exact reported.mp size
  · intro right
    refine ⟨0, _, ?_, place_chip _ _, restored_memory saved before chip _ _ below bound⟩
    rw [loaded]
    have size := reported.mpr right
    unfold reportedSize at size
    rw [size]

theorem twenty_bytes_restored : Restores [] (fun _ => 0xff) (fun a => UInt8.ofNat a) (fun _ => 0)
    true (0x80000000 : UInt32).toNat (20 : UInt32).toNat :=
  (s_record_round_trip_iff [] (fun _ => 0xff) (fun a => UInt8.ofNat a) (fun _ => 0) true 0x80000000 20
    (fun _ _ => rfl)).mpr ⟨by decide, Or.inl (by decide)⟩

/-- The empty image is reported with two bytes. -/
theorem empty_image_size :
    ¬ ∀ banks chip saved before crlf (address count : UInt32),
      (∀ i < count.toNat, addr2info banks ((address.toNat + i) % 2 ^ 32) = none) →
      Restores banks chip saved before crlf address.toNat count.toNat := by
  intro always
  obtain ⟨addr, loader, done, -⟩ := always [] (fun _ => 0xff) (fun _ => 0) (fun _ => 0) false
    0x80000000 0 (fun _ _ => rfl)
  have two : ∃ final, loadSerial [] 0 (serialText false (saveSerial (fun _ => 0)
      (0x80000000 : UInt32).toNat (0 : UInt32).toNat)) (fun _ => 0) (fun _ => 0xff) =
        .done 0 2 final := ⟨_, rfl⟩
  obtain ⟨final, two⟩ := two
  rw [two] at done
  injection done with _ size _
  exact absurd size (by decide)

end RoundTrip

end UBoot.Load.Loads
