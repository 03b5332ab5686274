import UBoot.Library.BoundedQueue
import UBoot.Library.Memory
import UBoot.Library.Runs
import UBoot.Lib.Strings

/-!
The input of drivers/netconsole.c: nc_input_packet and nc_getc. Packets arrive between the calls, and in
batches while nc_getc waits in NetLoop.
-/

namespace UBoot.Net.NetConsole

open Library.BoundedQueue Library.Memory Library.Runs Lib.Strings

def sizeofInputBuffer : Nat := 512

structure Console where
  inputBuffer : Nat → UInt8
  inputSize : Nat
  inputOffset : Nat
  /-- A short. -/
  ncPort : Int

structure Packet where
  dest : Nat
  src : Nat
  len : Nat
  /-- The memory from `pkt` on. -/
  pkt : Nat → UInt8

/-- The result of nc_input_packet, and the console. -/
def ncInputPacket (console : Console) (packet : Packet) : Nat × Console :=
  -- not for us
  if packet.dest ≠ toUlong console.ncPort ∨ packet.len = 0 then (0, console)
  -- no space
  else if console.inputSize = sizeofInputBuffer then (1, console)
  else
    let len := if packet.len > sizeofInputBuffer - console.inputSize
      then sizeofInputBuffer - console.inputSize else packet.len
    let last := console.inputOffset + console.inputSize
    let last := if last > sizeofInputBuffer then last - sizeofInputBuffer else last
    let chunk := if last + len > sizeofInputBuffer then sizeofInputBuffer - last else len
    let wrapped := if last + len > sizeofInputBuffer
      then splice console.inputBuffer 0 (slice packet.pkt chunk (len - chunk)) else console.inputBuffer
    (1, { console with
      inputBuffer := splice wrapped last (slice packet.pkt 0 chunk)
      inputSize := console.inputSize + len })

def received (console : Console) (packet : Packet) : Console := (ncInputPacket console packet).2

/-- The wait of nc_getc: each NetLoop brings a batch of packets. It is not over where nothing comes. -/
def netLoops (console : Console) : List (List Packet) → Option Console
  | [] => if console.inputSize = 0 then none else some console
  | batch :: rest =>
      if console.inputSize = 0 then netLoops (batch.foldl received console) rest else none

def ncGetc (console : Console) (batches : List (List Packet)) : Option (UInt8 × Console) :=
  (netLoops console batches).map fun console =>
    let c := console.inputBuffer console.inputOffset
    let inputOffset := console.inputOffset + 1
    (c, { console with
      inputOffset :=
        if inputOffset ≥ sizeofInputBuffer then inputOffset - sizeofInputBuffer else inputOffset
      inputSize := console.inputSize - 1 })

inductive Event where
  | packet (packet : Packet)
  | getc (batches : List (List Packet))

/-- The console and what nc_getc has returned. -/
structure State where
  console : Console
  returned : List UInt8

def perform (state : State) : Event → Option State
  | .packet packet => some { state with console := received state.console packet }
  | .getc batches => (ncGetc state.console batches).map fun read =>
      ⟨read.2, state.returned ++ [read.1]⟩

def Step (before : State) (event : Event) (after : State) : Prop := perform before event = some after

/-! ### What fits -/

/-- The prefixes that have been taken in, and how many characters have been taken out. -/
structure Account where
  prefixes : List (List UInt8)
  taken : Nat

/-- The longest prefix of a packet that fits. -/
def Account.arrive (ncPort : Int) (account : Account) (packet : Packet) : Account :=
  if packet.dest = toUlong ncPort then
    { account with
      prefixes := account.prefixes ++ [(slice packet.pkt 0 packet.len).take
        (sizeofInputBuffer - (account.prefixes.flatten.length - account.taken))] }
  else account

def Account.next (ncPort : Int) (account : Account) : Event → Account
  | .packet packet => account.arrive ncPort packet
  | .getc batches =>
      let account := batches.flatten.foldl (Account.arrive ncPort) account
      { account with taken := account.taken + 1 }

/-- The characters in the buffer. -/
def pending (console : Console) : List UInt8 :=
  (List.range console.inputSize).map fun i =>
    console.inputBuffer ((console.inputOffset + i) % sizeofInputBuffer)

/-- The buffer holds a queue. -/
structure Holds (console : Console) (queue : List UInt8) : Prop where
  size : console.inputSize = queue.length
  fits : queue.length ≤ sizeofInputBuffer
  offset : console.inputOffset < sizeofInputBuffer
  cells : InCircle sizeofInputBuffer console.inputBuffer console.inputOffset queue

section Calls
variable {console : Console} {queue : List UInt8}

theorem pending_holds (holds : Holds console queue) : pending console = queue := by
  apply List.ext_getElem
  · simp [pending, holds.size]
  · intro i _ bound
    simpa [pending] using holds.cells i bound

/-- The two chunks of a packet go behind the queue. -/
theorem chunks_in_circle {buffer source : Nat → UInt8} {offset len : Nat} (inside : offset < 512)
    (cells : InCircle 512 buffer offset queue) (room : queue.length + len ≤ 512) {last chunk : Nat}
    (place : last = if offset + queue.length > 512 then offset + queue.length - 512
      else offset + queue.length)
    (piece : chunk = if last + len > 512 then 512 - last else len) :
    InCircle 512 (splice (if last + len > 512 then splice buffer 0 (slice source chunk (len - chunk))
      else buffer) last (slice source 0 chunk)) offset (queue ++ slice source 0 len) := by
  apply in_circle_append cells
  · simpa using room
  · intro j bound
    rw [slice_length] at bound
    rw [slice_getElem, splice_slice]
    by_cases front : j < chunk
    · rw [if_pos (by split_ifs at place piece <;> omega)]
      congr 1
      split_ifs at place piece <;> omega
    · rw [if_neg (by split_ifs at place piece <;> omega), if_pos (by split_ifs at piece <;> omega),
        splice_slice, if_pos (by split_ifs at place piece <;> omega)]
      congr 1
      split_ifs at place piece <;> omega
  · intro address inner apart
    rw [slice_length] at apart
    rw [splice_slice]
    by_cases front : last ≤ address ∧ address < last + chunk
    · have hit := apart (address - last) (by split_ifs at piece <;> omega)
      split_ifs at place piece <;> omega
    · rw [if_neg front]
      split
      · rename_i around
        rw [splice_slice]
        by_cases back : 0 ≤ address ∧ address < 0 + (len - chunk)
        · have hit := apart (chunk + address) (by omega)
          split_ifs at place piece <;> omega
        · rw [if_neg back]
      · rfl

theorem chunks_outside {buffer source : Nat → UInt8} {last len chunk address : Nat} (inside : last ≤ 512)
    (short : len ≤ 512) (piece : chunk = if last + len > 512 then 512 - last else len)
    (outside : 512 ≤ address) :
    splice (if last + len > 512 then splice buffer 0 (slice source chunk (len - chunk)) else buffer) last
      (slice source 0 chunk) address = buffer address := by
  rw [splice_slice, if_neg (by split at piece <;> omega)]
  split
  · rw [splice_slice, if_neg (by omega)]
  · rfl

theorem slice_take (mem : Nat → UInt8) (count room : Nat) :
    (slice mem 0 count).take room = slice mem 0 (min room count) := by
  rw [slice, ← List.map_take, List.take_range]
  rfl

/-- The longest prefix that fits comes to the queue. -/
theorem received_holds (holds : Holds console queue) {packet : Packet}
    (ours : packet.dest = toUlong console.ncPort) : Holds (received console packet)
      (queue ++ (slice packet.pkt 0 packet.len).take (sizeofInputBuffer - queue.length)) := by
  obtain ⟨size, fits, offset, cells⟩ := holds
  unfold sizeofInputBuffer at fits offset cells
  rw [slice_take]
  unfold received ncInputPacket sizeofInputBuffer
  by_cases empty : packet.len = 0
  · rw [if_pos (.inr empty), empty, Nat.min_zero]
    simpa [slice] using Holds.mk size fits offset cells
  · rw [if_neg (by simp [ours, empty])]
    by_cases full : console.inputSize = 512
    · rw [if_pos full, show 512 - queue.length = 0 by omega, Nat.zero_min]
      simpa [slice] using Holds.mk size fits offset cells
    · rw [if_neg full]
      dsimp only
      have len : (if packet.len > 512 - console.inputSize then 512 - console.inputSize else packet.len) =
          min (512 - queue.length) packet.len := by
        split <;> omega
      rw [len]
      have circle := @chunks_in_circle queue console.inputBuffer packet.pkt console.inputOffset
        (min (512 - queue.length) packet.len) offset cells (by omega) _ _ rfl rfl
      rw [← size] at circle
      refine ⟨?_, ?_, offset, ?_⟩
      · rw [List.length_append, slice_length, size]
      · rw [List.length_append, slice_length]
        unfold sizeofInputBuffer
        omega
      · rw [size] at circle ⊢
        exact circle

theorem received_other {packet : Packet} (other : packet.dest ≠ toUlong console.ncPort) :
    received console packet = console := by
  unfold received ncInputPacket
  rw [if_pos (.inl other)]

theorem received_port (packet : Packet) : (received console packet).ncPort = console.ncPort := by
  unfold received ncInputPacket
  split_ifs <;> rfl

/-- Nothing behind the buffer is written. -/
theorem received_outside (holds : Holds console queue) (packet : Packet) {address : Nat}
    (outside : sizeofInputBuffer ≤ address) :
    (received console packet).inputBuffer address = console.inputBuffer address := by
  obtain ⟨size, fits, offset, -⟩ := holds
  unfold sizeofInputBuffer at fits offset outside
  unfold received ncInputPacket sizeofInputBuffer
  by_cases other : packet.dest ≠ toUlong console.ncPort ∨ packet.len = 0
  · rw [if_pos other]
  · rw [if_neg other]
    by_cases full : console.inputSize = 512
    · rw [if_pos full]
    · rw [if_neg full]
      dsimp only
      exact chunks_outside (by split <;> omega) (by split <;> omega) rfl outside

theorem getc_holds (holds : Holds console queue) (positive : console.inputSize ≠ 0) :
    queue = console.inputBuffer console.inputOffset :: queue.tail ∧
      Holds { console with
        inputOffset :=
          if console.inputOffset + 1 ≥ sizeofInputBuffer
          then console.inputOffset + 1 - sizeofInputBuffer else console.inputOffset + 1
        inputSize := console.inputSize - 1 } queue.tail := by
  obtain ⟨size, fits, offset, cells⟩ := holds
  have some_items : 0 < queue.length := by omega
  have head := cells 0 some_items
  rw [Nat.add_zero, Nat.mod_eq_of_lt offset] at head
  have next : (if console.inputOffset + 1 ≥ sizeofInputBuffer
      then console.inputOffset + 1 - sizeofInputBuffer else console.inputOffset + 1) =
      (console.inputOffset + 1) % sizeofInputBuffer := by
    unfold sizeofInputBuffer at offset ⊢
    split <;> omega
  refine ⟨?_, ?_, ?_, ?_, ?_⟩
  · cases queue with
    | nil => cases some_items
    | cons c rest => simpa using head.symm
  · rw [List.length_tail, size]
  · rw [List.length_tail]
    omega
  · rw [next]
    exact Nat.mod_lt _ (by decide)
  · rw [next, ← List.drop_one]
    exact in_circle_drop cells 1

end Calls

/-! ### Runs -/

/-- The buffer holds what has been taken in and not yet been taken out. -/
structure Balanced (port : Int) (memory : Nat → UInt8) (state : State) (account : Account) : Prop where
  holds : ∃ queue, Holds state.console queue ∧ state.returned ++ queue = account.prefixes.flatten
  taken : state.returned.length = account.taken
  port : state.console.ncPort = port
  outside : ∀ address, sizeofInputBuffer ≤ address → state.console.inputBuffer address = memory address

section Steps
variable {port : Int} {memory : Nat → UInt8} {state after : State} {account : Account}

theorem balanced_arrive (balanced : Balanced port memory state account) (packet : Packet) :
    Balanced port memory { state with console := received state.console packet }
      (account.arrive port packet) := by
  obtain ⟨⟨queue, holds, parts⟩, taken, same_port, outside⟩ := balanced
  have lengths := congrArg List.length parts
  rw [List.length_append] at lengths
  have kept : ∀ address, sizeofInputBuffer ≤ address →
      (received state.console packet).inputBuffer address = memory address := by
    intro address behind
    rw [received_outside holds packet behind]
    exact outside address behind
  unfold Account.arrive
  by_cases ours : packet.dest = toUlong port
  · rw [if_pos ours]
    have room : sizeofInputBuffer - (account.prefixes.flatten.length - account.taken) =
        sizeofInputBuffer - queue.length := by
      omega
    refine ⟨⟨_, received_holds holds (by rw [same_port]; exact ours), ?_⟩, taken, ?_, kept⟩
    · rw [room, List.flatten_append, ← parts, List.append_assoc]
      simp
    · exact (received_port packet).trans same_port
  · rw [if_neg ours, received_other (by rw [same_port]; exact ours)]
    exact ⟨⟨queue, holds, parts⟩, taken, same_port, outside⟩

theorem balanced_batch (balanced : Balanced port memory state account) (batch : List Packet) :
    Balanced port memory { state with console := batch.foldl received state.console }
      (batch.foldl (Account.arrive port) account) := by
  induction batch generalizing state account with
  | nil => exact balanced
  | cons packet rest ih => exact ih (balanced_arrive balanced packet)

theorem balanced_loops {batches : List (List Packet)} {console : Console}
    (balanced : Balanced port memory state account) (ended : netLoops state.console batches = some console) :
    console.inputSize ≠ 0 ∧ Balanced port memory { state with console := console }
      (batches.flatten.foldl (Account.arrive port) account) := by
  induction batches generalizing state account with
  | nil =>
      rw [netLoops] at ended
      split at ended
      · cases ended
      · rename_i positive
        cases ended
        exact ⟨positive, balanced⟩
  | cons batch rest ih =>
      rw [netLoops] at ended
      split at ended
      · rw [List.flatten_cons, List.foldl_append]
        exact @ih { state with console := batch.foldl received state.console } _
          (balanced_batch balanced batch) ended
      · cases ended

theorem balanced_step (event : Event) (balanced : Balanced port memory state account)
    (step : Step state event after) : Balanced port memory after (account.next port event) := by
  cases event with
  | packet packet =>
      cases step
      exact balanced_arrive balanced packet
  | getc batches =>
      unfold Step perform ncGetc at step
      dsimp only at step
      rw [Option.map_map, Option.map_eq_some_iff] at step
      obtain ⟨console, ended, rfl⟩ := step
      obtain ⟨positive, ⟨queue, holds, parts⟩, taken, same_port, outside⟩ := balanced_loops balanced ended
      obtain ⟨front, left⟩ := getc_holds holds positive
      refine ⟨⟨queue.tail, left, ?_⟩, ?_, same_port, outside⟩
      · apply Eq.trans _ parts
        conv_rhs => rw [front]
        simp
      · simp [Account.next, ← taken]

theorem balanced_run {events : List Event} (run : Run Step state events after)
    (balanced : Balanced port memory state account) :
    Balanced port memory after (events.foldl (Account.next port) account) := by
  induction run generalizing account with
  | refl state => exact balanced
  | next step _ ih => exact ih (balanced_step _ balanced step)

end Steps

/-- Before the first packet. -/
def started (inputBuffer : Nat → UInt8) (ncPort : Int) : State := ⟨⟨inputBuffer, 0, 0, ncPort⟩, []⟩

theorem started_balanced (inputBuffer : Nat → UInt8) (ncPort : Int) :
    Balanced ncPort inputBuffer (started inputBuffer ncPort) ⟨[], 0⟩ :=
  ⟨⟨[], ⟨rfl, Nat.zero_le _, Nat.succ_pos 511, in_circle_nil⟩, rfl⟩, rfl, rfl, fun _ _ => rfl⟩

/-- The characters returned, and behind them those in the buffer, are the prefixes of the packets that
fitted when they arrived. -/
theorem netconsole_run {inputBuffer : Nat → UInt8} {ncPort : Int} {events : List Event} {after : State}
    (run : Run Step (started inputBuffer ncPort) events after) :
    let account := events.foldl (Account.next ncPort) ⟨[], 0⟩
    after.returned ++ pending after.console = account.prefixes.flatten ∧
      after.returned = account.prefixes.flatten.take account.taken ∧
      after.console.inputSize ≤ sizeofInputBuffer ∧ after.console.inputOffset < sizeofInputBuffer ∧
      ∀ address, sizeofInputBuffer ≤ address → after.console.inputBuffer address = inputBuffer address := by
  obtain ⟨⟨queue, holds, parts⟩, taken, -, outside⟩ :=
    balanced_run run (started_balanced inputBuffer ncPort)
  have size := holds.size
  have fits := holds.fits
  refine ⟨?_, ?_, by omega, holds.offset, outside⟩
  · rw [pending_holds holds, parts]
  · rw [← parts, ← taken, List.take_left]

/-- One packet of three bytes, and two characters. -/
def threeBytes : List Event :=
  [.packet ⟨6666, 1024, 3, fun i => UInt8.ofNat (97 + i)⟩, .getc [], .getc []]

theorem three_bytes_run : ∃ after, Run Step (started (fun _ => 0) 6666) threeBytes after ∧
    after.returned = [97, 98] ∧
      after.returned = ((threeBytes.foldl (Account.next 6666) ⟨[], 0⟩).prefixes.flatten).take 2 := by
  have run : Run Step (started (fun _ => 0) 6666) threeBytes _ :=
    Run.next rfl (Run.next rfl (Run.next rfl (Run.refl _)))
  exact ⟨_, run, rfl, (netconsole_run run).2.1⟩

end UBoot.Net.NetConsole
