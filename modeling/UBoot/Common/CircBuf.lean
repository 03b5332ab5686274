import UBoot.Library.BoundedQueue

/-!
The circular buffer of common/circbuf.c. A pointer into the buffer is its offset from `data`, so
that `end` is the offset `totalsize`.
-/

namespace UBoot.Common.CircBuf

open Library.BoundedQueue

universe u
variable {Byte : Type u}

structure Circbuf (Byte : Type u) where
  size : Nat
  totalsize : Nat
  top : Nat
  tail : Nat
  data : Nat → Byte

/-- buf_init over what malloc has returned. -/
def bufInit (size : Nat) (data : Nat → Byte) : Circbuf Byte := ⟨0, size, 0, 0, data⟩

/-- A pointer that has been moved on, checked against the end. -/
def wrapped (buf : Circbuf Byte) (p : Nat) : Nat := if p = buf.totalsize then 0 else p

/-- The loop of buf_pop: what comes to `dest`, and the pointer behind it. -/
def popLoop (buf : Circbuf Byte) : (len p : Nat) → List Byte × Nat
  | 0, p => ([], p)
  | len + 1, p =>
      let (dest, behind) := popLoop buf len (wrapped buf (p + 1))
      (buf.data p :: dest, behind)

/-- The bytes that are popped, whose number is the result, and the buffer. -/
def bufPop (buf : Circbuf Byte) (len : Nat) : List Byte × Circbuf Byte :=
  let len := if len > buf.size then buf.size else len
  let (dest, p) := popLoop buf len buf.top
  (dest, { buf with top := p, size := buf.size - len })

/-- One turn of the loop of buf_push, with the pointer `p`. -/
def pushByte (at' : Circbuf Byte × Nat) (byte : Byte) : Circbuf Byte × Nat :=
  let (buf, p) := at'
  let stored := { buf with data := Function.update buf.data p byte }
  if buf.size < buf.totalsize then
    ({ stored with size := buf.size + 1 }, wrapped buf (p + 1))
  else ({ stored with top := wrapped buf (buf.top + 1) }, wrapped buf (p + 1))

def bufPush (buf : Circbuf Byte) (src : List Byte) : Circbuf Byte :=
  let (pushed, p) := src.foldl pushByte (buf, buf.tail)
  { pushed with tail := p }

/-- A call of the buffer, and what the caller gets. -/
inductive Call (Byte : Type u) where
  | push (src : List Byte)
  | pop (len : Nat)

def step (buf : Circbuf Byte) : Call Byte → List Byte × Circbuf Byte
  | .push src => ([], bufPush buf src)
  | .pop len => bufPop buf len

/-- What the calls pop, and the buffer behind them. -/
def run : Circbuf Byte → List (Call Byte) → List (List Byte) × Circbuf Byte
  | buf, [] => ([], buf)
  | buf, call :: rest =>
      let (dest, buf) := step buf call
      let (later, buf) := run buf rest
      (dest :: later, buf)

/-! ### The queue that the buffer stands for -/

def queueStep (capacity : Nat) (queue : List Byte) : Call Byte → List Byte × List Byte
  | .push src => ([], push capacity queue src)
  | .pop len => pop queue len

def queueRun (capacity : Nat) : List Byte → List (Call Byte) → List (List Byte) × List Byte
  | queue, [] => ([], queue)
  | queue, call :: rest =>
      let (dest, queue) := queueStep capacity queue call
      let (later, queue) := queueRun capacity queue rest
      (dest :: later, queue)

/-- The buffer holds a queue, in front of the pointer `p`. -/
structure HoldsUpTo (capacity : Nat) (buf : Circbuf Byte) (p : Nat) (queue : List Byte) :
    Prop where
  totalsize : buf.totalsize = capacity
  size : buf.size = queue.length
  short : queue.length ≤ capacity
  top : buf.top < capacity
  tail : p = (buf.top + buf.size) % capacity
  bytes : InCircle capacity buf.data buf.top queue

def Holds (capacity : Nat) (buf : Circbuf Byte) (queue : List Byte) : Prop :=
  HoldsUpTo capacity buf buf.tail queue

section Simulation
variable {capacity p : Nat} {buf : Circbuf Byte} {queue : List Byte}

theorem wrapped_next (holds : HoldsUpTo capacity buf p queue) {place : Nat}
    (inside : place < capacity) : wrapped buf (place + 1) = (place + 1) % capacity := by
  rw [wrapped, holds.totalsize]
  exact next_position place inside

theorem init_holds (positive : 0 < capacity) (data : Nat → Byte) :
    Holds capacity (bufInit capacity data) [] where
  totalsize := rfl
  size := rfl
  short := Nat.zero_le _
  top := positive
  tail := (Nat.zero_mod capacity).symm
  bytes := in_circle_nil

/-- One byte more: while there is room it goes behind the others, and in a full buffer it takes the
place of the oldest one. -/
theorem push_byte_holds (holds : HoldsUpTo capacity buf p queue) (byte : Byte) :
    HoldsUpTo capacity (pushByte (buf, p) byte).1 (pushByte (buf, p) byte).2
      (push capacity queue [byte]) := by
  obtain ⟨totalsize, size, short, top, tail, bytes⟩ := holds
  have positive : 0 < capacity := Nat.zero_lt_of_lt top
  have pointer : wrapped buf (p + 1) = (buf.top + buf.size + 1) % capacity := by
    rw [wrapped_next ⟨totalsize, size, short, top, tail, bytes⟩ (tail ▸ Nat.mod_lt _ positive),
      tail, Nat.mod_add_mod]
  unfold pushByte
  dsimp only
  by_cases room : buf.size < buf.totalsize
  · rw [if_pos room]
    rw [totalsize, size] at room
    rw [push_room room]
    refine ⟨totalsize, ?_, ?_, top, ?_, ?_⟩
    · rw [List.length_append, List.length_singleton, size]
    · rw [List.length_append, List.length_singleton]
      exact room
    · rw [pointer]
      rfl
    · rw [tail, size]
      exact in_circle_concat bytes room byte
  · rw [if_neg room]
    rw [totalsize, size] at room
    have full : queue.length = capacity := by omega
    have topNext : wrapped buf (buf.top + 1) = (buf.top + 1) % capacity :=
      wrapped_next ⟨totalsize, size, short, top, tail, bytes⟩ top
    rw [push_full positive full, topNext]
    -- the first byte is dropped, and the place behind the rest is where it stood
    have rest := in_circle_drop bytes 1
    have length : (queue.drop 1).length = capacity - 1 := by
      rw [List.length_drop, full]
    have place : ((buf.top + 1) % capacity + (queue.drop 1).length) % capacity = p := by
      rw [Nat.mod_add_mod, length, tail, size, full]
      congr 1
      omega
    refine ⟨totalsize, ?_, ?_, Nat.mod_lt _ positive, ?_, ?_⟩
    · rw [List.length_append, List.length_singleton, length, size, full]
      omega
    · rw [List.length_append, List.length_singleton, length]
      omega
    · rw [pointer, Nat.mod_add_mod, Nat.add_right_comm]
    · rw [← place]
      exact in_circle_concat rest (by omega) byte

theorem push_bytes_hold (src : List Byte) : ∀ buf p queue, HoldsUpTo capacity buf p queue →
    HoldsUpTo capacity (src.foldl pushByte (buf, p)).1 (src.foldl pushByte (buf, p)).2
      (push capacity queue src) := by
  induction src with
  | nil =>
      intro buf p queue holds
      rw [push_nil holds.short]
      exact holds
  | cons byte rest ih =>
      intro buf p queue holds
      have one := ih _ _ _ (push_byte_holds holds byte)
      rw [push_push] at one
      exact one

theorem push_holds (holds : Holds capacity buf queue) (src : List Byte) :
    Holds capacity (bufPush buf src) (push capacity queue src) := by
  obtain ⟨totalsize, size, short, top, tail, bytes⟩ := push_bytes_hold src _ _ _ holds
  exact ⟨totalsize, size, short, top, tail, bytes⟩

/-- The loop takes the bytes from a position on. -/
theorem pop_loop_eq (totalsize : buf.totalsize = capacity) : ∀ (count first : Nat) queue,
    first < capacity → InCircle capacity buf.data first queue → count ≤ queue.length →
      popLoop buf count first = (queue.take count, (first + count) % capacity) := by
  intro count
  induction count with
  | zero =>
      intro first queue inside _ _
      rw [popLoop, List.take_zero, Nat.add_zero, Nat.mod_eq_of_lt inside]
  | succ count ih =>
      intro first queue inside holds enough
      cases queue with
      | nil => exact absurd enough (Nat.not_succ_le_zero _)
      | cons byte rest =>
          have oldest : buf.data first = byte := by
            have here := holds 0 (Nat.zero_lt_succ _)
            rwa [Nat.add_zero, Nat.mod_eq_of_lt inside] at here
          have next : wrapped buf (first + 1) = (first + 1) % capacity := by
            rw [wrapped, totalsize]
            exact next_position first inside
          have positive : 0 < capacity := Nat.zero_lt_of_lt inside
          rw [popLoop, next, ih _ rest (Nat.mod_lt _ positive) (in_circle_drop holds 1)
            (Nat.le_of_succ_le_succ enough), oldest, Nat.mod_add_mod, List.take_succ_cons,
            Nat.add_assoc, Nat.add_comm 1 count]

theorem pop_holds (holds : Holds capacity buf queue) (len : Nat) :
    (bufPop buf len).1 = (pop queue len).1 ∧ Holds capacity (bufPop buf len).2 (pop queue len).2 := by
  obtain ⟨totalsize, size, short, top, tail, bytes⟩ := holds
  have capped : (if len > buf.size then buf.size else len) = min len queue.length := by
    rw [← size]
    split
    · omega
    · omega
  have taken : queue.take (min len queue.length) = queue.take len := by
    rw [← List.take_take, List.take_length]
  have left : queue.drop len = queue.drop (min len queue.length) := by
    by_cases enough : len ≤ queue.length
    · rw [Nat.min_eq_left enough]
    · rw [Nat.min_eq_right (by omega), List.drop_length, List.drop_eq_nil_of_le (by omega)]
  have positive : 0 < capacity := Nat.zero_lt_of_lt top
  have moved := pop_loop_eq totalsize (min len queue.length) buf.top queue top bytes
    (Nat.min_le_right _ _)
  rw [bufPop, capped, moved, taken]
  refine ⟨rfl, ?_⟩
  rw [pop, left]
  refine ⟨totalsize, ?_, ?_, Nat.mod_lt _ positive, ?_, in_circle_drop bytes _⟩
  · rw [List.length_drop, size]
  · rw [List.length_drop]
    omega
  · dsimp only
    rw [tail, Nat.mod_add_mod, size]
    congr 1
    omega

/-- A call does to the buffer what it does to the queue. -/
theorem step_holds (holds : Holds capacity buf queue) (call : Call Byte) :
    (step buf call).1 = (queueStep capacity queue call).1 ∧
      Holds capacity (step buf call).2 (queueStep capacity queue call).2 := by
  cases call with
  | push src => exact ⟨rfl, push_holds holds src⟩
  | pop len => exact pop_holds holds len

theorem run_holds (calls : List (Call Byte)) : ∀ buf queue, Holds capacity buf queue →
    (run buf calls).1 = (queueRun capacity queue calls).1 ∧
      Holds capacity (run buf calls).2 (queueRun capacity queue calls).2 := by
  induction calls with
  | nil => exact fun _ _ holds => ⟨rfl, holds⟩
  | cons call rest ih =>
      intro buf queue holds
      obtain ⟨dest, next⟩ := step_holds holds call
      obtain ⟨later, last⟩ := ih _ _ next
      exact ⟨congrArg₂ List.cons dest later, last⟩

end Simulation

/-- Over any calls, the buffer pops what a queue of the most recent `capacity` bytes pops, its size
is the length of that queue, and its tail is as many places behind its top. -/
theorem buffer_is_queue {capacity : Nat} (positive : 0 < capacity) (data : Nat → Byte)
    (calls : List (Call Byte)) :
    (run (bufInit capacity data) calls).1 = (queueRun capacity [] calls).1 ∧
      (run (bufInit capacity data) calls).2.size = (queueRun capacity [] calls).2.length ∧
      (run (bufInit capacity data) calls).2.size ≤ capacity ∧
      (run (bufInit capacity data) calls).2.tail =
        ((run (bufInit capacity data) calls).2.top +
          (run (bufInit capacity data) calls).2.size) % capacity := by
  obtain ⟨popped, holds⟩ := run_holds calls _ _ (init_holds positive data)
  refine ⟨popped, holds.size, ?_, holds.tail⟩
  rw [holds.size]
  exact holds.short

/-- Of five unread bytes the oldest is overwritten. -/
theorem oldest_overwritten :
    (run (bufInit 4 fun _ => 0) [.push [1, 2, 3], .pop 1, .push [4, 5, 6], .pop 9]).1 =
      [[], [1], [], [3, 4, 5, 6]] :=
  (buffer_is_queue (by decide) (fun _ => 0) _).1

end UBoot.Common.CircBuf
