import UBoot.Library.Memory

/-!
Tables of terminated strings in a byte memory: each string is followed by a
terminator, the table by one more. A `Buffer` is a memory together with its
high-water mark, the first address above every store made so far, so that a
bound on the stores of a program is a statement about its final state.
-/

namespace UBoot.Library.StringTable

universe u
variable {Byte : Type u}

structure Buffer (Byte : Type u) where
  mem : Nat → Byte
  limit : Nat

def Buffer.store (buffer : Buffer Byte) (address : Nat) (byte : Byte) : Buffer Byte where
  mem := fun other => if other = address then byte else buffer.mem other
  limit := max buffer.limit (address + 1)

/-- The bytes stand in memory one after the other. -/
def HasBytes (mem : Nat → Byte) : Nat → List Byte → Prop
  | _, [] => True
  | start, byte :: rest => mem start = byte ∧ HasBytes mem (start + 1) rest

@[simp] theorem store_mem_same (buffer : Buffer Byte) (address : Nat) (byte : Byte) :
    (buffer.store address byte).mem address = byte := if_pos rfl

theorem store_mem_other (buffer : Buffer Byte) (address : Nat) (byte : Byte) {other : Nat}
    (apart : other ≠ address) : (buffer.store address byte).mem other = buffer.mem other :=
  if_neg apart

theorem has_bytes_append (mem : Nat → Byte) (start : Nat) (front back : List Byte) :
    HasBytes mem start (front ++ back) ↔
      HasBytes mem start front ∧ HasBytes mem (start + front.length) back := by
  induction front generalizing start with
  | nil => simp [HasBytes]
  | cons byte rest ih =>
      have shift : start + 1 + rest.length = start + (byte :: rest).length := by
        simp only [List.length_cons]
        omega
      rw [List.cons_append, HasBytes, HasBytes, ih, shift, and_assoc]

/-- A memory that is filled from a list. -/
theorem has_bytes_getD (front bytes : List Byte) (fill : Byte) :
    HasBytes (fun i => (front ++ bytes).getD i fill) front.length bytes := by
  induction bytes generalizing front with
  | nil => trivial
  | cons byte rest ih =>
      have tail := ih (front ++ [byte])
      rw [List.append_assoc, List.length_append] at tail
      exact ⟨by simp, tail⟩

theorem has_bytes_congr {left right : Nat → Byte} {start : Nat} {bytes : List Byte}
    (has : HasBytes left start bytes)
    (same : ∀ address, start ≤ address → address < start + bytes.length →
      right address = left address) : HasBytes right start bytes := by
  induction bytes generalizing start with
  | nil => trivial
  | cons byte rest ih =>
      simp only [List.length_cons] at same
      refine ⟨(same start (Nat.le_refl _) (by omega)).trans has.1, ih has.2 ?_⟩
      intro address above below
      exact same address (by omega) (by omega)

theorem slice_of_has {mem : Nat → Byte} {start : Nat} {bytes : List Byte}
    (has : HasBytes mem start bytes) : Memory.slice mem start bytes.length = bytes := by
  induction bytes generalizing start with
  | nil => rfl
  | cons byte rest ih =>
      rw [List.length_cons, Nat.add_comm rest.length 1, Memory.slice_add, ih has.2, ← has.1]
      rfl

theorem has_splice (mem : Nat → Byte) (start : Nat) (bytes : List Byte) :
    HasBytes (Memory.splice mem start bytes) start bytes := by
  have at_each : ∀ front back, bytes = front ++ back →
      HasBytes (Memory.splice mem start bytes) (start + front.length) back := by
    intro front back split
    induction back generalizing front with
    | nil => trivial
    | cons byte back ih =>
        constructor
        · have bound : front.length < bytes.length := by simp [split]
          rw [Memory.splice_inside mem start bytes front.length bound]
          simp [split]
        · have next := ih (front ++ [byte]) (by simp [split])
          rwa [List.length_append, List.length_singleton, ← Nat.add_assoc] at next
  exact at_each [] bytes rfl

theorem has_splice_apart {mem : Nat → Byte} {start other : Nat} {bytes stored : List Byte}
    (has : HasBytes mem other stored)
    (apart : other + stored.length ≤ start ∨ start + bytes.length ≤ other) :
    HasBytes (Memory.splice mem start bytes) other stored :=
  has_bytes_congr has fun address above below =>
    Memory.splice_outside mem start bytes address (by omega)

/-- Every store between the two buffers went to an address of `[low, high)`. -/
structure StoresWithin (before after : Buffer Byte) (low high : Nat) : Prop where
  frame : ∀ address, address < low ∨ high ≤ address → after.mem address = before.mem address
  limit : after.limit ≤ max before.limit high

theorem stores_none (buffer : Buffer Byte) (low high : Nat) :
    StoresWithin buffer buffer low high :=
  ⟨fun _ _ => rfl, Nat.le_max_left _ _⟩

theorem stores_one (buffer : Buffer Byte) (address : Nat) (byte : Byte) {low high : Nat}
    (above : low ≤ address) (below : address < high) :
    StoresWithin buffer (buffer.store address byte) low high where
  frame := fun other outside => store_mem_other buffer address byte (by omega)
  limit := by
    show max buffer.limit (address + 1) ≤ _
    omega

theorem stores_trans {first second third : Buffer Byte} {low high : Nat}
    (front : StoresWithin first second low high) (back : StoresWithin second third low high) :
    StoresWithin first third low high where
  frame := fun address outside => (back.frame address outside).trans (front.frame address outside)
  limit := by
    have frontLimit := front.limit
    have backLimit := back.limit
    omega

theorem stores_widen {before after : Buffer Byte} {low high lower higher : Nat}
    (within : StoresWithin before after low high) (below : lower ≤ low) (above : high ≤ higher) :
    StoresWithin before after lower higher where
  frame := fun address outside => within.frame address (by omega)
  limit := by
    have limit := within.limit
    omega

theorem has_bytes_framed {before after : Buffer Byte} {low high start : Nat} {bytes : List Byte}
    (within : StoresWithin before after low high) (has : HasBytes before.mem start bytes)
    (apart : start + bytes.length ≤ low ∨ high ≤ start) : HasBytes after.mem start bytes :=
  has_bytes_congr has fun address above below => within.frame address (by omega)

section Tables
variable [Zero Byte]

def table : List (List Byte) → List Byte
  | [] => []
  | entry :: rest => entry ++ 0 :: table rest

/-- A table with the terminator behind it; an empty one has two terminators as well. -/
def block : List (List Byte) → List Byte
  | [] => [0, 0]
  | entry :: rest => table (entry :: rest) ++ [0]

/-- The list ends with a terminator and has no two of them in a row. -/
def SingleEnds : List Byte → Prop
  | [] => False
  | [byte] => byte = 0
  | byte :: next :: rest => ¬ (byte = 0 ∧ next = 0) ∧ SingleEnds (next :: rest)

structure Text (entry : List Byte) : Prop where
  terminated : 0 ∉ entry
  nonempty : entry ≠ []

theorem single_ends_text {entry : List Byte} (text : Text entry) (rest : List Byte)
    (after : rest = [] ∨ SingleEnds rest ∧ rest.head? ≠ some 0) :
    SingleEnds (entry ++ 0 :: rest) := by
  obtain ⟨terminated, nonempty⟩ := text
  induction entry with
  | nil => exact absurd rfl nonempty
  | cons byte more ih =>
      have notEnd : byte ≠ 0 := fun zero => terminated (zero ▸ List.mem_cons_self)
      cases more with
      | nil =>
          refine ⟨fun both => notEnd both.1, ?_⟩
          rcases after with empty | ⟨ends, head⟩
          · rw [empty]
            exact rfl
          · cases rest with
            | nil => exact ends.elim
            | cons next rest =>
                exact ⟨fun both => head (congrArg some both.2), ends⟩
      | cons next more =>
          exact ⟨fun both => notEnd both.1,
            ih (fun member => terminated (List.mem_cons_of_mem _ member)) (List.cons_ne_nil _ _)⟩

theorem single_ends_table {entries : List (List Byte)} (texts : ∀ entry ∈ entries, Text entry)
    (some_entry : entries ≠ []) : SingleEnds (table entries) := by
  induction entries with
  | nil => exact absurd rfl some_entry
  | cons entry rest ih =>
      refine single_ends_text (texts entry List.mem_cons_self) (table rest) ?_
      cases rest with
      | nil => exact Or.inl rfl
      | cons next rest =>
          have later := ih (fun other member => texts other (List.mem_cons_of_mem entry member))
            (List.cons_ne_nil _ _)
          refine Or.inr ⟨later, ?_⟩
          have text := texts next (List.mem_cons_of_mem entry List.mem_cons_self)
          cases next with
          | nil => exact absurd rfl text.nonempty
          | cons byte more =>
              exact fun zero => text.terminated (by
                have head : byte = 0 := by simpa [table] using zero
                rw [head]
                exact List.mem_cons_self)

theorem table_append (front back : List (List Byte)) :
    table (front ++ back) = table front ++ table back := by
  induction front with
  | nil => rfl
  | cons entry rest ih => simp [table, ih]

/-- The table of a block, whether the block is empty or not. -/
theorem has_table_of_block {mem : Nat → Byte} {start : Nat} {entries : List (List Byte)}
    (has : HasBytes mem start (block entries)) : HasBytes mem start (table entries ++ [0]) := by
  cases entries with
  | nil => exact ⟨has.1, trivial⟩
  | cons entry rest => exact has

theorem block_length_of_ne_nil {entries : List (List Byte)} (some_entry : entries ≠ []) :
    (block entries).length = (table entries).length + 1 := by
  cases entries with
  | nil => exact absurd rfl some_entry
  | cons entry rest => simp [block]

end Tables

section Scans
variable [Zero Byte] [DecidableEq Byte]

/-- The first terminator at or after an address. -/
def stringEnd (mem : Nat → Byte) : Nat → Nat → Nat
  | 0, i => i
  | fuel + 1, i => if mem i = 0 then i else stringEnd mem fuel (i + 1)

/-- The first of two terminators in a row. -/
def tableEnd (mem : Nat → Byte) : Nat → Nat → Nat
  | 0, i => i
  | fuel + 1, i => if mem i = 0 ∧ mem (i + 1) = 0 then i else tableEnd mem fuel (i + 1)

/-- The bytes of the string at an address. -/
def stringAt (mem : Nat → Byte) : Nat → Nat → List Byte
  | 0, _ => []
  | fuel + 1, i => if mem i = 0 then [] else mem i :: stringAt mem fuel (i + 1)

/-- No byte of a text is its end. -/
theorem text_byte_ne_zero {mem : Nat → Byte} {start : Nat} {byte : Byte} {rest : List Byte}
    (terminated : 0 ∉ byte :: rest) (here : mem start = byte) : mem start ≠ 0 := by
  rw [here]
  exact fun zero => terminated (zero ▸ List.mem_cons_self)

theorem string_end_eq {mem : Nat → Byte} {start fuel : Nat} {text : List Byte}
    (terminated : 0 ∉ text) (has : HasBytes mem start (text ++ [0])) (enough : text.length ≤ fuel) :
    stringEnd mem fuel start = start + text.length := by
  induction text generalizing start fuel with
  | nil =>
      cases fuel with
      | zero => rfl
      | succ fuel => exact if_pos has.1
  | cons byte rest ih =>
      cases fuel with
      | zero => exact absurd enough (Nat.not_succ_le_zero _)
      | succ fuel =>
          have more := text_byte_ne_zero terminated has.1
          rw [stringEnd, if_neg more,
            ih (fun member => terminated (List.mem_cons_of_mem _ member)) has.2
              (Nat.le_of_succ_le_succ enough), List.length_cons]
          omega

theorem string_at_eq {mem : Nat → Byte} {start fuel : Nat} {text : List Byte}
    (terminated : 0 ∉ text) (has : HasBytes mem start (text ++ [0])) (enough : text.length < fuel) :
    stringAt mem fuel start = text := by
  induction text generalizing start fuel with
  | nil =>
      cases fuel with
      | zero => exact absurd enough (Nat.not_lt_zero _)
      | succ fuel => exact if_pos has.1
  | cons byte rest ih =>
      cases fuel with
      | zero => exact absurd enough (Nat.not_lt_zero _)
      | succ fuel =>
          have more := text_byte_ne_zero terminated has.1
          rw [stringAt, if_neg more, has.1,
            ih (fun member => terminated (List.mem_cons_of_mem _ member)) has.2
              (Nat.lt_of_succ_lt_succ enough)]

theorem table_end_eq {mem : Nat → Byte} {start fuel : Nat} {bytes : List Byte}
    (ends : SingleEnds bytes) (has : HasBytes mem start (bytes ++ [0]))
    (enough : bytes.length ≤ fuel) :
    tableEnd mem fuel start = start + bytes.length - 1 := by
  induction bytes generalizing start fuel with
  | nil => exact ends.elim
  | cons byte rest ih =>
      cases fuel with
      | zero => exact absurd enough (Nat.not_succ_le_zero _)
      | succ fuel =>
          cases rest with
          | nil =>
              have both : mem start = 0 ∧ mem (start + 1) = 0 := ⟨has.1.trans ends, has.2.1⟩
              rw [tableEnd, if_pos both]
              rfl
          | cons next rest =>
              have single : ¬ (mem start = 0 ∧ mem (start + 1) = 0) := by
                rw [has.1, has.2.1]
                exact ends.1
              rw [tableEnd, if_neg single, ih ends.2 has.2 (Nat.le_of_succ_le_succ enough)]
              simp only [List.length_cons]
              omega

end Scans

end UBoot.Library.StringTable
