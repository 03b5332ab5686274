import Mathlib.Tactic

/-!
The integer conversions of the target, where `long` and `int` have 32 bits and
`short` 16, and the C strings and simple_strtoul of lib_generic. A string is the
list of its bytes in front of the terminating NUL.
-/

namespace UBoot.Lib.Strings

def toUlong (n : Int) : Nat := (n % 2 ^ 32).toNat

def toInt (n : Nat) : Int := (n + 2 ^ 31) % 2 ^ 32 - 2 ^ 31

def toShort (n : Int) : Int := (n + 2 ^ 15) % 2 ^ 16 - 2 ^ 15

structure CString where
  bytes : List UInt8
  terminated : 0 ∉ bytes

def ascii (text : String) : List UInt8 := text.toList.map fun c => UInt8.ofNat c.toNat

/-- What `strchr` finds, as the bytes in front of `c` and the bytes after it. -/
def cutAt (c : UInt8) : List UInt8 → Option (List UInt8 × List UInt8)
  | [] => none
  | byte :: rest =>
      if byte = c then some ([], rest)
      else (cutAt c rest).map fun cut => (byte :: cut.1, cut.2)

def isdigit (c : UInt8) : Bool := 48 ≤ c && c ≤ 57

def isxdigit (c : UInt8) : Bool := isdigit c || (65 ≤ c && c ≤ 70) || (97 ≤ c && c ≤ 102)

def islower (c : UInt8) : Bool := (97 ≤ c && c ≤ 122) || (223 ≤ c && c != 247)

def toupper (c : UInt8) : UInt8 := if islower c then c - 32 else c

def digitValue (c : UInt8) : Nat :=
  if isdigit c then c.toNat - 48 else (toupper c).toNat - 65 + 10

/-- The value and the text behind `*endp`. -/
structure Strtoul where
  value : Nat
  rest : List UInt8

def strtoulLoop (base : Nat) : List UInt8 → Nat → Strtoul
  | [], result => ⟨result, []⟩
  | c :: rest, result =>
      if isxdigit c && digitValue c < base then
        strtoulLoop base rest ((result * base + digitValue c) % 2 ^ 32)
      else ⟨result, c :: rest⟩

def simpleStrtoul (cp : List UInt8) (base : Nat) : Strtoul :=
  match cp with
  | 48 :: 120 :: c :: rest =>
      if isxdigit c then strtoulLoop 16 (c :: rest) 0
      else strtoulLoop (if base = 0 then 8 else base) (120 :: c :: rest) 0
  | 48 :: rest => strtoulLoop (if base = 0 then 8 else base) rest 0
  | cp => strtoulLoop (if base = 0 then 10 else base) cp 0

/-- `ep == str || *ep != '\0'` after a call on `str`. -/
def Strtoul.malformed (parsed : Strtoul) (str : List UInt8) : Bool :=
  parsed.rest == str || parsed.rest != []

theorem digit_kinds (c : UInt8) : (isxdigit c && decide (digitValue c < 10)) = isdigit c ∧
    (isxdigit c && decide (digitValue c < 16)) = isxdigit c := by
  have all : ∀ n : Fin 256, (isxdigit (UInt8.ofNat n) && decide (digitValue (UInt8.ofNat n) < 10)) =
        isdigit (UInt8.ofNat n) ∧
      (isxdigit (UInt8.ofNat n) && decide (digitValue (UInt8.ofNat n) < 16)) =
        isxdigit (UInt8.ofNat n) := by
    decide +kernel
  have value := all ⟨c.toNat, UInt8.toNat_lt c⟩
  rwa [UInt8.ofNat_toNat] at value

theorem strtoul_loop_lt (base : Nat) (cp : List UInt8) (result : Nat) (bound : result < 2 ^ 32) :
    (strtoulLoop base cp result).value < 2 ^ 32 := by
  induction cp generalizing result with
  | nil => exact bound
  | cons c rest ih =>
      unfold strtoulLoop
      split
      · exact ih _ (Nat.mod_lt _ (by decide))
      · exact bound

theorem simple_strtoul_lt (cp : List UInt8) (base : Nat) :
    (simpleStrtoul cp base).value < 2 ^ 32 := by
  unfold simpleStrtoul
  split
  · split <;> exact strtoul_loop_lt _ _ _ (by decide)
  · exact strtoul_loop_lt _ _ _ (by decide)
  · exact strtoul_loop_lt _ _ _ (by decide)

theorem to_ulong_lt (n : Int) : toUlong n < 2 ^ 32 := by
  unfold toUlong
  omega

/-! ### Cutting a string -/

section Cut
variable {c : UInt8} {text front rest : List UInt8}

theorem cut_at_none (absent : c ∉ text) : cutAt c text = none := by
  induction text with
  | nil => rfl
  | cons byte text ih =>
      rw [List.mem_cons, not_or] at absent
      rw [cutAt, if_neg (Ne.symm absent.1), ih absent.2]
      rfl

theorem cut_at_first (absent : c ∉ front) (rest : List UInt8) :
    cutAt c (front ++ c :: rest) = some (front, rest) := by
  induction front with
  | nil => exact if_pos rfl
  | cons byte front ih =>
      rw [List.mem_cons, not_or] at absent
      rw [List.cons_append, cutAt, if_neg (Ne.symm absent.1), ih absent.2]
      rfl

/-- The first `c` of a string, and what is in front of it and behind it. -/
theorem cut_at_some (cut : cutAt c text = some (front, rest)) :
    text = front ++ c :: rest ∧ c ∉ front := by
  induction text generalizing front with
  | nil => cases cut
  | cons byte text ih =>
      rw [cutAt] at cut
      split at cut
      · rename_i here
        cases cut
        exact ⟨by rw [here]; rfl, List.not_mem_nil⟩
      · rename_i other
        obtain ⟨⟨front, later⟩, inner, same⟩ := Option.map_eq_some_iff.mp cut
        cases same
        obtain ⟨parts, plain⟩ := ih inner
        refine ⟨by rw [parts]; rfl, ?_⟩
        rw [List.mem_cons, not_or]
        exact ⟨Ne.symm other, plain⟩

theorem cut_at_absent (none : cutAt c text = none) : c ∉ text := by
  intro member
  obtain ⟨front, rest, parts, plain⟩ := List.eq_append_cons_of_mem member
  rw [parts, cut_at_first plain] at none
  cases none

theorem cut_plain (cut : cutAt c text = some (front, rest)) : c ∉ front := (cut_at_some cut).2

theorem cut_shorter (cut : cutAt c text = some (front, rest)) : rest.length < text.length := by
  rw [(cut_at_some cut).1, List.length_append, List.length_cons]
  omega

end Cut

example : (simpleStrtoul (ascii "9f3F0000") 16).value = 0x9f3f0000 := by decide

end UBoot.Lib.Strings
