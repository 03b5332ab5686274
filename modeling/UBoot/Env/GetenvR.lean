import UBoot.Env.Setenv

/-!
getenv_r of common/cmd_nvedit.c, which copies a value into a buffer of the caller. It stores its
bytes at the start of the buffer, one behind the other, so `written` is what the
buffer begins with afterwards.
-/

namespace UBoot.Env.GetenvR

open Lib.Strings Library.Memory Library.StringTable Nvedit EnvTable Setenv

structure Copied where
  rcode : Int
  written : List UInt8

/-- `while ((len > n++) && (*buf++ = env_get_char(val++)) != '\0')`: the bytes and n behind it. -/
def copyLoop (mem : Nat → UInt8) (len : Nat) : (fuel val n : Nat) → List UInt8 × Nat
  | 0, _, n => ([], n)
  | fuel + 1, val, n =>
      if n < len then
        if mem val = 0 then ([0], n + 1)
        else
          let rest := copyLoop mem len fuel (val + 1) (n + 1)
          (mem val :: rest.1, rest.2)
      else ([], n + 1)

def copyOut (mem : Nat → UInt8) (len val : Nat) : Copied :=
  let copied := copyLoop mem len (len + 1) val 0
  -- the NUL for a value that fills the buffer, at the place behind the last byte
  ⟨copied.2, copied.1 ++ if len = copied.2 then [0] else []⟩

def getenvRLoop (mem : Nat → UInt8) (size : Nat) (name : List UInt8) (len : Nat) :
    (fuel i : Nat) → Copied
  | 0, _ => ⟨-1, []⟩
  | fuel + 1, i =>
      if mem i = 0 then ⟨-1, []⟩
      else
        match boundedEnd mem size (size + 1) i with
        | none => ⟨-1, []⟩
        | some nxt =>
            match envmatch mem name i with
            | some val => copyOut mem len val
            | none => getenvRLoop mem size name len fuel (nxt + 1)

def getenvR (cfg : EnvConfig) (state : EnvState) (name : CString) (len : Nat) : Copied :=
  getenvRLoop state.data.mem cfg.cfgEnvSize name.bytes len cfg.cfgEnvSize 0

/-- The text that a buffer of `len` bytes holds, if it is terminated. -/
def bufferText (buffer : List UInt8) : List UInt8 := buffer.takeWhile fun c => c ≠ 0

/-- The buffer behind a copy. -/
def after (buffer written : List UInt8) : List UInt8 := written ++ buffer.drop written.length

/-- The stores stay in the buffer, and the value, or what fits of it, is there with its NUL. -/
structure CopiesText (len : Nat) (buffer : List UInt8) (value : List UInt8) (copied : Copied) :
    Prop where
  inside : copied.written.length ≤ len
  terminated : 0 ∈ (after buffer copied.written).take len
  front : bufferText (after buffer copied.written) <+: value
  whole : value.length < len → bufferText (after buffer copied.written) = value

/-- What getenv_r is to do with the value that getenv has found. -/
def Meets (len : Nat) (buffer : List UInt8) (value : Option (List UInt8)) (copied : Copied) : Prop :=
  match value with
  | none => copied = ⟨-1, []⟩
  | some text =>
      CopiesText len buffer text copied ∧
        copied.rcode = (bufferText (after buffer copied.written)).length

/-! ### The search -/

theorem loop_eq (mem : Nat → UInt8) (size : Nat) (name : List UInt8) (len fuel : Nat) : ∀ i,
    getenvRLoop mem size name len fuel i =
      match getenvLoop mem size name fuel i with
      | none => ⟨-1, []⟩
      | some val => copyOut mem len val := by
  induction fuel with
  | zero => exact fun _ => rfl
  | succ fuel inductive_hypothesis =>
      intro i
      rw [getenvRLoop, getenvLoop]
      by_cases past : mem i = 0
      · rw [if_pos past, if_pos past]
      rw [if_neg past, if_neg past]
      cases boundedEnd mem size (size + 1) i with
      | none => rfl
      | some nxt =>
          dsimp only
          cases envmatch mem name i with
          | some val => rfl
          | none => exact inductive_hypothesis _

/-- getenv_r finds what getenv finds. -/
theorem getenv_r_eq (cfg : EnvConfig) (state : EnvState) (name : CString) (len : Nat) :
    getenvR cfg state name len =
      match getenv cfg state name with
      | none => ⟨-1, []⟩
      | some val => copyOut state.data.mem len val :=
  loop_eq state.data.mem cfg.cfgEnvSize name.bytes len cfg.cfgEnvSize 0

/-! ### The copy -/

section Copy

variable {mem : Nat → UInt8} {len : Nat}

/-- The loop over a value: it takes the NUL as well when it has the room, and one turn more than
there is room when it does not. -/
theorem copy_loop_eq (text : List UInt8) : ∀ (fuel val n : Nat), 0 ∉ text →
    HasBytes mem val (text ++ [0]) → n ≤ len → len - n < fuel →
    copyLoop mem len fuel val n =
      if n + text.length < len then (text ++ [0], n + text.length + 1)
      else (text.take (len - n), len + 1) := by
  induction text with
  | nil =>
      intro fuel val n _ has room enough
      obtain ⟨fuel, rfl⟩ : ∃ more, fuel = more + 1 := ⟨fuel - 1, by omega⟩
      rw [copyLoop]
      by_cases more : n < len
      · rw [if_pos more, if_pos has.1]
        exact (if_pos more).symm
      · have full : n = len := by omega
        rw [if_neg more, full, List.take_nil]
        exact (if_neg (Nat.lt_irrefl len)).symm
  | cons c rest inductive_hypothesis =>
      intro fuel val n clean has room enough
      obtain ⟨fuel, rfl⟩ : ∃ more, fuel = more + 1 := ⟨fuel - 1, by omega⟩
      have nonzero : mem val ≠ 0 := fun zero =>
        clean (zero.symm.trans has.1 ▸ List.mem_cons_self)
      rw [copyLoop]
      by_cases more : n < len
      · have tail := inductive_hypothesis fuel (val + 1) (n + 1)
          (fun member => clean (List.mem_cons_of_mem c member)) has.2 more (by omega)
        have head : mem val = c := has.1
        rw [if_pos more, if_neg nonzero, tail, head, List.length_cons]
        obtain ⟨left, count⟩ : ∃ left, len - n = left + 1 := ⟨len - n - 1, by omega⟩
        by_cases fits : n + 1 + rest.length < len
        · rw [if_pos fits, if_pos (by omega)]
          exact Prod.ext rfl (by simp only; omega)
        · rw [if_neg fits, if_neg (by omega), count, List.take_succ_cons,
            show len - (n + 1) = left by omega]
      · have full : n = len := by omega
        rw [if_neg more, if_neg (by simp only [List.length_cons]; omega), full, Nat.sub_self,
          List.take_zero]

variable {val : Nat} {text : List UInt8}

theorem copy_out_eq (clean : 0 ∉ text) (has : HasBytes mem val (text ++ [0])) :
    copyOut mem len val =
      if text.length < len then
        ⟨text.length + 1, text ++ if len = text.length + 1 then [0, 0] else [0]⟩
      else ⟨len + 1, text.take len⟩ := by
  unfold copyOut
  dsimp only
  rw [copy_loop_eq text (len + 1) val 0 clean has (Nat.zero_le _) (by omega), Nat.zero_add,
    Nat.sub_zero]
  by_cases fits : text.length < len
  · rw [if_pos fits, if_pos fits]
    by_cases full : len = text.length + 1
    · rw [if_pos full, if_pos full, List.append_assoc]
      rfl
    · rw [if_neg full, if_neg full, List.append_nil]
      rfl
  · rw [if_neg fits, if_neg fits, if_neg (by omega), List.append_nil]
    rfl

theorem text_of_front (clean : 0 ∉ text) (rest : List UInt8) :
    bufferText (text ++ 0 :: rest) = text := by
  unfold bufferText
  have nonzero : ∀ c ∈ text, decide (c ≠ 0) = true := by
    intro c member
    rw [decide_eq_true_eq]
    rintro rfl
    exact clean member
  rw [List.takeWhile_append_of_pos nonzero, List.takeWhile_cons_of_neg (by simp),
    List.append_nil]

/-- The copy is as it is to be when the value leaves room for two bytes. -/
theorem copies_text_iff (clean : 0 ∉ text) (has : HasBytes mem val (text ++ [0]))
    (buffer : List UInt8) :
    CopiesText len buffer text (copyOut mem len val) ↔ text.length + 2 ≤ len := by
  rw [copy_out_eq clean has]
  constructor
  · rintro ⟨inside, terminated, _, _⟩
    by_cases fits : text.length < len
    · rw [if_pos fits] at inside
      by_contra full
      rw [if_pos (by omega), List.length_append] at inside
      simp only [List.length_cons, List.length_nil] at inside
      omega
    · -- too long a value fills the buffer, and there is no NUL
      rw [if_neg fits] at terminated
      have taken : (after buffer (text.take len)).take len = text.take len := by
        unfold after
        rw [List.take_append_of_le_length (by rw [List.length_take]; omega), List.take_take,
          Nat.min_self]
      rw [taken] at terminated
      exact absurd (List.mem_of_mem_take terminated) clean
  · intro room
    rw [if_pos (by omega), if_neg (by omega)]
    have held : after buffer (text ++ [0]) = text ++ 0 :: buffer.drop (text ++ [0]).length := by
      unfold after
      rw [List.append_assoc]
      rfl
    refine ⟨?_, ?_, ?_, fun _ => ?_⟩
    · simp only [List.length_append, List.length_singleton]
      omega
    · dsimp only
      rw [held, List.mem_take_iff_getElem]
      exact ⟨text.length, by simp; omega, by simp⟩
    · dsimp only
      rw [held, text_of_front clean]
    · dsimp only
      rw [held, text_of_front clean]

/-- The result counts the NUL, or the turn for which there was no room. -/
theorem copy_returns (clean : 0 ∉ text) (has : HasBytes mem val (text ++ [0]))
    (buffer : List UInt8) (copies : CopiesText len buffer text (copyOut mem len val)) :
    (copyOut mem len val).rcode ≠
      (bufferText (after buffer (copyOut mem len val).written)).length := by
  have room := (copies_text_iff clean has buffer).mp copies
  rw [copies.whole (by omega), copy_out_eq clean has, if_pos (by omega)]
  dsimp only
  omega

end Copy

/-! ### On an environment -/

variable {cfg : EnvConfig} {state : EnvState}

/-- What getenv finds is the start of a string with its NUL. -/
theorem getenv_value (wellFormed : WellFormed cfg state.data) {name : CString} {val : Nat}
    (found : getenv cfg state name = some val) : ∃ text, 0 ∉ text ∧
      HasBytes state.data.mem val (text ++ [0]) ∧ getenvString cfg state name = some text := by
  obtain ⟨entries, holds⟩ := wellFormed
  have size := env_size_le cfg
  have fits := holds.fits
  have count := table_length_ge entries
  have room := table_lt_block entries
  have has := has_table_of_block holds.holds
  have located := found
  rw [getenv, getenv_loop_eq name.terminated holds.valid has (by omega) (by omega),
    Option.map_eq_some_iff] at located
  obtain ⟨old, here, rfl⟩ := located
  obtain ⟨before, entry, behind, rfl, named, _, rfl⟩ := locate_some here
  have valid := holds.valid entry (List.mem_append_right _ List.mem_cons_self)
  rw [table_append, List.append_assoc, has_bytes_append] at has
  have own := (table_cons_split has.2).1
  have split := entry_split valid.assigned
  have clean : 0 ∉ value entry := fun member => valid.terminated (by
    rw [split]
    exact List.mem_append_right _ (List.mem_cons_of_mem _ member))
  rw [split, List.append_assoc, has_bytes_append, named] at own
  have text : HasBytes state.data.mem (0 + (table before).length + (key name.bytes).length + 1)
      (value entry ++ [0]) := own.2.2
  have short : (value entry).length < cfg.cfgEnvSize := by
    have length := congrArg List.length split
    rw [table_append] at room
    simp only [table, List.length_append, List.length_cons] at room length
    omega
  refine ⟨value entry, clean, text, ?_⟩
  rw [getenvString, found, Option.map_some, string_at_eq clean text short]

/-- getenv_r does what it is to do only for a variable that is not there: the result is never the
length of the text, and the buffer is right when the value leaves room for two bytes. -/
theorem getenv_r_meets_iff (wellFormed : WellFormed cfg state.data) (name : CString) (len : Nat)
    (buffer : List UInt8) :
    (Meets len buffer (getenvString cfg state name) (getenvR cfg state name len) ↔
        getenv cfg state name = none) ∧
      ((getenvR cfg state name len).rcode = -1 ↔ getenv cfg state name = none) ∧
      ∀ text, getenvString cfg state name = some text →
        (CopiesText len buffer text (getenvR cfg state name len) ↔ text.length + 2 ≤ len) := by
  rw [getenv_r_eq]
  cases found : getenv cfg state name with
  | none =>
      have nothing : getenvString cfg state name = none := by
        rw [getenvString, found]
        rfl
      rw [nothing]
      exact ⟨⟨fun _ => rfl, fun _ => rfl⟩, ⟨fun _ => rfl, fun _ => rfl⟩,
        fun text absent => absurd absent (Option.some_ne_none text).symm⟩
  | some val =>
      obtain ⟨text, clean, has, string⟩ := getenv_value wellFormed found
      rw [string]
      refine ⟨⟨?_, fun absent => absurd absent (Option.some_ne_none val)⟩,
        ⟨?_, fun absent => absurd absent (Option.some_ne_none val)⟩, ?_⟩
      · rintro ⟨copies, returned⟩
        exact absurd returned (copy_returns clean has buffer copies)
      · intro minus
        dsimp only at minus
        rw [copy_out_eq clean has] at minus
        split at minus <;> dsimp only at minus <;> omega
      · intro other same
        rw [← Option.some.inj same]
        exact copies_text_iff clean has buffer

/-- A value of 6 bytes in a buffer of 7. -/
theorem serial_in_seven : WellFormed smallConfig stdinSerial.data ∧
    getenvString smallConfig stdinSerial ⟨ascii "stdin", by decide⟩ = some (ascii "serial") ∧
    ¬ Meets 7 (List.replicate 7 0xff)
      (getenvString smallConfig stdinSerial ⟨ascii "stdin", by decide⟩)
      (getenvR smallConfig stdinSerial ⟨ascii "stdin", by decide⟩ 7) := by
  refine ⟨stdin_serial_well_formed, by decide +kernel, fun meets => ?_⟩
  have found : getenvString smallConfig stdinSerial ⟨ascii "stdin", by decide⟩ =
      some (ascii "serial") := by decide +kernel
  rw [found] at meets
  exact absurd meets.1.inside (by decide +kernel)

theorem absent_variable :
    (getenvR smallConfig stdinSerial ⟨ascii "stdout", by decide⟩ 7).rcode = -1 :=
  (getenv_r_meets_iff stdin_serial_well_formed ⟨ascii "stdout", by decide⟩ 7 []).2.1.mpr
    (by decide +kernel)

end UBoot.Env.GetenvR
