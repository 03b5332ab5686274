import UBoot.Env.Redundant

/-!
common/env_nand.c with two copies of the environment (CFG_ENV_OFFSET_REDUND),
which are told apart by a serial in `flags`. The environment is not embedded.
-/

namespace UBoot.Env.EnvNand

open Lib.Crc32 Library.Runs Redundant

variable {envSize : Nat}

/-- What nand_erase and nand_write make of a copy. -/
inductive Outcome (envSize : Nat) where
  | done
  | eraseFails
  | writeFails (left : { copy : EnvT envSize // ¬ copy.CrcOk })

/-- `env` is what env_ptr points to; the copies are those at CFG_ENV_OFFSET and at
CFG_ENV_OFFSET_REDUND. -/
structure Board (envSize : Nat) where
  copies : Copies envSize
  env : EnvT envSize
  envValid : Nat

/-- The copy that saveenv replaces. -/
def saveSlot (envValid : Nat) : Slot := if envValid = 1 then .addrRedund else .addr

/-- saveenv and its return value. -/
def saveenv (board : Board envSize) (outcome : Outcome envSize) : Board envSize × Nat :=
  let env := { board.env with flags := board.env.flags + 1 }
  let slot := saveSlot board.envValid
  match outcome with
  | .eraseFails => ({ board with env := env }, 1)
  | .writeFails left =>
      ({ board with env := env, copies := Function.update board.copies slot left }, 1)
  | .done =>
      ({ copies := Function.update board.copies slot env
         env := env
         envValid := if board.envValid = 2 then 1 else 2 }, 0)

def useDefault (defaultEnvironment : Vector UInt8 envSize) : EnvT envSize :=
  ⟨crc32 0 defaultEnvironment.toList, 0, defaultEnvironment⟩

/-- The serials of two copies that are both right. -/
def checkSerial (flags1 flags2 : UInt8) : Nat :=
  if flags1 = 255 ∧ flags2 = 0 then 2
  else if flags2 = 255 ∧ flags1 = 0 then 1
  else if flags1 > flags2 then 1
  else if flags2 > flags1 then 2
  else 1

/-- env_ptr and gd->env_valid after env_relocate_spec. -/
def envRelocateSpec (defaultEnvironment : Vector UInt8 envSize) (copies : Copies envSize) :
    EnvT envSize × Nat :=
  let crc1Ok := (copies .addr).CrcOk
  let crc2Ok := (copies .addrRedund).CrcOk
  if ¬ crc1Ok ∧ ¬ crc2Ok then (useDefault defaultEnvironment, 1)
  else
    let envValid :=
      if crc1Ok ∧ ¬ crc2Ok then 1
      else if ¬ crc1Ok ∧ crc2Ok then 2
      else checkSerial (copies .addr).flags (copies .addrRedund).flags
    (if envValid = 1 then copies .addr else copies .addrRedund, envValid)

/-- setenv, whose env_crc_update keeps the checksum right. -/
def setenv (env : EnvT envSize) (data : Vector UInt8 envSize) : EnvT envSize :=
  { env with data := data, crc := crc32 0 data.toList }

inductive Event (envSize : Nat) where
  | setenv (data : Vector UInt8 envSize)
  | saveenv (outcome : Outcome envSize)
  | reboot

/-- The board, and what the last saveenv that returned 0 has stored. -/
structure Session (envSize : Nat) where
  board : Board envSize
  saved : Option (EnvT envSize)

def reboot (defaultEnvironment : Vector UInt8 envSize) (copies : Copies envSize) : Board envSize :=
  let relocated := envRelocateSpec defaultEnvironment copies
  ⟨copies, relocated.1, relocated.2⟩

def next (defaultEnvironment : Vector UInt8 envSize) (session : Session envSize) :
    Event envSize → Session envSize
  | .setenv data =>
      { session with board := { session.board with env := EnvNand.setenv session.board.env data } }
  | .saveenv outcome =>
      let after := EnvNand.saveenv session.board outcome
      ⟨after.1, if after.2 = 0 then some after.1.env else session.saved⟩
  | .reboot => { session with board := EnvNand.reboot defaultEnvironment session.board.copies }

def start (defaultEnvironment : Vector UInt8 envSize) (copies : Copies envSize) :
    Session envSize := ⟨reboot defaultEnvironment copies, none⟩

/-- The serial of a new copy against the serial of the copy that stays. -/
def Newer (slot : Slot) (serial kept : UInt8) : Prop :=
  (kept = 255 ∧ serial = 0) ∨ (kept < serial ∧ ¬ (kept = 0 ∧ serial = 255)) ∨
    (kept = serial ∧ slot = .addr)

instance (slot : Slot) (serial kept : UInt8) : Decidable (Newer slot serial kept) :=
  inferInstanceAs (Decidable (_ ∨ _ ∨ _))

/-- A saveenv that will succeed stores a serial newer than the one of a right copy that stays. -/
def Advances (session : Session envSize) : Event envSize → Prop
  | .saveenv .done =>
      let slot := saveSlot session.board.envValid
      (session.board.copies slot.other).CrcOk →
        Newer slot (session.board.env.flags + 1) (session.board.copies slot.other).flags
  | _ => True

instance (session : Session envSize) (event : Event envSize) : Decidable (Advances session event) :=
  match event with
  | .saveenv .done => inferInstanceAs (Decidable (_ → _))
  | .saveenv .eraseFails => isTrue trivial
  | .saveenv (.writeFails _) => isTrue trivial
  | .setenv _ => isTrue trivial
  | .reboot => isTrue trivial

section Selection

/-- gd->env_valid for a copy. -/
def number : Slot → Nat
  | .addr => 1
  | .addrRedund => 2

theorem check_serial_first (serial kept : UInt8) :
    checkSerial serial kept = 1 ↔ Newer .addr serial kept := by
  unfold checkSerial Newer
  grind

theorem check_serial_second (kept serial : UInt8) :
    checkSerial kept serial = 2 ↔ Newer .addrRedund serial kept := by
  unfold checkSerial Newer
  grind

/-- env_relocate_spec takes the copy: it is complete, and newer than a complete other one. -/
structure Selected (copies : Copies envSize) (slot : Slot) : Prop where
  crcOk : (copies slot).CrcOk
  newer : (copies slot.other).CrcOk →
    Newer slot (copies slot).flags (copies slot.other).flags

theorem relocate_selected (defaultEnvironment : Vector UInt8 envSize) (copies : Copies envSize)
    (slot : Slot) (selected : Selected copies slot) :
    envRelocateSpec defaultEnvironment copies = (copies slot, number slot) := by
  obtain ⟨crcOk, newer⟩ := selected
  by_cases both : (copies slot.other).CrcOk
  · have wins := newer both
    cases slot with
    | addr =>
        have serial := (check_serial_first _ _).mpr wins
        simp_all [envRelocateSpec, Slot.other, number]
    | addrRedund =>
        have serial := (check_serial_second _ _).mpr wins
        simp_all [envRelocateSpec, Slot.other, number]
  · cases slot <;> simp_all [envRelocateSpec, Slot.other, number]

theorem relocate_valid_iff (defaultEnvironment : Vector UInt8 envSize) (copies : Copies envSize)
    (slot : Slot) (crcOk : (copies slot).CrcOk) :
    (envRelocateSpec defaultEnvironment copies).2 = number slot ↔
      ((copies slot.other).CrcOk → Newer slot (copies slot).flags (copies slot.other).flags) := by
  constructor
  · intro chosen both
    cases slot with
    | addr =>
        simp only [Slot.other] at both
        apply (check_serial_first _ _).mp
        show checkSerial (copies .addr).flags (copies .addrRedund).flags = 1
        simpa [envRelocateSpec, crcOk, both, number] using chosen
    | addrRedund =>
        simp only [Slot.other] at both
        apply (check_serial_second _ _).mp
        show checkSerial (copies .addr).flags (copies .addrRedund).flags = 2
        simpa [envRelocateSpec, crcOk, both, number] using chosen
  · intro newer
    rw [relocate_selected defaultEnvironment copies slot ⟨crcOk, newer⟩]

theorem check_serial_range (flags1 flags2 : UInt8) :
    checkSerial flags1 flags2 = 1 ∨ checkSerial flags1 flags2 = 2 := by
  unfold checkSerial
  grind

theorem relocate_chooses (defaultEnvironment : Vector UInt8 envSize) (copies : Copies envSize) :
    (¬ (copies .addr).CrcOk ∧
        envRelocateSpec defaultEnvironment copies = (useDefault defaultEnvironment, 1)) ∨
      ∃ slot, (copies slot).CrcOk ∧
        envRelocateSpec defaultEnvironment copies = (copies slot, number slot) := by
  by_cases first : (copies .addr).CrcOk
  · by_cases second : (copies .addrRedund).CrcOk
    · right
      rcases check_serial_range (copies .addr).flags (copies .addrRedund).flags with one | two
      · exact ⟨.addr, first, by simp [envRelocateSpec, first, second, one, number]⟩
      · exact ⟨.addrRedund, second, by simp [envRelocateSpec, first, second, two, number]⟩
    · exact Or.inr ⟨.addr, first, by simp [envRelocateSpec, first, second, number]⟩
  · by_cases second : (copies .addrRedund).CrcOk
    · exact Or.inr ⟨.addrRedund, second, by simp [envRelocateSpec, first, second, number]⟩
    · exact Or.inl ⟨first, by simp [envRelocateSpec, first, second]⟩

end Selection

section Runs

/-- The copy that the board runs from. -/
def currentSlot (board : Board envSize) : Slot := (saveSlot board.envValid).other

structure Settled (session : Session envSize) : Prop where
  valid : session.board.envValid = number (currentSlot session.board)
  envCrc : session.board.env.CrcOk
  kept : ∀ stored, session.saved = some stored →
    session.board.copies (currentSlot session.board) = stored ∧
      Selected session.board.copies (currentSlot session.board)

theorem current_number (slot : Slot) : (saveSlot (number slot)).other = slot := by
  cases slot <;> rfl

theorem reboot_settled (defaultEnvironment : Vector UInt8 envSize) (copies : Copies envSize) :
    let board := reboot defaultEnvironment copies
    board.envValid = number (currentSlot board) ∧ board.env.CrcOk := by
  dsimp only [reboot, currentSlot]
  rcases relocate_chooses defaultEnvironment copies with ⟨-, unset⟩ | ⟨slot, crcOk, chosen⟩
  · rw [unset]
    exact ⟨rfl, rfl⟩
  · rw [chosen, current_number]
    exact ⟨rfl, crcOk⟩

theorem start_settled (defaultEnvironment : Vector UInt8 envSize) (copies : Copies envSize) :
    Settled (start defaultEnvironment copies) := by
  obtain ⟨valid, envCrc⟩ := reboot_settled defaultEnvironment copies
  refine ⟨valid, envCrc, ?_⟩
  intro stored none
  cases none

/-- A reboot comes back to the copy that the last successful saveenv has written. -/
theorem settled_reboot (defaultEnvironment : Vector UInt8 envSize) (session : Session envSize)
    (settled : Settled session) : Settled (next defaultEnvironment session .reboot) := by
  obtain ⟨valid, envCrc⟩ := reboot_settled defaultEnvironment session.board.copies
  refine ⟨valid, envCrc, ?_⟩
  intro stored saved
  obtain ⟨copy, selected⟩ := settled.kept stored saved
  have chosen := relocate_selected defaultEnvironment _ _ selected
  have slot : currentSlot (reboot defaultEnvironment session.board.copies) =
      currentSlot session.board := by
    unfold reboot
    rw [chosen]
    exact current_number _
  show session.board.copies (currentSlot (reboot defaultEnvironment session.board.copies)) = _ ∧
    Selected session.board.copies (currentSlot (reboot defaultEnvironment session.board.copies))
  rw [slot]
  exact ⟨copy, selected⟩

theorem settled_write_fails (defaultEnvironment : Vector UInt8 envSize) (session : Session envSize)
    (left : { copy : EnvT envSize // ¬ copy.CrcOk }) (settled : Settled session) :
    Settled (next defaultEnvironment session (.saveenv (.writeFails left))) := by
  obtain ⟨valid, envCrc, kept⟩ := settled
  refine ⟨valid, envCrc, ?_⟩
  intro stored saved
  obtain ⟨copy, selected⟩ := kept stored saved
  have away : currentSlot session.board ≠ saveSlot session.board.envValid := other_ne _
  have stays : Function.update session.board.copies (saveSlot session.board.envValid) left.val
      (currentSlot session.board) = session.board.copies (currentSlot session.board) :=
    Function.update_of_ne away _ _
  have other : (currentSlot session.board).other = saveSlot session.board.envValid := other_other _
  refine ⟨stays.trans copy, ?_, ?_⟩
  · have crcOk := selected.crcOk
    rw [← stays] at crcOk
    exact crcOk
  · intro valid
    exfalso
    apply left.property
    have replaced : Function.update session.board.copies (saveSlot session.board.envValid) left.val
        (currentSlot session.board).other = left.val := by
      rw [other]
      exact Function.update_self _ _ _
    rw [← replaced]
    exact valid

section Done
variable (defaultEnvironment : Vector UInt8 envSize) (session : Session envSize)

theorem done_valid (valid : session.board.envValid = number (currentSlot session.board)) :
    (next defaultEnvironment session (.saveenv .done)).board.envValid =
      number (saveSlot session.board.envValid) := by
  show (if session.board.envValid = 2 then 1 else 2) = _
  unfold currentSlot at valid
  cases target : saveSlot session.board.envValid with
  | addr =>
      rw [target] at valid
      have two : session.board.envValid = 2 := valid
      rw [if_pos two]
      rfl
  | addrRedund =>
      rw [target] at valid
      have one : session.board.envValid = 1 := valid
      rw [one]
      rfl

theorem done_slot (valid : session.board.envValid = number (currentSlot session.board)) :
    currentSlot (next defaultEnvironment session (.saveenv .done)).board =
      saveSlot session.board.envValid := by
  unfold currentSlot
  rw [done_valid defaultEnvironment session valid]
  exact current_number _

theorem done_written :
    (next defaultEnvironment session (.saveenv .done)).board.copies
        (saveSlot session.board.envValid) =
      { session.board.env with flags := session.board.env.flags + 1 } :=
  Function.update_self _ _ _

theorem done_stays :
    (next defaultEnvironment session (.saveenv .done)).board.copies
        (saveSlot session.board.envValid).other =
      session.board.copies (saveSlot session.board.envValid).other :=
  Function.update_of_ne (other_ne _) _ _

theorem settled_done (settled : Settled session)
    (advances : Advances session (.saveenv .done)) :
    Settled (next defaultEnvironment session (.saveenv .done)) := by
  have slot := done_slot defaultEnvironment session settled.valid
  refine ⟨?_, settled.envCrc, ?_⟩
  · rw [slot]
    exact done_valid defaultEnvironment session settled.valid
  · intro stored saved
    cases saved
    rw [slot]
    refine ⟨done_written defaultEnvironment session, ?_, ?_⟩
    · rw [done_written]
      exact settled.envCrc
    · rw [done_written, done_stays]
      exact advances

/-- A successful saveenv is found again exactly if it advances the serial. -/
theorem done_selected_iff (settled : Settled session) :
    (envRelocateSpec defaultEnvironment
        (next defaultEnvironment session (.saveenv .done)).board.copies).2 =
      number (saveSlot session.board.envValid) ↔ Advances session (.saveenv .done) := by
  rw [relocate_valid_iff]
  · rw [done_written, done_stays]
    rfl
  · rw [done_written]
    exact settled.envCrc

end Done

theorem settled_next (defaultEnvironment : Vector UInt8 envSize) (session : Session envSize)
    (event : Event envSize) (settled : Settled session) (advances : Advances session event) :
    Settled (next defaultEnvironment session event) := by
  cases event with
  | setenv data => exact ⟨settled.valid, rfl, settled.kept⟩
  | saveenv outcome =>
      cases outcome with
      | done => exact settled_done defaultEnvironment session settled advances
      | eraseFails => exact ⟨settled.valid, settled.envCrc, settled.kept⟩
      | writeFails left => exact settled_write_fails defaultEnvironment session left settled
  | reboot => exact settled_reboot defaultEnvironment session settled

theorem relocate_last_saved (defaultEnvironment : Vector UInt8 envSize) (copies : Copies envSize)
    {events : List (Event envSize)} {last : Session envSize}
    (run : Run (Guarded Advances (stepOf (next defaultEnvironment)))
      (start defaultEnvironment copies) events last)
    (stored : EnvT envSize) (saved : last.saved = some stored) :
    (envRelocateSpec defaultEnvironment last.board.copies).1 = stored := by
  have settled : Settled last := by
    refine run_preserves _ Settled ?_ run (start_settled defaultEnvironment copies)
    rintro before event after settled ⟨advances, rfl⟩
    exact settled_next defaultEnvironment before event settled advances
  obtain ⟨copy, selected⟩ := settled.kept stored saved
  rw [relocate_selected defaultEnvironment _ _ selected]
  exact copy

/-- One byte of environment in the first copy, with this serial; the second copy is erased. -/
def oneCopy (serial : UInt8) : Copies 1
  | .addr => ⟨crc32 0 [7], serial, #v[7]⟩
  | .addrRedund => ⟨2 ^ 32 - 1, 0xff, #v[0xff]⟩

def wrapEvents : List (Event 1) :=
  [.saveenv .done, .setenv #v[8], .saveenv .eraseFails, .reboot, .setenv #v[9], .saveenv .done]

theorem wrap_saved_selected :
    (envRelocateSpec #v[0] (wrapEvents.foldl (next #v[0]) (start #v[0] (oneCopy 254))).board.copies).1 =
      ⟨crc32 0 [9], 0, #v[9]⟩ :=
  relocate_last_saved #v[0] (oneCopy 254)
    (run_passes Advances (next #v[0]) (show Passes Advances (next #v[0])
      (start #v[0] (oneCopy 254)) wrapEvents by decide +kernel)) _ rfl

/-- The serial passes 255 on the attempt that fails. -/
theorem failed_attempt_hides_saved :
    ¬ ∀ (defaultEnvironment : Vector UInt8 1) (copies : Copies 1) (events : List (Event 1))
      (last : Session 1) (stored : EnvT 1),
      Run (stepOf (next defaultEnvironment)) (start defaultEnvironment copies) events last →
      last.saved = some stored →
      (envRelocateSpec defaultEnvironment last.board.copies).1 = stored := by
  intro always
  have selected := always #v[0] (oneCopy 254)
    [.setenv #v[8], .saveenv .eraseFails, .saveenv .done] _ _ (run_foldl _ _ _) rfl
  exact absurd selected (by decide +kernel)

end Runs

section NoFailures

/-- Every saveenv of the run succeeds. -/
def Succeeds (_ : Session envSize) : Event envSize → Prop
  | .saveenv outcome => outcome = .done
  | _ => True

/-- The serial in RAM is the one of the copy that the board runs from. -/
def Tracked (session : Session envSize) : Prop :=
  (session.board.copies (currentSlot session.board)).CrcOk →
    session.board.env.flags = (session.board.copies (currentSlot session.board)).flags

theorem newer_next (slot : Slot) (kept : UInt8) : Newer slot (kept + 1) kept := by
  unfold Newer
  by_cases last : kept = 255
  · left
    rw [last]
    decide
  · right
    left
    have bound : kept.toNat ≠ 255 := fun same => last (UInt8.toNat_inj.mp same)
    have range := kept.toNat_lt
    have value : (kept + 1).toNat = kept.toNat + 1 := by
      rw [UInt8.toNat_add]
      show (kept.toNat + 1) % 2 ^ 8 = kept.toNat + 1
      omega
    refine ⟨?_, ?_⟩
    · rw [UInt8.lt_iff_toNat_lt, value]
      omega
    · rintro ⟨zero, top⟩
      rw [zero] at top
      exact absurd top (by decide)

theorem tracked_advances (session : Session envSize) (event : Event envSize)
    (tracked : Tracked session) (succeeds : Succeeds session event) : Advances session event := by
  cases event with
  | saveenv outcome =>
      rw [show outcome = .done from succeeds]
      intro crcOk
      have same : session.board.env.flags = _ := tracked crcOk
      rw [same]
      exact newer_next _ _
  | _ => trivial

theorem tracked_reboot (defaultEnvironment : Vector UInt8 envSize) (copies : Copies envSize) :
    let board := reboot defaultEnvironment copies
    (board.copies (currentSlot board)).CrcOk →
      board.env.flags = (board.copies (currentSlot board)).flags := by
  dsimp only [reboot, currentSlot]
  rcases relocate_chooses defaultEnvironment copies with ⟨broken, unset⟩ | ⟨slot, crcOk, chosen⟩
  · rw [unset]
    intro valid
    exact absurd valid broken
  · rw [chosen, current_number]
    exact fun _ => rfl

theorem tracked_next (defaultEnvironment : Vector UInt8 envSize) (session : Session envSize)
    (event : Event envSize) (settled : Settled session) (tracked : Tracked session)
    (succeeds : Succeeds session event) : Tracked (next defaultEnvironment session event) := by
  cases event with
  | setenv data => exact tracked
  | saveenv outcome =>
      rw [show outcome = .done from succeeds]
      intro _
      rw [done_slot defaultEnvironment session settled.valid, done_written]
      rfl
  | reboot => exact tracked_reboot defaultEnvironment session.board.copies

/-- Without a failing saveenv the serial may wrap as often as it likes. -/
theorem relocate_without_failures (defaultEnvironment : Vector UInt8 envSize)
    (copies : Copies envSize) {events : List (Event envSize)} {last : Session envSize}
    (run : Run (Guarded Succeeds (stepOf (next defaultEnvironment)))
      (start defaultEnvironment copies) events last)
    (stored : EnvT envSize) (saved : last.saved = some stored) :
    (envRelocateSpec defaultEnvironment last.board.copies).1 = stored := by
  have both : Settled last ∧ Tracked last := by
    refine run_preserves _ (fun session => Settled session ∧ Tracked session) ?_ run
      ⟨start_settled defaultEnvironment copies, tracked_reboot defaultEnvironment copies⟩
    rintro before event after ⟨settled, tracked⟩ ⟨succeeds, rfl⟩
    exact ⟨settled_next defaultEnvironment before event settled
        (tracked_advances before event tracked succeeds),
      tracked_next defaultEnvironment before event settled tracked succeeds⟩
  obtain ⟨copy, selected⟩ := both.1.kept stored saved
  rw [relocate_selected defaultEnvironment _ _ selected]
  exact copy

end NoFailures

end UBoot.Env.EnvNand
