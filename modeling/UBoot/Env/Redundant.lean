import Mathlib.Data.UInt
import UBoot.Lib.Crc32
import UBoot.Library.Crash
import UBoot.Library.Runs

/-!
common/env_flash.c with two copies of the environment (CFG_ENV_ADDR_REDUND). A
copy has a sector of its own. Flash writes only clear bits, and a copy that is
erased or written in part has a wrong checksum. flash_addr and flash_addr_new
are reset to the two configured addresses by a reset; gd is zero then.
-/

namespace UBoot.Env.Redundant

open Lib.Crc32 Library.Crash Library.Runs

/-- CFG_ENV_ADDR and CFG_ENV_ADDR_REDUND. -/
inductive Slot where
  | addr
  | addrRedund
  deriving DecidableEq

def Slot.other : Slot → Slot
  | .addr => .addrRedund
  | .addrRedund => .addr

def activeFlag : UInt8 := 1

def obsoleteFlag : UInt8 := 0

/-- env_t; `envSize` is ENV_SIZE. -/
structure EnvT (envSize : Nat) where
  crc : Nat
  flags : UInt8
  data : Vector UInt8 envSize
  deriving DecidableEq

abbrev Copies (envSize : Nat) := Slot → EnvT envSize

variable {envSize : Nat}

def EnvT.CrcOk (copy : EnvT envSize) : Prop := crc32 0 copy.data.toList = copy.crc

instance (copy : EnvT envSize) : Decidable copy.CrcOk := inferInstanceAs (Decidable (_ = _))

/-- gd->env_addr. -/
inductive EnvAddr where
  | unset
  | defaultEnvironment
  | data (slot : Slot)
  deriving DecidableEq

structure EnvInit where
  envAddr : EnvAddr
  envValid : Nat
  deriving DecidableEq

def envInit (copies : Copies envSize) : EnvInit :=
  let flag1 := (copies .addr).flags
  let flag2 := (copies .addrRedund).flags
  let crc1Ok := (copies .addr).CrcOk
  let crc2Ok := (copies .addrRedund).CrcOk
  if crc1Ok ∧ ¬ crc2Ok then ⟨.data .addr, 1⟩
  else if ¬ crc1Ok ∧ crc2Ok then ⟨.data .addrRedund, 1⟩
  else if ¬ crc1Ok ∧ ¬ crc2Ok then ⟨.defaultEnvironment, 0⟩
  else if flag1 = activeFlag ∧ flag2 = obsoleteFlag then ⟨.data .addr, 1⟩
  else if flag1 = obsoleteFlag ∧ flag2 = activeFlag then ⟨.data .addrRedund, 1⟩
  else if flag1 = flag2 then ⟨.data .addr, 2⟩
  else if flag1 = 0xff then ⟨.data .addr, 2⟩
  else if flag2 = 0xff then ⟨.data .addrRedund, 2⟩
  else ⟨.unset, 0⟩

/-- The calls of flash_sect_erase and flash_write on a copy. -/
inductive FlashOp (envSize : Nat) where
  | erase (slot : Slot)
  | writeData (slot : Slot) (data : Vector UInt8 envSize)
  | writeCrc (slot : Slot) (crc : Nat)
  | writeFlags (slot : Slot) (flag : UInt8)

def complete (copies : Copies envSize) : FlashOp envSize → Copies envSize
  | .erase slot => Function.update copies slot ⟨2 ^ 32 - 1, 0xff, Vector.replicate envSize 0xff⟩
  | .writeData slot data => Function.update copies slot
      { copies slot with data := Vector.zipWith (· &&& ·) (copies slot).data data }
  | .writeCrc slot crc => Function.update copies slot
      { copies slot with crc := (copies slot).crc &&& crc }
  | .writeFlags slot flag => Function.update copies slot
      { copies slot with flags := (copies slot).flags &&& flag }

/-- What a power failure during one operation leaves of the copy it is about; `left` are the bits
of a flag that have not been programmed. -/
def PartlyDone (copy : EnvT envSize) : FlashOp envSize → EnvT envSize → Prop
  | .erase _, after => after = copy ∨ ¬ after.CrcOk
  | .writeData _ data, after => after.flags = copy.flags ∧ (after.CrcOk → after.data = data)
  | .writeCrc _ _, after => after.flags = copy.flags ∧ after.data = copy.data
  | .writeFlags _ flag, after =>
      ∃ left : UInt8, after = { copy with flags := copy.flags &&& (flag ||| left) }

def FlashOp.slot : FlashOp envSize → Slot
  | .erase slot => slot
  | .writeData slot _ => slot
  | .writeCrc slot _ => slot
  | .writeFlags slot _ => slot

/-- The two sectors, whose other one no operation touches. -/
def flash : Device (Copies envSize) (FlashOp envSize) where
  complete := complete
  interrupted before op after :=
    after op.slot.other = before op.slot.other ∧ PartlyDone (before op.slot) op (after op.slot)

/-- The running board: `flashAddr` is flash_addr and `data` the environment in RAM, whose
checksum env_crc_update keeps right. -/
structure Board (envSize : Nat) where
  copies : Copies envSize
  flashAddr : Slot
  data : Vector UInt8 envSize

def Board.saveOps (board : Board envSize) : List (FlashOp envSize) :=
  [.erase board.flashAddr.other, .writeData board.flashAddr.other board.data,
    .writeCrc board.flashAddr.other (crc32 0 board.data.toList),
    .writeFlags board.flashAddr obsoleteFlag, .writeFlags board.flashAddr.other activeFlag]

def saveenv (board : Board envSize) : Board envSize :=
  { board with
    copies := runOps flash board.copies board.saveOps
    flashAddr := board.flashAddr.other }

/-- The flag writes of env_relocate_spec once flash_addr is `slot`. -/
def relocateOps (copies : Copies envSize) (slot : Slot) : List (FlashOp envSize) :=
  (if (copies slot.other).flags ≠ obsoleteFlag ∧ (copies slot.other).CrcOk then
    [.writeFlags slot.other obsoleteFlag] else []) ++
  (if (copies slot).flags ≠ activeFlag ∧ (copies slot).flags &&& activeFlag = activeFlag then
    [.writeFlags slot activeFlag] else [])

/-- flash_addr after env_relocate_spec. -/
def EnvInit.flashAddr (init : EnvInit) : Slot :=
  if init.envAddr = .data .addr then .addr else .addrRedund

/-- The flash operations of a reset. -/
def bootOps (copies : Copies envSize) : List (FlashOp envSize) :=
  if (envInit copies).envValid = 0 then [] else relocateOps copies (envInit copies).flashAddr

/-- env_init and env_relocate. -/
def boot (defaultEnvironment : Vector UInt8 envSize) (copies : Copies envSize) : Board envSize :=
  let init := envInit copies
  let after := runOps flash copies (bootOps copies)
  if init.envValid = 0 then ⟨after, .addr, defaultEnvironment⟩
  else ⟨after, init.flashAddr, (after init.flashAddr).data⟩

inductive Power (envSize : Nat) where
  | off (copies : Copies envSize)
  | on (board : Board envSize)

/-- A failure names the operation it hits and what it leaves. -/
inductive Event (envSize : Nat) where
  | boot
  | bootFails (op : FlashOp envSize) (crashed : Copies envSize)
  | setenv (data : Vector UInt8 envSize)
  | saveenv
  | saveFails (op : FlashOp envSize) (crashed : Copies envSize)
  | powerOff

def powerStep (defaultEnvironment : Vector UInt8 envSize) :
    Power envSize → Event envSize → Power envSize → Prop
  | .off copies, .boot, after => after = .on (Redundant.boot defaultEnvironment copies)
  | .off copies, .bootFails op crashed, after =>
      CrashAt flash (bootOps copies) copies op crashed ∧ after = .off crashed
  | .on board, .setenv data, after => after = .on { board with data := data }
  | .on board, .saveenv, after => after = .on (Redundant.saveenv board)
  | .on board, .saveFails op crashed, after =>
      CrashAt flash board.saveOps board.copies op crashed ∧ after = .off crashed
  | .on board, .powerOff, after => after = .off board.copies
  | _, _, _ => False

/-- A failure during the write of ACTIVE_FLAG comes before or after the whole flag. -/
def WholeFlag (op : FlashOp envSize) (crashed : Copies envSize) : Prop :=
  ∀ slot, op = .writeFlags slot activeFlag →
    (crashed slot).flags = 0xff ∨ (crashed slot).flags = activeFlag

def failsWhole (_ : Power envSize) : Event envSize → Prop
  | .bootFails op crashed => WholeFlag op crashed
  | .saveFails op crashed => WholeFlag op crashed
  | _ => True

/-- env_init finds the copy: it is complete, and its flag decides against the other one. -/
structure Selectable (copies : Copies envSize) (slot : Slot) : Prop where
  crcOk : (copies slot).CrcOk
  wins : (copies slot).flags = 0xff ∧
      ((copies slot.other).CrcOk → (copies slot.other).flags ≠ 0xff) ∨
    (copies slot).flags = activeFlag ∧
      ((copies slot.other).CrcOk → (copies slot.other).flags = obsoleteFlag)

/-- The copy that a running board uses: complete and active, the other one not. -/
structure Current (copies : Copies envSize) (slot : Slot) : Prop where
  crcOk : (copies slot).CrcOk
  active : (copies slot).flags = activeFlag
  obsolete : (copies slot.other).CrcOk → (copies slot.other).flags = obsoleteFlag

/-- An environment has been saved: a copy can be selected, or the board runs from one. -/
def Saved : Power envSize → Prop
  | .off copies => ∃ slot, Selectable copies slot
  | .on board => Current board.copies board.flashAddr

section Operations
variable {copies : Copies envSize} {slot : Slot}

@[simp] theorem other_ne (slot : Slot) : slot.other ≠ slot := by cases slot <;> decide

@[simp] theorem ne_other (slot : Slot) : slot ≠ slot.other := (other_ne slot).symm

@[simp] theorem other_other (slot : Slot) : slot.other.other = slot := by cases slot <;> rfl

theorem env_init_selects (selectable : Selectable copies slot) :
    (envInit copies).envAddr = .data slot ∧ (envInit copies).envValid ≠ 0 := by
  obtain ⟨crcOk, wins⟩ := selectable
  by_cases both : (copies slot.other).CrcOk
  · rcases wins with ⟨fresh, other⟩ | ⟨active, other⟩
    · have differs := other both
      cases slot with
      | addr =>
          have notFirst : ¬ (copies .addr).flags = obsoleteFlag := by rw [fresh]; decide
          have notActive : ¬ (copies .addr).flags = activeFlag := by rw [fresh]; decide
          by_cases same : (copies .addr).flags = (copies .addrRedund).flags <;>
            simp_all [envInit, Slot.other]
      | addrRedund =>
          have notFirst : ¬ (copies .addrRedund).flags = obsoleteFlag := by rw [fresh]; decide
          have notActive : ¬ (copies .addrRedund).flags = activeFlag := by rw [fresh]; decide
          simp_all [envInit, Slot.other]
    · have obsolete := other both
      cases slot <;> simp_all [envInit, Slot.other, activeFlag, obsoleteFlag]
  · cases slot <;> simp_all [envInit, Slot.other]

theorem relocate_slot (copies : Copies envSize) (slot : Slot) :
    runOps flash copies (relocateOps copies slot) slot =
      if (copies slot).flags ≠ activeFlag ∧ (copies slot).flags &&& activeFlag = activeFlag then
        { copies slot with flags := activeFlag }
      else copies slot := by
  unfold relocateOps
  split
  · split
    · rename_i odd
      simp [runOps, flash, complete, odd.2]
    · simp [runOps, flash, complete]
  · split
    · rename_i odd
      simp [runOps, flash, complete, odd.2]
    · rfl

theorem relocate_other (copies : Copies envSize) (slot : Slot) :
    runOps flash copies (relocateOps copies slot) slot.other =
      if (copies slot.other).flags ≠ obsoleteFlag ∧ (copies slot.other).CrcOk then
        { copies slot.other with flags := obsoleteFlag }
      else copies slot.other := by
  have cleared : ∀ flags : UInt8, flags &&& obsoleteFlag = obsoleteFlag := fun _ => UInt8.and_zero
  unfold relocateOps
  split
  · split
    · simp [runOps, flash, complete, cleared]
    · simp [runOps, flash, complete, cleared]
  · split
    · simp [runOps, flash, complete]
    · rfl

theorem and_ne_erased {flags : UInt8} (differs : flags ≠ 0xff) (mask : UInt8) :
    flags &&& mask ≠ 0xff := by
  intro erased
  have bound := flags.toNat_lt
  have below : flags.toNat &&& mask.toNat ≤ flags.toNat := Nat.and_le_left
  have value : flags.toNat &&& mask.toNat = 255 := by
    rw [← UInt8.toNat_and, erased]
    rfl
  apply differs
  apply UInt8.toNat_inj.mp
  have whole : (0xff : UInt8).toNat = 255 := rfl
  omega

theorem active_bit_stays (left : UInt8) : 0xff &&& (activeFlag ||| left) ≠ obsoleteFlag := by
  intro cleared
  have bit : 1 ≤ (activeFlag.toNat ||| left.toNat) := Nat.left_le_or
  have whole : 0xff &&& (activeFlag ||| left) = activeFlag ||| left := UInt8.neg_one_and
  rw [whole] at cleared
  have value := congrArg UInt8.toNat cleared
  rw [UInt8.toNat_or] at value
  have zero : obsoleteFlag.toNat = 0 := rfl
  omega

/-- A power failure during the flag writes of a reset, whole as to ACTIVE_FLAG, does not change
the selection. -/
theorem boot_crash_selectable (selectable : Selectable copies slot) {op : FlashOp envSize}
    {crashed : Copies envSize} (fails : CrashAt flash (relocateOps copies slot) copies op crashed)
    (whole : WholeFlag op crashed) :
    Selectable crashed slot ∧ (crashed slot).data = (copies slot).data := by
  obtain ⟨crcOk, wins⟩ := selectable
  rcases (crash_at_append flash _ _ copies op crashed).mp fails with first | second
  -- The power fails while the other copy is marked obsolete.
  · split at first
    · rename_i set
      rcases first with ⟨rfl, same, left, other⟩ | none
      · simp only [FlashOp.slot, other_other] at same other
        refine ⟨⟨same ▸ crcOk, ?_⟩, congrArg EnvT.data same⟩
        rcases wins with ⟨fresh, differs⟩ | ⟨active, obsolete⟩
        · left
          refine ⟨same ▸ fresh, fun _ => ?_⟩
          rw [other]
          exact and_ne_erased (differs set.2) _
        · exact absurd (obsolete set.2) set.1
      · exact none.elim
    · exact first.elim
  · -- The other copy is out of the way before the flag of the selected one is touched.
    have front : ∀ before, before = runOps flash copies
        (if (copies slot.other).flags ≠ obsoleteFlag ∧ (copies slot.other).CrcOk then
          [.writeFlags slot.other obsoleteFlag] else []) →
        before slot = copies slot ∧
          ((before slot.other).CrcOk → (before slot.other).flags = obsoleteFlag) := by
      rintro before rfl
      split
      · exact ⟨by simp [runOps, flash, complete], fun _ => by simp [runOps, flash, complete, obsoleteFlag]⟩
      · rename_i kept
        refine ⟨rfl, fun valid => ?_⟩
        by_contra set
        exact kept ⟨set, valid⟩
    generalize runOps flash copies _ = before at second front
    obtain ⟨unchanged, away⟩ := front before rfl
    split at second
    · rcases second with ⟨rfl, other, left, programmed⟩ | none
      · simp only [FlashOp.slot] at other programmed
        have data : (crashed slot).data = (copies slot).data := by
          rw [programmed, unchanged]
        refine ⟨⟨?_, ?_⟩, data⟩
        · rw [programmed, unchanged]
          exact crcOk
        · rcases whole slot rfl with fresh | active
          · left
            refine ⟨fresh, fun valid => ?_⟩
            rw [other] at valid ⊢
            rw [away valid]
            decide
          · right
            refine ⟨active, fun valid => ?_⟩
            rw [other] at valid ⊢
            exact away valid
      · exact none.elim
    · exact second.elim

/-- The selected copy keeps or gets the active flag, the other one is obsolete or invalid. -/
theorem relocate_current (selectable : Selectable copies slot) :
    Current (runOps flash copies (relocateOps copies slot)) slot := by
  obtain ⟨crcOk, wins⟩ := selectable
  constructor
  · rw [relocate_slot]
    split
    · exact crcOk
    · exact crcOk
  · rw [relocate_slot]
    rcases wins with ⟨fresh, _⟩ | ⟨active, _⟩
    · have odd : (copies slot).flags ≠ activeFlag ∧
          (copies slot).flags &&& activeFlag = activeFlag := by
        rw [fresh]
        decide
      rw [if_pos odd]
    · rw [if_neg (fun repaired => repaired.1 active)]
      exact active
  · rw [relocate_other]
    split
    · exact fun _ => rfl
    · rename_i kept
      intro valid
      by_contra set
      exact kept ⟨set, valid⟩

/-- A reset runs from the selected copy, with its data. -/
theorem boot_selected (defaultEnvironment : Vector UInt8 envSize)
    (selectable : Selectable copies slot) :
    boot defaultEnvironment copies =
      ⟨runOps flash copies (relocateOps copies slot), slot, (copies slot).data⟩ := by
  obtain ⟨selected, valid⟩ := env_init_selects selectable
  have address : (envInit copies).flashAddr = slot := by
    cases slot <;> simp [EnvInit.flashAddr, selected]
  have data : (runOps flash copies (relocateOps copies slot) slot).data = (copies slot).data := by
    rw [relocate_slot]
    split <;> rfl
  simp only [boot, bootOps, valid, if_false, address, data]

end Operations

section Saving
variable {board : Board envSize}

def savedCopy (board : Board envSize) (flags : UInt8) : EnvT envSize :=
  ⟨crc32 0 board.data.toList, flags, board.data⟩

theorem saved_copy_crc_ok (flags : UInt8) : (savedCopy board flags).CrcOk := rfl

theorem saved_copy_of_crc_ok {copy : EnvT envSize} {flags : UInt8} (crcOk : copy.CrcOk)
    (sameFlags : copy.flags = flags) (sameData : copy.data = board.data) :
    copy = savedCopy board flags := by
  cases copy with
  | mk crc _ _ =>
      subst sameFlags sameData
      have same : crc = crc32 0 board.data.toList := Eq.symm crcOk
      rw [same]
      rfl

theorem program_erased (data : Vector UInt8 envSize) :
    Vector.zipWith (· &&& ·) (Vector.replicate envSize 0xff) data = data := by
  apply Vector.ext
  intro i inside
  rw [Vector.getElem_zipWith, Vector.getElem_replicate]
  exact UInt8.neg_one_and

/-- The copies after the erase and the writes of data and checksum. -/
theorem save_written (board : Board envSize) :
    runOps flash board.copies [.erase board.flashAddr.other,
      .writeData board.flashAddr.other board.data,
      .writeCrc board.flashAddr.other (crc32 0 board.data.toList)] =
    Function.update board.copies board.flashAddr.other (savedCopy board 0xff) := by
  have small := crc32_lt board.data.toList
  have crc : (2 ^ 32 - 1) &&& crc32 0 board.data.toList = crc32 0 board.data.toList := by
    rw [Nat.and_comm, Nat.and_two_pow_sub_one_eq_mod, Nat.mod_eq_of_lt small]
  have data := program_erased board.data
  simp only [runOps, List.foldl_cons, List.foldl_nil, flash, complete, Function.update_self,
    Function.update_idem, data, crc, savedCopy]

theorem saveenv_copies (board : Board envSize) :
    (saveenv board).copies = Function.update (Function.update board.copies board.flashAddr
        { board.copies board.flashAddr with flags := obsoleteFlag })
      board.flashAddr.other (savedCopy board activeFlag) := by
  have written := save_written board
  have cleared : (board.copies board.flashAddr).flags &&& obsoleteFlag = obsoleteFlag :=
    UInt8.and_zero
  have programmed : (0xff : UInt8) &&& activeFlag = activeFlag := by decide
  have steps : (saveenv board).copies = runOps flash board.copies
      ([.erase board.flashAddr.other, .writeData board.flashAddr.other board.data,
        .writeCrc board.flashAddr.other (crc32 0 board.data.toList)] ++
      [.writeFlags board.flashAddr obsoleteFlag, .writeFlags board.flashAddr.other activeFlag]) :=
    rfl
  rw [steps, run_ops_append, written]
  funext slot
  by_cases current : slot = board.flashAddr
  · subst current
    simp [runOps, flash, complete, cleared]
  · have new : slot = board.flashAddr.other := by
      cases slot <;> cases address : board.flashAddr <;> simp_all [Slot.other]
    subst new
    simp [runOps, flash, complete, savedCopy, programmed]

/-- A completed saveenv leaves a current copy, whatever the flash held. -/
theorem saveenv_current (board : Board envSize) :
    Current (saveenv board).copies board.flashAddr.other := by
  rw [saveenv_copies]
  constructor
  · rw [Function.update_self]
    exact saved_copy_crc_ok activeFlag
  · rw [Function.update_self]
    rfl
  · intro _
    rw [other_other, Function.update_of_ne (ne_other _), Function.update_self]

theorem current_selectable {copies : Copies envSize} {slot : Slot} (current : Current copies slot) :
    Selectable copies slot := ⟨current.crcOk, Or.inr ⟨current.active, current.obsolete⟩⟩

/-- What a power failure inside saveenv leaves: the new copy invalid or not begun, complete and
fresh, or complete with the flags being switched. -/
theorem save_crash_cases {op : FlashOp envSize} {crashed : Copies envSize}
    (fails : CrashAt flash board.saveOps board.copies op crashed) :
    ((∀ slot flag, op ≠ .writeFlags slot flag) ∧
      crashed board.flashAddr = board.copies board.flashAddr ∧
      (crashed board.flashAddr.other = board.copies board.flashAddr.other ∨
        ¬ (crashed board.flashAddr.other).CrcOk ∨
        crashed board.flashAddr.other = savedCopy board 0xff)) ∨
    (op = .writeFlags board.flashAddr obsoleteFlag ∧
      crashed board.flashAddr.other = savedCopy board 0xff ∧
      ∃ left : UInt8, crashed board.flashAddr = { board.copies board.flashAddr with
        flags := (board.copies board.flashAddr).flags &&& (obsoleteFlag ||| left) }) ∨
    (op = .writeFlags board.flashAddr.other activeFlag ∧
      crashed board.flashAddr = { board.copies board.flashAddr with flags := obsoleteFlag } ∧
      ∃ left : UInt8, crashed board.flashAddr.other =
        savedCopy board (0xff &&& (activeFlag ||| left))) := by
  have written := save_written board
  simp only [runOps, List.foldl_cons, List.foldl_nil] at written
  -- The five operations of saveenv, in order.
  rcases fails with ⟨rfl, other, partly⟩ | ⟨rfl, other, partly⟩ | ⟨rfl, other, partly⟩ |
    ⟨rfl, other, partly⟩ | ⟨rfl, other, partly⟩ | none
  · left
    simp only [FlashOp.slot, other_other] at other partly
    refine ⟨by simp, other, ?_⟩
    rcases partly with whole | wrong
    · exact Or.inl whole
    · exact Or.inr (Or.inl wrong)
  · left
    simp only [FlashOp.slot, other_other] at other partly
    have kept : flash.complete board.copies (.erase board.flashAddr.other) board.flashAddr =
        board.copies board.flashAddr := Function.update_of_ne (ne_other _) _ _
    have fresh : (flash.complete board.copies (.erase board.flashAddr.other)
        board.flashAddr.other).flags = 0xff := by
      simp [flash, complete]
    refine ⟨by simp, other.trans kept, Or.inr ?_⟩
    by_cases crcOk : (crashed board.flashAddr.other).CrcOk
    · exact Or.inr (saved_copy_of_crc_ok crcOk (partly.1.trans fresh) (partly.2 crcOk))
    · exact Or.inl crcOk
  · left
    simp only [FlashOp.slot, other_other] at other partly
    have kept : flash.complete (flash.complete board.copies (.erase board.flashAddr.other))
        (.writeData board.flashAddr.other board.data) board.flashAddr =
        board.copies board.flashAddr := by
      simp [flash, complete]
    have fresh : (flash.complete (flash.complete board.copies (.erase board.flashAddr.other))
        (.writeData board.flashAddr.other board.data) board.flashAddr.other) =
        ⟨2 ^ 32 - 1, 0xff, board.data⟩ := by
      simp [flash, complete, program_erased]
    rw [fresh] at partly
    refine ⟨by simp, other.trans kept, Or.inr ?_⟩
    by_cases crcOk : (crashed board.flashAddr.other).CrcOk
    · exact Or.inr (saved_copy_of_crc_ok crcOk partly.1 partly.2)
    · exact Or.inl crcOk
  · right
    left
    rw [written] at other partly
    simp only [FlashOp.slot, Function.update_self, Function.update_of_ne (ne_other _)] at other partly
    exact ⟨rfl, other, partly⟩
  · right
    right
    rw [written] at other partly
    have cleared : (board.copies board.flashAddr).flags &&& obsoleteFlag = obsoleteFlag :=
      UInt8.and_zero
    obtain ⟨left, programmed⟩ := partly
    refine ⟨rfl, ?_, left, ?_⟩
    · simpa [FlashOp.slot, flash, complete, cleared] using other
    · simpa [FlashOp.slot, flash, complete, savedCopy] using programmed
  · exact none.elim

theorem save_crash_selectable (current : Current board.copies board.flashAddr)
    {op : FlashOp envSize} {crashed : Copies envSize}
    (fails : CrashAt flash board.saveOps board.copies op crashed) (whole : WholeFlag op crashed) :
    ∃ slot, Selectable crashed slot ∧
      ((crashed slot).data = (board.copies board.flashAddr).data ∨
        (crashed slot).data = board.data) := by
  obtain ⟨crcOk, active, obsolete⟩ := current
  rcases save_crash_cases fails with ⟨_, same, other | invalid | saved⟩ | ⟨_, saved, left, switched⟩ |
    ⟨rfl, switched, left, saved⟩
  -- The old copy is still the active one and whole.
  · refine ⟨board.flashAddr, current_selectable ⟨?_, ?_, ?_⟩, Or.inl (congrArg EnvT.data same)⟩
    · rw [same]
      exact crcOk
    · rw [same]
      exact active
    · rw [other]
      exact obsolete
  · refine ⟨board.flashAddr, current_selectable ⟨?_, ?_, ?_⟩, Or.inl (congrArg EnvT.data same)⟩
    · rw [same]
      exact crcOk
    · rw [same]
      exact active
    · exact fun valid => absurd valid invalid
  -- The new copy is whole, and its flag wins as soon as the old one is obsolete.
  · refine ⟨board.flashAddr.other, ⟨?_, Or.inl ⟨?_, fun _ => ?_⟩⟩, Or.inr (congrArg EnvT.data saved)⟩
    · rw [saved]
      exact saved_copy_crc_ok 0xff
    · rw [saved]
      rfl
    · rw [other_other, same, active]
      decide
  · refine ⟨board.flashAddr.other, ⟨?_, Or.inl ⟨?_, fun _ => ?_⟩⟩, Or.inr (congrArg EnvT.data saved)⟩
    · rw [saved]
      exact saved_copy_crc_ok 0xff
    · rw [saved]
      rfl
    · rw [other_other, switched, active]
      exact and_ne_erased (by decide) _
  · refine ⟨board.flashAddr.other, ⟨?_, ?_⟩, Or.inr (congrArg EnvT.data saved)⟩
    · rw [saved]
      exact saved_copy_crc_ok _
    · rcases whole _ rfl with fresh | active
      · left
        refine ⟨fresh, fun _ => ?_⟩
        rw [other_other, switched]
        exact (by decide : obsoleteFlag ≠ 0xff)
      · right
        refine ⟨active, fun _ => ?_⟩
        rw [other_other, switched]

/-- A flag that is partly programmed is neither of the two, and not the erased one: no branch of
env_init is taken. -/
theorem partial_flag_not_selected (current : Current board.copies board.flashAddr)
    {op : FlashOp envSize} {crashed : Copies envSize}
    (fails : CrashAt flash board.saveOps board.copies op crashed)
    (partly : ¬ WholeFlag op crashed) : envInit crashed = ⟨.unset, 0⟩ := by
  obtain ⟨crcOk, _, _⟩ := current
  rcases save_crash_cases fails with ⟨data, _⟩ | ⟨rfl, _⟩ | ⟨rfl, switched, left, saved⟩
  · exact absurd (fun slot same => absurd same (data slot activeFlag)) partly
  · refine absurd (fun slot same => ?_) partly
    injection same with _ flag
    exact absurd flag (by decide)
  · have odd : (crashed board.flashAddr.other).flags ≠ obsoleteFlag := by
      rw [saved]
      exact active_bit_stays left
    have notWhole : ¬ ((crashed board.flashAddr.other).flags = 0xff ∨
        (crashed board.flashAddr.other).flags = activeFlag) := by
      intro settled
      refine partly fun slot same => ?_
      injection same with slot
      rw [← slot]
      exact settled
    obtain ⟨notFresh, notActive⟩ := not_or.mp notWhole
    have newOk : (crashed board.flashAddr.other).CrcOk := by
      rw [saved]
      exact saved_copy_crc_ok _
    have oldOk : (crashed board.flashAddr).CrcOk := by
      rw [switched]
      exact crcOk
    have oldFlags : (crashed board.flashAddr).flags = obsoleteFlag := by rw [switched]
    have erased : obsoleteFlag ≠ 0xff := by decide
    have settled : obsoleteFlag ≠ activeFlag := by decide
    cases address : board.flashAddr with
    | addr =>
        rw [address] at newOk oldOk oldFlags notFresh notActive odd
        simp only [Slot.other] at newOk notFresh notActive odd
        simp [envInit, newOk, oldOk, oldFlags, notFresh, notActive, erased, settled, Ne.symm odd]
    | addrRedund =>
        rw [address] at newOk oldOk oldFlags notFresh notActive odd
        simp only [Slot.other] at newOk notFresh notActive odd
        simp [envInit, newOk, oldOk, oldFlags, notFresh, notActive, erased, settled, odd]

/-- The board when the power fails inside the last flag write. -/
def inLastFlag (board : Board envSize) (left : UInt8) : Copies envSize :=
  Function.update (Function.update board.copies board.flashAddr
      { board.copies board.flashAddr with flags := obsoleteFlag })
    board.flashAddr.other (savedCopy board (0xff &&& (activeFlag ||| left)))

theorem crash_in_last_flag (board : Board envSize) (left : UInt8) :
    CrashAt flash board.saveOps board.copies (.writeFlags board.flashAddr.other activeFlag)
      (inLastFlag board left) := by
  have written := save_written board
  simp only [runOps, List.foldl_cons, List.foldl_nil] at written
  have cleared : (board.copies board.flashAddr).flags &&& obsoleteFlag = obsoleteFlag :=
    UInt8.and_zero
  right; right; right; right; left
  rw [written]
  refine ⟨rfl, ?_, left, ?_⟩
  · simp [FlashOp.slot, flash, complete, inLastFlag, cleared]
  · simp [FlashOp.slot, flash, complete, inLastFlag, savedCopy]

end Saving

section Runs
variable {defaultEnvironment : Vector UInt8 envSize}

theorem power_step_saved {before after : Power envSize} {event : Event envSize}
    (saved : Saved before) (whole : failsWhole before event)
    (step : powerStep defaultEnvironment before event after) : Saved after := by
  cases before with
  | off copies =>
      obtain ⟨slot, selectable⟩ := saved
      have booted := boot_selected defaultEnvironment selectable
      cases event with
      | boot =>
          have same : after = .on (boot defaultEnvironment copies) := step
          rw [same, booted]
          exact relocate_current selectable
      | bootFails op crashed =>
          obtain ⟨fails, same⟩ := step
          have selected := env_init_selects selectable
          have ops : bootOps copies = relocateOps copies slot := by
            have address : (envInit copies).flashAddr = slot := by
              cases slot <;> simp [EnvInit.flashAddr, selected.1]
            rw [bootOps, if_neg selected.2, address]
          rw [ops] at fails
          rw [same]
          exact ⟨slot, (boot_crash_selectable selectable fails whole).1⟩
      | setenv data => exact step.elim
      | saveenv => exact step.elim
      | saveFails op crashed => exact step.elim
      | powerOff => exact step.elim
  | on board =>
      cases event with
      | boot => exact step.elim
      | bootFails op crashed => exact step.elim
      | setenv data =>
          have same : after = .on { board with data := data } := step
          rw [same]
          exact saved
      | saveenv =>
          have same : after = .on (saveenv board) := step
          rw [same]
          exact saveenv_current board
      | saveFails op crashed =>
          obtain ⟨fails, same⟩ := step
          obtain ⟨slot, selectable, _⟩ := save_crash_selectable saved fails whole
          rw [same]
          exact ⟨slot, selectable⟩
      | powerOff =>
          have same : after = .off board.copies := step
          rw [same]
          exact ⟨board.flashAddr, current_selectable saved⟩

/-- After any history of saves and power failures, a failure inside saveenv leaves the old or the
new environment to the next reset, exactly when it leaves no flag partly programmed. -/
theorem save_crash_keeps_environment {first : Power envSize} {events : List (Event envSize)}
    {board : Board envSize} {op : FlashOp envSize} {crashed : Copies envSize} (saved : Saved first)
    (run : Run (Guarded failsWhole (powerStep defaultEnvironment)) first events (.on board))
    (fails : CrashAt flash board.saveOps board.copies op crashed) :
    WholeFlag op crashed ↔
      (envInit crashed).envValid ≠ 0 ∧
      ∃ slot, (envInit crashed).envAddr = .data slot ∧ (crashed slot).CrcOk ∧
        (boot defaultEnvironment crashed).data = (crashed slot).data ∧
        ((crashed slot).data = (boot defaultEnvironment board.copies).data ∨
          (crashed slot).data = board.data) := by
  have current : Saved (.on board) := run_preserves _ Saved
    (fun _ _ _ kept step => power_step_saved kept step.1 step.2) run saved
  constructor
  · intro whole
    obtain ⟨slot, selectable, data⟩ := save_crash_selectable current fails whole
    obtain ⟨address, valid⟩ := env_init_selects selectable
    have old := boot_selected defaultEnvironment (current_selectable current)
    refine ⟨valid, slot, address, selectable.crcOk, ?_, ?_⟩
    · rw [boot_selected defaultEnvironment selectable]
    · rw [old]
      exact data
  · rintro ⟨valid, _⟩
    by_contra partly
    rw [partial_flag_not_selected current fails partly] at valid
    exact valid rfl

end Runs

/-- A board that has saved `a=` once and holds `b=` in RAM. -/
def changedBoard : Board 4 :=
  { saveenv ⟨fun _ => ⟨0, 0xff, Vector.replicate 4 0xff⟩, .addr, #v[97, 61, 0, 0]⟩ with
    data := #v[98, 61, 0, 0] }

theorem changed_board_saved : Saved (.on changedBoard) := saveenv_current _

/-- A failure before the first bit of the last flag. -/
theorem fresh_flag_keeps_environment : (envInit (inLastFlag changedBoard 0xff)).envValid ≠ 0 := by
  have whole : WholeFlag (.writeFlags changedBoard.flashAddr.other activeFlag)
      (inLastFlag changedBoard 0xff) := by
    intro slot same
    injection same with same
    left
    rw [← same]
    rfl
  have laws := @save_crash_keeps_environment 4 #v[0, 0, 0, 0] (.on changedBoard) [] changedBoard _ _
    changed_board_saved (Run.refl _) (crash_in_last_flag changedBoard 0xff)
  exact (laws.mp whole).1

/-- ACTIVE_FLAG with one bit cleared of the seven: the copy is complete, the flag is odd, and the
board starts with the default environment. -/
theorem partial_flag_loses_environment : ∃ (op : FlashOp 4) (crashed : Copies 4),
    Saved (.on changedBoard) ∧ CrashAt flash changedBoard.saveOps changedBoard.copies op crashed ∧
      (∀ slot, (crashed slot).CrcOk) ∧ envInit crashed = ⟨.unset, 0⟩ ∧
      ∀ defaultEnvironment, (boot defaultEnvironment crashed).data = defaultEnvironment := by
  have fails := crash_in_last_flag changedBoard 0x7e
  have partly : ¬ WholeFlag (.writeFlags changedBoard.flashAddr.other activeFlag)
      (inLastFlag changedBoard 0x7e) := by
    intro whole
    exact absurd (whole _ rfl) (by decide)
  have lost := partial_flag_not_selected changed_board_saved fails partly
  refine ⟨_, _, changed_board_saved, fails, ?_, lost, fun defaultEnvironment => ?_⟩
  · intro slot
    cases slot
    · exact saved_copy_crc_ok _
    · exact (saveenv_current _).crcOk
  · simp [boot, lost]

end UBoot.Env.Redundant
