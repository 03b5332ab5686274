import UBoot.Env.Setenv
import UBoot.Flash.BoardSector

/-!
common/env_flash.c for the board, which keeps one copy of the environment in a
sector of its own: saveenv writes the env_t from RAM, env_init and env_relocate
read it back after a reset. The env_t begins with the checksum in big-endian
order; flash is mapped for reads at CFG_FLASH_BASE.
-/

namespace UBoot.Env.EnvFlash

open Lib.Crc32 Lib.Strings Library.Memory Library.Runs Library.StringTable
open Flash.AthFlash Flash.SectRanges Flash.SectErase Flash.FlashWrite Flash.FlashCommands
open Flash.Protection Flash.BoardSector Nvedit EnvTable Setenv

def cfgEnvAddr : Nat := 0x9f040000

def cfgEnvSize : Nat := 0x10000

def boardConfig (baudrateTable : List Nat) (consoleAssign : Nat → Option CString → Int) :
    EnvConfig := ⟨cfgEnvSize, false, baudrateTable, consoleAssign⟩

/-- The environment in RAM, with its globals, and the flash. -/
structure EnvSystem where
  ram : EnvState
  flash : FlashState

def crcBytes (crc : Nat) : List UInt8 :=
  [UInt8.ofNat (crc / 2 ^ 24), UInt8.ofNat (crc / 2 ^ 16), UInt8.ofNat (crc / 2 ^ 8),
    UInt8.ofNat crc]

def readCrc (mem : Nat → UInt8) : Nat :=
  ((mem 0).toNat * 2 ^ 24 + (mem 1).toNat * 2 ^ 16) + ((mem 2).toNat * 2 ^ 8 + (mem 3).toNat)

/-- The bytes of the env_t that env_ptr points at. -/
def envBytes (ram : EnvState) (i : Nat) : UInt8 :=
  if i < 4 then (crcBytes ram.crc).getD i 0 else ram.data.mem (i - 4)

/-- The bytes of the flash from CFG_ENV_ADDR on. -/
def flashAddr (flash : FlashState) (i : Nat) : UInt8 := flash.chip (cfgEnvAddr - cfgFlashBase + i)

structure Saveenv where
  rcode : Nat
  system : EnvSystem

def saveenv (system : EnvSystem) : Saveenv :=
  let endAddr := cfgEnvAddr + cfgEnvSize - 1
  let unprotected := flashSectProtect system.flash.banks 0 cfgEnvAddr endAddr
  let flash := system.flash.withTable unprotected.banks
  if unprotected.rcode ≠ 0 then ⟨1, { system with flash := flash }⟩
  else
    let erase := flashSectErase flash.banks cfgEnvAddr endAddr
    let erased := { flash with chip := eraseAll flash.chip erase.calls }
    if erase.rcode ≠ 0 then ⟨1, { system with flash := erased }⟩
    else
      let write := flashWrite erased.banks cfgEnvAddr cfgEnvSize
      let written := { erased with
        chip := writeAll (envBytes system.ram) erased.chip write.calls }
      let protect := flashSectProtect written.banks 1 cfgEnvAddr endAddr
      ⟨if write.rcode ≠ 0 then 1 else 0,
        { system with flash := written.withTable protect.banks }⟩

/-- gd->env_valid. -/
def envInit (cfg : EnvConfig) (flash : FlashState) : Nat :=
  if crc32 0 (slice (flashAddr flash) 4 cfg.envSize) = readCrc (flashAddr flash) then 1 else 0

/-- `memcpy (env_ptr, flash_addr, CFG_ENV_SIZE)` over the new block `ram`. -/
def envRelocateSpec (cfg : EnvConfig) (flash : FlashState) (ram : EnvState) : EnvState :=
  { ram with
    data := ⟨fun i => if i < cfg.envSize then flashAddr flash (4 + i) else ram.data.mem i,
      max ram.data.limit cfg.envSize⟩
    crc := readCrc (flashAddr flash) }

/-- `ram` is the block that malloc returned, with any content. -/
def envRelocate (cfg : EnvConfig) (defaultEnvironment : List UInt8) (flash : FlashState)
    (envValid : Nat) (ram : EnvState) : EnvState :=
  if envValid = 0 then
    if cfg.envSize < defaultEnvironment.length then ram
    else
      envCrcUpdate cfg { ram with
        data := ⟨fun i => if i < cfg.envSize then defaultEnvironment.getD i 0 else ram.data.mem i,
          max ram.data.limit cfg.envSize⟩ }
  else envRelocateSpec cfg flash ram

def reboot (cfg : EnvConfig) (defaultEnvironment : List UInt8) (flash : FlashState)
    (ram : EnvState) : EnvState :=
  envRelocate cfg defaultEnvironment flash (envInit cfg flash) ram

section Checksum
variable {cfg : EnvConfig}

theorem env_crc_update_matches (state : EnvState) : CrcMatches cfg (envCrcUpdate cfg state) := rfl

/-- setenv replaces a definition that exists by one that does not fit. -/
def LosesOldDef (cfg : EnvConfig) (state : EnvState) (call : SetenvCall) : Prop :=
  ∃ entries first more, HoldsTable cfg state.data entries ∧ call.values = .words (first :: more) ∧
    (∃ entry ∈ entries, key entry = key call.name.bytes) ∧
    (∃ globals, checkOld cfg state.globals call.name.bytes call.values = .proceed globals) ∧
    Overflows cfg entries call.name.bytes (first :: more)

/-- Every exit of _do_setenv leaves a right checksum but the overflow after a deletion. -/
theorem setenv_step_crc {state after : EnvState} {call : SetenvCall}
    (wellFormed : WellFormed cfg state.data) (right : CrcMatches cfg state)
    (fits : ¬ LosesOldDef cfg state call) (step : setenvStep cfg state call after) :
    CrcMatches cfg after := by
  obtain ⟨entries, table⟩ := wellFormed
  obtain ⟨result, done, rfl⟩ := step
  rcases do_setenv_cases table done with
    ⟨same, _⟩ | ⟨_, _, _, _, crc⟩ | ⟨first, more, shape, overflow, _, _, _, crc, lost⟩ |
    ⟨_, _, _, _, _, _, _, crc⟩
  · rw [same]
    exact right
  · exact crc
  · rcases lost with untouched | ⟨defined, checked⟩
    · unfold CrcMatches
      rw [crc, untouched]
      exact right
    · exact absurd ⟨entries, first, more, table, shape, defined, checked, overflow⟩ fits
  · exact crc

/-- The checksum is right in every state of a run without such a replacement. -/
theorem setenv_run_crc {before after : EnvState} {calls : List SetenvCall}
    (run : Run (Guarded (fun state call => ¬ LosesOldDef cfg state call) (setenvStep cfg))
      before calls after)
    (wellFormed : WellFormed cfg before.data) (right : CrcMatches cfg before) :
    WellFormed cfg after.data ∧ CrcMatches cfg after := by
  refine run_preserves _ (fun state => WellFormed cfg state.data ∧ CrcMatches cfg state) ?_ run
    ⟨wellFormed, right⟩
  rintro state call next ⟨formed, matching⟩ ⟨fits, step⟩
  exact ⟨(setenv_step_well_formed formed step).1, setenv_step_crc formed matching fits step⟩

/-- The checksum is right when the console starts, whatever the flash holds. -/
theorem reboot_crc (defaultEnvironment : List UInt8) (flash : FlashState) (ram : EnvState)
    (small : defaultEnvironment.length ≤ cfg.envSize) :
    CrcMatches cfg (reboot cfg defaultEnvironment flash ram) := by
  by_cases valid : crc32 0 (slice (flashAddr flash) 4 cfg.envSize) = readCrc (flashAddr flash)
  · have copied : slice (fun i => if i < cfg.envSize then flashAddr flash (4 + i)
        else ram.data.mem i) 0 cfg.envSize = slice (flashAddr flash) 4 cfg.envSize := by
      apply List.map_congr_left
      intro i member
      have below := List.mem_range.mp member
      simp only [Nat.zero_add, below, if_true]
    rw [reboot, envInit, if_pos valid, envRelocate, if_neg Nat.one_ne_zero]
    exact valid.symm.trans (congrArg (crc32 0) copied.symm)
  · rw [reboot, envInit, if_neg valid, envRelocate, if_pos rfl, if_neg (Nat.not_lt.mpr small)]
    rfl

end Checksum

section Save

theorem with_table_chip (flash : FlashState) (banks : List FlashInfo) :
    (flash.withTable banks).chip = flash.chip := rfl

/-- saveenv returns 0; the sector of the environment holds the env_t, the other sectors stay. -/
theorem saveenv_writes (system : EnvSystem) :
    (saveenv system).rcode = 0 ∧ (saveenv system).system.ram = system.ram ∧
      ∀ address, (saveenv system).system.flash.chip address =
        if address / cfgFlashSectorSize = 4 then envBytes system.ram (address - 4 * cfgFlashSectorSize)
        else system.flash.chip address := by
  have valid : 4 < flashGetGeom.sectorCount := by decide
  have first : cfgEnvAddr = sectorAddr 4 := by decide
  have last : cfgEnvAddr + cfgEnvSize - 1 = sectorLast 4 := by decide
  have size : cfgEnvSize = cfgFlashSectorSize := by decide
  unfold saveenv
  rw [last, first, size]
  simp only [protect_one_sector valid, erase_one_sector valid]
  generalize off : system.flash.withTable [protectRange system.flash.bank 0 (4 : Nat) (4 : Nat)] =
    flash
  have sameChip : flash.chip = system.flash.chip := by
    rw [← off]
    rfl
  have clear : flash.protect 4 = 0 := by
    rw [← off]
    rfl
  have write := fun chip => @write_one_sector ⟨flash.protect, chip⟩ 4 valid clear
  simp only [write, ne_eq, not_true_eq_false, if_false]
  refine ⟨rfl, trivial, fun address => ?_⟩
  have sameBank : ∀ chip, (FlashState.mk flash.protect chip).bank = flash.bank := fun _ => rfl
  have rewritten := @rewrite_one_sector flash 4 valid flash.chip (envBytes system.ram) address
  rw [with_table_chip, ← sameChip]
  simp only [sameBank]
  exact rewritten

theorem saveenv_flash_addr (system : EnvSystem) {i : Nat} (inside : i < cfgEnvSize) :
    flashAddr (saveenv system).system.flash i = envBytes system.ram i := by
  have written := (saveenv_writes system).2.2 (cfgEnvAddr - cfgFlashBase + i)
  have place : cfgEnvAddr - cfgFlashBase + i = 4 * cfgFlashSectorSize + i := by
    unfold cfgEnvAddr cfgFlashBase cfgFlashSectorSize
    omega
  have sector : (4 * cfgFlashSectorSize + i) / cfgFlashSectorSize = 4 := by
    unfold cfgEnvSize cfgFlashSectorSize at *
    omega
  rw [flashAddr, written, place, if_pos sector, Nat.add_sub_cancel_left]

theorem read_crc_bytes {mem : Nat → UInt8} {crc : Nat} (small : crc < 2 ^ 32)
    (stored : ∀ i, i < 4 → mem i = (crcBytes crc).getD i 0) : readCrc mem = crc := by
  rw [readCrc, stored 0 (by decide), stored 1 (by decide), stored 2 (by decide),
    stored 3 (by decide)]
  simp only [crcBytes, List.getD_cons_zero, List.getD_cons_succ, UInt8.toNat_ofNat']
  omega

variable {baudrateTable : List Nat} {consoleAssign : Nat → Option CString → Int}

theorem board_env_size : (boardConfig baudrateTable consoleAssign).envSize = 0xfffc := by
  simp [EnvConfig.envSize, boardConfig, cfgEnvSize]

theorem saved_data (ram : EnvState) (flash : FlashState) {count : Nat}
    (inside : 4 + count ≤ cfgEnvSize) :
    slice (flashAddr (saveenv ⟨ram, flash⟩).system.flash) 4 count = slice ram.data.mem 0 count := by
  apply List.map_congr_left
  intro i member
  have below := List.mem_range.mp member
  have notCrc : ¬ 4 + i < 4 := by omega
  have written := saveenv_flash_addr ⟨ram, flash⟩ (show 4 + i < cfgEnvSize by omega)
  rw [written, envBytes, if_neg notCrc, Nat.add_sub_cancel_left, Nat.zero_add]

theorem saved_crc (ram : EnvState) (flash : FlashState) (small : ram.crc < 2 ^ 32) :
    readCrc (flashAddr (saveenv ⟨ram, flash⟩).system.flash) = ram.crc := by
  apply read_crc_bytes small
  intro i below
  have inside : i < cfgEnvSize := Nat.lt_of_lt_of_le below (by decide)
  rw [saveenv_flash_addr _ inside, envBytes, if_pos below]

/-- A saved environment is accepted exactly when its checksum was right in RAM. -/
theorem env_init_saved (ram : EnvState) (flash : FlashState) (small : ram.crc < 2 ^ 32) :
    envInit (boardConfig baudrateTable consoleAssign) (saveenv ⟨ram, flash⟩).system.flash =
      if crc32 0 (slice ram.data.mem 0 (boardConfig baudrateTable consoleAssign).envSize) = ram.crc
      then 1 else 0 := by
  have inside : 4 + (boardConfig baudrateTable consoleAssign).envSize ≤ cfgEnvSize := by
    rw [board_env_size]
    decide
  rw [envInit, saved_data ram flash inside, saved_crc ram flash small]

theorem reboot_saved (ram fresh : EnvState) (flash : FlashState) (defaultEnvironment : List UInt8)
    (wellFormed : WellFormed (boardConfig baudrateTable consoleAssign) ram.data)
    (right : CrcMatches (boardConfig baudrateTable consoleAssign) ram) :
    envInit (boardConfig baudrateTable consoleAssign) (saveenv ⟨ram, flash⟩).system.flash = 1 ∧
      ∀ name, getenvString (boardConfig baudrateTable consoleAssign)
          (reboot (boardConfig baudrateTable consoleAssign) defaultEnvironment
            (saveenv ⟨ram, flash⟩).system.flash fresh) name =
        getenvString (boardConfig baudrateTable consoleAssign) ram name := by
  have small : ram.crc < 2 ^ 32 := by
    rw [right]
    exact crc32_lt _
  have accepted : envInit (boardConfig baudrateTable consoleAssign)
      (saveenv ⟨ram, flash⟩).system.flash = 1 := by
    rw [env_init_saved ram flash small, if_pos right.symm]
  refine ⟨accepted, fun name => ?_⟩
  obtain ⟨entries, table⟩ := wellFormed
  rw [reboot, accepted, envRelocate, if_neg Nat.one_ne_zero, getenv_string_eq table]
  refine getenv_string_eq ⟨has_bytes_congr table.holds ?_, table.fits, table.valid,
    table.distinct⟩ name
  intro i _ below
  have fits := table.fits
  have within : i < (boardConfig baudrateTable consoleAssign).envSize := by omega
  rw [board_env_size] at within
  have inside : 4 + i < cfgEnvSize := by
    unfold cfgEnvSize
    omega
  have notCrc : ¬ 4 + i < 4 := by omega
  simp only [envRelocateSpec, board_env_size, within, if_true]
  rw [saveenv_flash_addr _ inside, envBytes, if_neg notCrc, Nat.add_sub_cancel_left]

/-- In every run without a replacement that overflows, the checksum is right after each setenv,
and the environment survives saveenv and a reset. -/
theorem setenv_run_survives_reboot {before after : EnvState} {calls : List SetenvCall}
    (run : Run (Guarded
      (fun state call => ¬ LosesOldDef (boardConfig baudrateTable consoleAssign) state call)
      (setenvStep (boardConfig baudrateTable consoleAssign))) before calls after)
    (wellFormed : WellFormed (boardConfig baudrateTable consoleAssign) before.data)
    (right : CrcMatches (boardConfig baudrateTable consoleAssign) before)
    (flash : FlashState) (defaultEnvironment : List UInt8) (fresh : EnvState) :
    CrcMatches (boardConfig baudrateTable consoleAssign) after ∧
      (saveenv ⟨after, flash⟩).rcode = 0 ∧
      envInit (boardConfig baudrateTable consoleAssign) (saveenv ⟨after, flash⟩).system.flash = 1 ∧
      ∀ name, getenvString (boardConfig baudrateTable consoleAssign)
          (reboot (boardConfig baudrateTable consoleAssign) defaultEnvironment
            (saveenv ⟨after, flash⟩).system.flash fresh) name =
        getenvString (boardConfig baudrateTable consoleAssign) after name := by
  obtain ⟨formed, matching⟩ := setenv_run_crc run wellFormed right
  exact ⟨matching, (saveenv_writes _).1,
    reboot_saved after fresh flash defaultEnvironment formed matching⟩

end Save

def plainConfig : EnvConfig := boardConfig [9600, 115200] fun _ _ => 0

/-- An environment that holds `a=x` only, with its checksum. -/
def onlyA : EnvState :=
  envCrcUpdate plainConfig ⟨filled [ascii "a=x"], 0, noGlobals⟩

theorem name_a_terminated : 0 ∉ ascii "a" := by decide

def nameA : CString := ⟨ascii "a", name_a_terminated⟩

/-- The board's flash after a full erase. -/
def blankFlash : FlashState := ⟨fun _ => 0, fun _ => 0xff⟩

theorem only_a_table : HoldsTable plainConfig onlyA.data [ascii "a=x"] := by
  refine filled_holds plainConfig [ascii "a=x"] ?_ ?_ (by decide)
  · have size : plainConfig.envSize = 0xfffc := board_env_size
    rw [size]
    decide
  · intro entry member
    rw [List.mem_singleton.mp member]
    exact ⟨by decide, by decide⟩

/-- The premises hold for deleting `a`. -/
theorem delete_survives_reboot : ∃ after,
    setenvStep plainConfig onlyA ⟨nameA, .words []⟩ after ∧ CrcMatches plainConfig after ∧
      envInit plainConfig (saveenv ⟨after, blankFlash⟩).system.flash = 1 := by
  obtain ⟨result, done⟩ := @do_setenv_returns plainConfig onlyA nameA (.words [])
    (fun named => absurd named (by decide))
  have step : setenvStep plainConfig onlyA ⟨nameA, .words []⟩ result.state := ⟨result, done, rfl⟩
  have spared : ¬ LosesOldDef plainConfig onlyA ⟨nameA, .words []⟩ := by
    rintro ⟨_, first, more, _, shape, _⟩
    injection shape with list
    contradiction
  have laws := setenv_run_survives_reboot (Run.next ⟨spared, step⟩ (Run.refl _))
    ⟨_, only_a_table⟩ (env_crc_update_matches _) blankFlash [] onlyA
  exact ⟨result.state, step, laws.1, laws.2.2.1⟩

/-- The value that makes `a` as long as the whole area. -/
def longValue : CString := ⟨List.replicate 65530 98, fun member =>
  absurd (List.eq_of_mem_replicate member) (by decide)⟩

theorem long_value_overflows : Overflows plainConfig [ascii "a=x"] nameA.bytes [longValue] := by
  have length : longValue.bytes.length = 65530 := List.length_replicate
  have total : newLength nameA.bytes [longValue] = 65534 := by
    rw [newLength, List.map_cons, List.map_nil, List.sum_cons, List.sum_nil, length]
    rfl
  rw [Overflows, plainConfig, board_env_size, total]
  exact Nat.lt_of_lt_of_le (by decide) (Nat.le_add_left 65534 _)

/-- A setenv that fails after its checks has deleted the old definition. -/
theorem overflow_deletes {cfg : EnvConfig} {state : EnvState} {name first : CString}
    {more : List CString} {old : OldDef} {globals : Globals} {result : SetenvResult}
    (found : findOld state.data.mem cfg.cfgEnvSize name.bytes cfg.cfgEnvSize 0 = some old)
    (checked : checkOld cfg state.globals name.bytes (.words (first :: more)) = .proceed globals)
    (done : doSetenv cfg state name (.words (first :: more)) = some result)
    (failed : result.rcode = 1) :
    result.state.data = deleteOld cfg.cfgEnvSize state.data old := by
  rw [doSetenv, found] at done
  simp only [checked, setenvTail] at done
  split at done
  · injection done with same
    rw [← same]
  · injection done with same
    rw [← same] at failed
    exact absurd failed Nat.zero_ne_one

theorem only_a_mem (i : Nat) : onlyA.data.mem i = ([97, 61, 120] : List UInt8).getD i 0 := by
  have bytes : block [ascii "a=x"] = [97, 61, 120, 0, 0] := rfl
  show (block [ascii "a=x"]).getD i 0 = _
  rw [bytes]
  rcases i with _ | _ | _ | _ | _ | i <;> rfl

/-- The last byte of `a=x` stays behind the two NULs of the empty table. -/
theorem delete_a_mem (i : Nat) : (deleteOld plainConfig.cfgEnvSize onlyA.data ⟨0, 3, 2⟩).mem i =
    ([0, 0, 120] : List UInt8).getD i 0 := by
  have last : onlyA.data.mem (3 + 1) = 0 := only_a_mem 4
  simp only [deleteOld, last, if_true, Nat.lt_irrefl, if_false]
  rcases i with _ | _ | i
  · rfl
  · rfl
  · exact only_a_mem (i + 2)

/-- `setenv a` with a value that does not fit deletes the old `a` and leaves the old checksum:
saved and reset, the board falls back to the default environment. -/
theorem setenv_overflow_loses_environment : ∃ after,
    WellFormed plainConfig onlyA.data ∧ CrcMatches plainConfig onlyA ∧
      setenvStep plainConfig onlyA ⟨nameA, .words [longValue]⟩ after ∧
      ¬ CrcMatches plainConfig after ∧
      envInit plainConfig (saveenv ⟨after, blankFlash⟩).system.flash = 0 := by
  have old : findOld onlyA.data.mem plainConfig.cfgEnvSize nameA.bytes plainConfig.cfgEnvSize 0 =
      some ⟨0, 3, 2⟩ := by
    rw [find_old_locate only_a_table]
    rfl
  obtain ⟨result, done⟩ := @do_setenv_returns plainConfig onlyA nameA (.words [longValue])
    (fun named => absurd named (by decide))
  have failed : result.rcode = 1 ∧ result.state.crc = onlyA.crc := by
    rcases do_setenv_cases only_a_table done with
      ⟨_, refused, _⟩ | ⟨unset, _⟩ | ⟨_, _, _, _, rcode, _, _, crc, _⟩ | ⟨_, _, shape, fits, _⟩
    · contradiction
    · contradiction
    · exact ⟨rcode, crc⟩
    · injection shape with list
      rw [← list] at fits
      exact absurd long_value_overflows fits
  have checked : checkOld plainConfig onlyA.globals nameA.bytes (.words [longValue]) =
      .proceed noGlobals := rfl
  have deleted := overflow_deletes old checked done failed.1
  have size : plainConfig.envSize = 4 + 0xfff8 := board_env_size
  have before : slice onlyA.data.mem 0 plainConfig.envSize =
      [97, 61, 120, 0] ++ slice onlyA.data.mem 4 0xfff8 := by
    rw [size, slice_add]
    rfl
  have after : slice result.state.data.mem 0 plainConfig.envSize =
      [0, 0, 120, 0] ++ slice onlyA.data.mem 4 0xfff8 := by
    have tail : slice result.state.data.mem 4 0xfff8 = slice onlyA.data.mem 4 0xfff8 := by
      apply slice_congr
      intro i _
      have index : 4 + i = i + 3 + 1 := by omega
      rw [deleted, delete_a_mem, only_a_mem, index]
      rfl
    have front : slice result.state.data.mem 0 4 = [0, 0, 120, 0] := by
      rw [deleted]
      rfl
    rw [size, slice_add, Nat.zero_add, front, tail]
  have stale : ¬ CrcMatches plainConfig result.state := by
    intro same
    have old : onlyA.crc = crc32 0 (slice onlyA.data.mem 0 plainConfig.envSize) :=
      env_crc_update_matches _
    rw [CrcMatches, failed.2, old, before, after] at same
    exact crc32_ne_of_front _ (by decide +kernel) same
  have small : result.state.crc < 2 ^ 32 := by
    rw [failed.2]
    exact crc32_lt _
  refine ⟨result.state, ⟨_, only_a_table⟩, env_crc_update_matches _, ⟨result, done, rfl⟩, stale, ?_⟩
  exact (env_init_saved result.state blankFlash small).trans (if_neg (Ne.symm stale))

end UBoot.Env.EnvFlash
