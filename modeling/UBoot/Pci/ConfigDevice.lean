import UBoot.Pci.SetupDevice

/-!
pci_hose_config_device of drivers/pci.c, which gives the base addresses of a device the next windows
above two cursors. The loop ends in front of the last base address.
-/

namespace UBoot.Pci.ConfigDevice

open PciAuto SetupDevice RegionAllocate

def PCI_INTERRUPT_LINE : Nat := 0x3c

/-- The loop, with the next I/O and memory addresses and the writes so far. -/
structure Progress where
  io : UInt32
  mem : UInt32
  writes : List ConfigWrite

def Progress.write (progress : Progress) (bar : Nat) (value : UInt32) : Progress :=
  { progress with writes := progress.writes ++ [.dword (barRegister bar) value] }

/-- One turn of the loop, and found_mem64. -/
def configBar (responses : Nat → UInt32) (bar : Nat) (progress : Progress) : Progress × Bool :=
  let probed := progress.write bar 0xffffffff
  let barResponse := responses bar
  if barResponse = 0 then (probed, false)
  else if barResponse &&& 1 ≠ 0 then
    let barSize := ~~~(barResponse &&& 0xfffffffc) + 1
    let barValue := alignUp progress.io barSize
    let assigned := { probed.write bar barValue with io := barValue + barSize }
    (assigned, false)
  else
    let barSize := ~~~(barResponse &&& 0xfffffff0) + 1
    let barValue := alignUp progress.mem barSize
    let assigned := { probed.write bar barValue with mem := barValue + barSize }
    if barResponse &&& 6 = 4 then (assigned.write (bar + 1) 0, true) else (assigned, false)

/-- The loop from base address `bar` on, of which `left` are left. -/
def configLoop (responses : Nat → UInt32) : (left bar : Nat) → Progress → Progress
  | 0, _, progress => progress
  | left + 1, bar, progress =>
      let (turned, foundMem64) := configBar responses bar progress
      if foundMem64 then
        match left with
        | 0 => turned
        | left + 1 => configLoop responses left (bar + 2) turned
      else configLoop responses left (bar + 1) turned

/-- The writes to a device whose base addresses read `responses` after all ones were written, with its
interrupt pin and what its command register reads behind the loop. -/
def pciHoseConfigDevice (responses : Nat → UInt32) (pin : UInt8) (oldCommand : UInt32)
    (io mem command : UInt32) : List ConfigWrite :=
  .dword PCI_COMMAND 0 :: (configLoop responses 5 0 ⟨io, mem, []⟩).writes ++
    [.byte PCI_CACHE_LINE_SIZE 0x08, .byte PCI_LATENCY_TIMER 0x80] ++
    (if pin ≠ 0 then [.byte PCI_INTERRUPT_LINE 0xff] else []) ++
    [.dword PCI_COMMAND ((oldCommand &&& 0xffff0000) ||| command)]

/-! ### The device -/

/-- A base address with a window of `2 ^ k` bytes. A narrow one decodes 16 bits of the I/O address,
and the others of them read as zero. -/
inductive BaseAddress where
  | unused
  | io (narrow : Bool) (k : Nat)
  | memory (prefetch : Bool) (k : Nat)
  | wide (prefetch : Bool) (k : Nat)
  deriving DecidableEq

namespace BaseAddress

def registers : BaseAddress → Nat
  | wide _ _ => 2
  | _ => 1

/-- What the (first) register reads after all ones were written. -/
def response : BaseAddress → UInt32
  | unused => 0
  | io narrow k => UInt32.ofNat ((if narrow then 2 ^ 16 else 2 ^ 32) - 2 ^ k + 1)
  | memory prefetch k => UInt32.ofNat (2 ^ 32 - 2 ^ k + if prefetch then 8 else 0)
  | wide prefetch k => UInt32.ofNat (2 ^ 32 - 2 ^ k + 4 + if prefetch then 8 else 0)

/-- What the register behind it reads, which has the upper half of a wide one. -/
def upperResponse : BaseAddress → UInt32
  | wide _ k => UInt32.ofNat (2 ^ 32 - 2 ^ (k - 32))
  | _ => 0

/-- There is an address bit, and a narrow window has at most the 256 bytes of the PCI rules. -/
def Sound : BaseAddress → Prop
  | unused => True
  | io narrow k => 2 ≤ k ∧ k ≤ if narrow then 8 else 31
  | memory _ k => 4 ≤ k ∧ k ≤ 31
  | wide _ k => 4 ≤ k ∧ k ≤ 63

def isNarrow : BaseAddress → Bool
  | io narrow _ => narrow
  | _ => false

/-- An I/O window has at most 256 bytes. -/
def Small : BaseAddress → Prop
  | io _ k => k ≤ 8
  | _ => True

instance : (bar : BaseAddress) → Decidable bar.Sound
  | unused => isTrue trivial
  | io _ _ | memory _ _ | wide _ _ => inferInstanceAs (Decidable (_ ∧ _))

instance : (bar : BaseAddress) → Decidable bar.Small
  | io _ k => inferInstanceAs (Decidable (k ≤ 8))
  | unused | memory _ _ | wide _ _ => isTrue trivial

end BaseAddress

/-- The base addresses with the number of their (first) register. -/
def numbered : Nat → List BaseAddress → List (Nat × BaseAddress)
  | _, [] => []
  | register, bar :: rest => (register, bar) :: numbered (register + bar.registers) rest

def responseAt : List BaseAddress → Nat → UInt32
  | [], _ => 0
  | bar :: _, 0 => bar.response
  | .wide prefetch k :: _, 1 => (BaseAddress.wide prefetch k).upperResponse
  | .wide _ _ :: rest, register + 2 => responseAt rest register
  | _ :: rest, register + 1 => responseAt rest register

/-- A device with six registers. Where there is a narrow I/O window, all of them keep to the PCI
rules. -/
structure Device where
  bars : List BaseAddress
  sound : ∀ bar ∈ bars, bar.Sound
  six : (bars.map BaseAddress.registers).sum = 6
  small : bars.any BaseAddress.isNarrow = true → ∀ bar ∈ bars, bar.Small

/-! ### What is programmed -/

/-- The last word written to a register. -/
def lastWrite (writes : List ConfigWrite) (register : Nat) : Option UInt32 :=
  writes.reverse.findSome? fun write =>
    match write with
    | .dword place value => if place = register then some value else none
    | .byte _ _ => none

/-- The address that a base address was programmed with, as far as it decodes it. -/
def BaseAddress.address (writes : List ConfigWrite) (register : Nat) : BaseAddress → Option Nat
  | unused => none
  | io narrow _ => (lastWrite writes (barRegister register)).map fun value =>
      if narrow then value.toNat % 2 ^ 16 else value.toNat
  | memory _ _ => (lastWrite writes (barRegister register)).map UInt32.toNat
  | wide _ _ => Option.map₂ (fun low high => low.toNat + 2 ^ 32 * high.toNat)
      (lastWrite writes (barRegister register)) (lastWrite writes (barRegister (register + 1)))

def BaseAddress.size : BaseAddress → Nat
  | unused => 0
  | io _ k | memory _ k | wide _ k => 2 ^ k

/-- The windows of I/O and of memory. -/
def BaseAddress.isIo : BaseAddress → Bool
  | io _ _ => true
  | _ => false

structure Window where
  isIo : Bool
  start : Nat
  size : Nat

/-- The windows that were programmed. -/
def windows (bars : List BaseAddress) (writes : List ConfigWrite) : List Window :=
  (numbered 0 bars).filterMap fun entry =>
    (entry.2.address writes entry.1).map fun start => ⟨entry.2.isIo, start, entry.2.size⟩

def Window.Apart (one other : Window) : Prop :=
  one.isIo = other.isIo → one.start + one.size ≤ other.start ∨ other.start + other.size ≤ one.start

structure Configured (bars : List BaseAddress) (io mem : UInt32) (writes : List ConfigWrite) : Prop where
  programmed : ∀ entry ∈ numbered 0 bars, entry.2 ≠ .unused →
    ∃ start ∈ entry.2.address writes entry.1, entry.2.size ∣ start
  apart : (windows bars writes).Pairwise Window.Apart
  above : ∀ window ∈ windows bars writes, (if window.isIo then io else mem).toNat ≤ window.start

/-- It has a window of that kind. -/
def BaseAddress.uses (bar : BaseAddress) (isIo : Bool) : Bool := bar ≠ unused && bar.isIo == isIo

/-- The end of the addresses that it can decode and be given. -/
def BaseAddress.limit (bar : BaseAddress) : Nat := if bar.isNarrow then 2 ^ 16 else 2 ^ 32

/-- The windows of one kind in the order of the base addresses, each at the next multiple of its
size, end in the addresses that they can decode. -/
def Fits (isIo : Bool) : Nat → List BaseAddress → Prop
  | _, [] => True
  | base, bar :: rest =>
      if bar.uses isIo then
        roundUp base bar.size + bar.size ≤ bar.limit ∧
          Fits isIo (roundUp base bar.size + bar.size) rest
      else Fits isIo base rest

structure EnoughSpace (io mem : UInt32) (bars : List BaseAddress) : Prop where
  io : Fits true io.toNat bars
  mem : Fits false mem.toNat bars

/-! ### The turns of the loop -/

namespace BaseAddress

/-- The size that is computed. -/
def barSize : BaseAddress → UInt32
  | unused => 0
  | io narrow k => if narrow then 0xffff0000 + UInt32.ofNat (2 ^ k) else UInt32.ofNat (2 ^ k)
  | memory _ k | wide _ k => UInt32.ofNat (2 ^ k)

/-- The address that is written. -/
def value (bar : BaseAddress) (ioBase memBase : UInt32) : UInt32 :=
  alignUp (if bar.isIo then ioBase else memBase) bar.barSize

/-- The next base of one kind. -/
def next (isIo : Bool) (bar : BaseAddress) (base : UInt32) : UInt32 :=
  if bar.uses isIo then alignUp base bar.barSize + bar.barSize else base

/-- The writes of a turn. -/
def turn (bar : BaseAddress) (register : Nat) (value : UInt32) : List ConfigWrite :=
  .dword (barRegister register) 0xffffffff ::
    match bar with
    | unused => []
    | io _ _ | memory _ _ => [.dword (barRegister register) value]
    | wide _ _ => [.dword (barRegister register) value, .dword (barRegister (register + 1)) 0]

theorem registers_pos (bar : BaseAddress) : 1 ≤ bar.registers := by
  cases bar <;> simp [registers]

end BaseAddress

section Responses
open BaseAddress

theorem io_response (narrow : Bool) : ∀ k : Fin 32, (io narrow k).Sound →
    (io narrow k).response ≠ 0 ∧ (io narrow k).response &&& 1 ≠ 0 ∧
      ~~~((io narrow k).response &&& 0xfffffffc) + 1 = (io narrow k).barSize := by
  cases narrow <;> simp only [Sound] <;> decide

theorem memory_response (prefetch : Bool) : ∀ k : Fin 32, 4 ≤ k.val →
    (memory prefetch k).response ≠ 0 ∧ ¬ (memory prefetch k).response &&& 1 ≠ 0 ∧
      (memory prefetch k).response &&& 6 ≠ 4 ∧
      ~~~((memory prefetch k).response &&& 0xfffffff0) + 1 = (memory prefetch k).barSize := by
  cases prefetch <;> decide

theorem wide_response (prefetch : Bool) : ∀ k : Fin 64, 4 ≤ k.val →
    (wide prefetch k).response ≠ 0 ∧ ¬ (wide prefetch k).response &&& 1 ≠ 0 ∧
      (wide prefetch k).response &&& 6 = 4 ∧
      ~~~((wide prefetch k).response &&& 0xfffffff0) + 1 = (wide prefetch k).barSize := by
  cases prefetch <;> decide

end Responses

/-- One turn, by the base address. -/
theorem config_bar_eq {responses : Nat → UInt32} {bar : BaseAddress} (sound : bar.Sound)
    {register : Nat} (here : responses register = bar.response) (progress : Progress) :
    configBar responses register progress =
      (⟨bar.next true progress.io, bar.next false progress.mem,
        progress.writes ++ bar.turn register (bar.value progress.io progress.mem)⟩,
        bar.registers == 2) := by
  cases bar with
  | unused =>
      rw [configBar, here]
      rfl
  | io narrow k =>
      have bound : k < 32 := by
        have upper := sound.2
        split at upper <;> omega
      obtain ⟨answers, isIo, size⟩ := io_response narrow ⟨k, bound⟩ sound
      rw [configBar, here]
      dsimp only at answers isIo size ⊢
      rw [if_neg answers, if_pos isIo, size]
      simp [Progress.write, BaseAddress.next, BaseAddress.uses, BaseAddress.isIo,
        BaseAddress.value, BaseAddress.turn, BaseAddress.registers]
  | memory prefetch k =>
      obtain ⟨answers, isMem, narrow, size⟩ :=
        memory_response prefetch ⟨k, by have := sound.2; omega⟩ sound.1
      rw [configBar, here]
      dsimp only at answers isMem narrow size ⊢
      rw [if_neg answers, if_neg isMem, size, if_neg narrow]
      simp [Progress.write, BaseAddress.next, BaseAddress.uses, BaseAddress.isIo,
        BaseAddress.value, BaseAddress.turn, BaseAddress.registers]
  | wide prefetch k =>
      obtain ⟨answers, isMem, wide, size⟩ :=
        wide_response prefetch ⟨k, by have := sound.2; omega⟩ sound.1
      rw [configBar, here]
      dsimp only at answers isMem wide size ⊢
      rw [if_neg answers, if_neg isMem, size, if_pos wide]
      simp [Progress.write, BaseAddress.next, BaseAddress.uses, BaseAddress.isIo,
        BaseAddress.value, BaseAddress.turn, BaseAddress.registers]

/-- A base address with the number of its register and the address it gets. -/
structure Turn where
  register : Nat
  bar : BaseAddress
  value : UInt32

def Turn.writes (turn : Turn) : List ConfigWrite := turn.bar.turn turn.register turn.value

def turns : (register : Nat) → (io mem : UInt32) → List BaseAddress → List Turn
  | _, _, _, [] => []
  | register, io, mem, bar :: rest =>
      ⟨register, bar, bar.value io mem⟩ ::
        turns (register + bar.registers) (bar.next true io) (bar.next false mem) rest

/-- The turns that the loop makes. -/
def made (turns : List Turn) : List Turn := turns.filter fun turn => turn.register < 5

def total (bars : List BaseAddress) : Nat := (bars.map BaseAddress.registers).sum

@[simp] theorem total_cons (bar : BaseAddress) (rest : List BaseAddress) :
    total (bar :: rest) = bar.registers + total rest := by
  rw [total, List.map_cons, List.sum_cons]
  rfl

section Turns
variable {bars rest : List BaseAddress} {bar : BaseAddress} {register : Nat} {io mem : UInt32}

theorem response_head (bar : BaseAddress) (rest : List BaseAddress) :
    responseAt (bar :: rest) 0 = bar.response := by
  cases bar <;> rfl

theorem response_later (bar : BaseAddress) (rest : List BaseAddress) (later : Nat) :
    responseAt (bar :: rest) (bar.registers + later) = responseAt rest later := by
  cases bar <;> simp [BaseAddress.registers, Nat.add_comm, responseAt]

theorem turns_numbered (bars : List BaseAddress) (register : Nat) (io mem : UInt32) :
    (turns register io mem bars).map (fun turn => (turn.register, turn.bar)) =
      numbered register bars := by
  induction bars generalizing register io mem with
  | nil => rfl
  | cons bar rest inductive_hypothesis =>
      rw [turns, List.map_cons, numbered, inductive_hypothesis]

/-- The turns from a register on are behind it. -/
theorem turns_behind (bars : List BaseAddress) (register : Nat) (io mem : UInt32) :
    ∀ turn ∈ turns register io mem bars, register ≤ turn.register := by
  induction bars generalizing register io mem with
  | nil => exact fun _ member => absurd member List.not_mem_nil
  | cons bar rest inductive_hypothesis =>
      rw [turns, List.forall_mem_cons]
      refine ⟨Nat.le_refl _, fun turn member => ?_⟩
      exact Nat.le_trans (Nat.le_add_right _ _) (inductive_hypothesis _ _ _ turn member)

theorem config_loop_eq {responses : Nat → UInt32} (bars : List BaseAddress)
    (sound : ∀ bar ∈ bars, bar.Sound) (register : Nat) (whole : register + total bars = 6)
    (answers : ∀ later, responses (register + later) = responseAt bars later) (progress : Progress) :
    (configLoop responses (5 - register) register progress).writes =
      progress.writes ++
        (made (turns register progress.io progress.mem bars)).flatMap Turn.writes := by
  induction bars generalizing register progress with
  | nil =>
      have six : register = 6 := whole
      rw [six]
      simp [configLoop, turns, made]
  | cons bar rest inductive_hypothesis =>
      rw [total_cons] at whole
      have positive := bar.registers_pos
      by_cases last : register < 5
      · have here : responses register = bar.response := (answers 0).trans (response_head bar rest)
        have step := config_bar_eq (sound bar List.mem_cons_self) here progress
        have later := inductive_hypothesis
          (fun other member => sound other (List.mem_cons_of_mem _ member))
          (register + bar.registers) (by omega)
          (fun later => by
            rw [Nat.add_assoc, answers, response_later])
          ⟨bar.next true progress.io, bar.next false progress.mem,
            progress.writes ++ bar.turn register (bar.value progress.io progress.mem)⟩
        have first : made (turns register progress.io progress.mem (bar :: rest)) =
            ⟨register, bar, bar.value progress.io progress.mem⟩ ::
              made (turns (register + bar.registers) (bar.next true progress.io)
                (bar.next false progress.mem) rest) := by
          rw [turns, made]
          exact List.filter_cons_of_pos (by exact decide_eq_true last)
        rw [first, List.flatMap_cons, ← List.append_assoc]
        refine Eq.trans ?_ later
        obtain ⟨left, count⟩ : ∃ left, 5 - register = left + 1 := ⟨4 - register, by omega⟩
        rw [count, configLoop, step]
        dsimp only
        by_cases double : bar.registers = 2
        · rw [double, if_pos (show ((2 : Nat) == 2) = true from rfl)]
          cases left with
          | zero =>
              have none : 5 - (register + 2) = 0 := by omega
              rw [none]
              rfl
          | succ left =>
              have same : 5 - (register + 2) = left := by omega
              rw [same]
        · have single : bar.registers = 1 := by
            cases bar <;> simp_all [BaseAddress.registers]
          have same : 5 - (register + 1) = left := by omega
          rw [single, if_neg (show ¬ ((1 : Nat) == 2) = true by decide), same]
      · have none : 5 - register = 0 := by omega
        have missed : made (turns register progress.io progress.mem (bar :: rest)) = [] := by
          rw [made, List.filter_eq_nil_iff]
          intro turn member
          have behind := turns_behind _ _ _ _ turn member
          simp only [decide_eq_true_eq]
          omega
        rw [none, missed]
        exact (List.append_nil _).symm

end Turns

/-! ### The last writes -/

section Last
variable {front back : List ConfigWrite} {register : Nat}

theorem last_append (front back : List ConfigWrite) (register : Nat) :
    lastWrite (front ++ back) register = (lastWrite back register).or (lastWrite front register) := by
  rw [lastWrite, List.reverse_append, List.findSome?_append]
  rfl

theorem last_none {writes : List ConfigWrite} (other : ∀ write ∈ writes, write.register ≠ register) :
    lastWrite writes register = none := by
  rw [lastWrite, List.findSome?_eq_none_iff]
  intro write member
  have away := other write (List.mem_reverse.mp member)
  cases write with
  | dword place value => exact if_neg away
  | byte place value => rfl

/-- The registers that a turn writes. -/
theorem turn_registers (turn : Turn) : ∀ write ∈ turn.writes,
    ∃ place, write.register = barRegister place ∧ turn.register ≤ place ∧
      place < turn.register + turn.bar.registers := by
  obtain ⟨register, bar, value⟩ := turn
  have positive := bar.registers_pos
  intro write member
  unfold Turn.writes BaseAddress.turn at member
  rcases List.mem_cons.mp member with rfl | member
  · exact ⟨register, rfl, Nat.le_refl _, by dsimp only; omega⟩
  · cases bar with
    | unused => cases member
    | io narrow k =>
        cases List.mem_singleton.mp member
        exact ⟨register, rfl, Nat.le_refl _, Nat.lt_succ_self _⟩
    | memory prefetch k =>
        cases List.mem_singleton.mp member
        exact ⟨register, rfl, Nat.le_refl _, Nat.lt_succ_self _⟩
    | wide prefetch k =>
        rcases List.mem_cons.mp member with rfl | member
        · exact ⟨register, rfl, Nat.le_refl _, by simp [BaseAddress.registers]⟩
        · cases List.mem_singleton.mp member
          exact ⟨register + 1, rfl, Nat.le_succ _, Nat.lt_succ_self _⟩

theorem bar_register_inj {one other : Nat} : barRegister one = barRegister other ↔ one = other := by
  unfold barRegister
  omega

/-- The turns one behind the other. -/
theorem turns_ascending (bars : List BaseAddress) (register : Nat) (io mem : UInt32) :
    (turns register io mem bars).Pairwise fun one other =>
      one.register + one.bar.registers ≤ other.register := by
  induction bars generalizing register io mem with
  | nil => exact List.Pairwise.nil
  | cons bar rest inductive_hypothesis =>
      rw [turns, List.pairwise_cons]
      exact ⟨turns_behind _ _ _ _, inductive_hypothesis _ _ _⟩

theorem ascending_cases {run : List Turn} (ascending : run.Pairwise fun one other =>
      one.register + one.bar.registers ≤ other.register) {one other : Turn} (first : one ∈ run)
    (second : other ∈ run) :
    one.register + one.bar.registers ≤ other.register ∨
      other.register + other.bar.registers ≤ one.register ∨ one = other := by
  induction run with
  | nil => cases first
  | cons head rest inductive_hypothesis =>
      obtain ⟨behind, later⟩ := List.pairwise_cons.mp ascending
      rcases List.mem_cons.mp first with rfl | one_later
      · rcases List.mem_cons.mp second with rfl | other_later
        · exact .inr (.inr rfl)
        · exact .inl (behind other other_later)
      · rcases List.mem_cons.mp second with rfl | other_later
        · exact .inr (.inl (behind one one_later))
        · exact inductive_hypothesis later one_later other_later

/-- No later turn writes the registers of an earlier one. -/
theorem last_turn {run : List Turn} (ascending : run.Pairwise fun one other =>
      one.register + one.bar.registers ≤ other.register) {turn : Turn} (member : turn ∈ run)
    {place : Nat} (from_here : turn.register ≤ place)
    (within : place < turn.register + turn.bar.registers) :
    lastWrite (run.flatMap Turn.writes) (barRegister place) =
      lastWrite turn.writes (barRegister place) := by
  induction run with
  | nil => cases member
  | cons first rest inductive_hypothesis =>
      obtain ⟨behind, later⟩ := List.pairwise_cons.mp ascending
      rw [List.flatMap_cons, last_append]
      rcases List.mem_cons.mp member with rfl | member
      · rw [last_none, Option.none_or]
        intro write written
        obtain ⟨other, among, written⟩ := List.mem_flatMap.mp written
        obtain ⟨another, same, above, _⟩ := turn_registers other write written
        rw [same, Ne, bar_register_inj]
        have apart := behind other among
        omega
      · have none : lastWrite first.writes (barRegister place) = none := by
          apply last_none
          intro write written
          obtain ⟨another, same, _, below⟩ := turn_registers first write written
          rw [same, Ne, bar_register_inj]
          have apart := behind turn member
          omega
        rw [inductive_hypothesis later member, none, Option.or_none]

end Last

/-! ### The windows that are programmed -/

/-- The address as far as it is decoded. -/
def Turn.start (turn : Turn) : Nat :=
  if turn.bar.isNarrow then turn.value.toNat % 2 ^ 16 else turn.value.toNat

def Turn.window (turn : Turn) : Option Window :=
  if turn.bar = .unused then none else some ⟨turn.bar.isIo, turn.start, turn.bar.size⟩

section Programmed
variable (device : Device) (pin : UInt8) (oldCommand io mem command : UInt32)

theorem config_writes :
    (configLoop (responseAt device.bars) 5 0 ⟨io, mem, []⟩).writes =
      (made (turns 0 io mem device.bars)).flatMap Turn.writes :=
  config_loop_eq device.bars device.sound 0 (by rw [Nat.zero_add]; exact device.six)
    (fun later => by rw [Nat.zero_add]) ⟨io, mem, []⟩

/-- Behind the loop no base address is written. -/
theorem last_device (place : Nat) :
    lastWrite (pciHoseConfigDevice (responseAt device.bars) pin oldCommand io mem command)
        (barRegister place) =
      lastWrite ((made (turns 0 io mem device.bars)).flatMap Turn.writes) (barRegister place) := by
  have away : ∀ value, lastWrite [.dword PCI_COMMAND value] (barRegister place) = none := by
    intro value
    apply last_none
    intro write member
    cases List.mem_singleton.mp member
    simp only [ConfigWrite.register, PCI_COMMAND, barRegister, PCI_BASE_ADDRESS_0]
    omega
  have line : lastWrite (if pin ≠ 0 then [.byte PCI_INTERRUPT_LINE 0xff] else [])
      (barRegister place) = none := by
    split <;> rfl
  have bytes : lastWrite [.byte PCI_CACHE_LINE_SIZE 0x08, .byte PCI_LATENCY_TIMER 0x80]
      (barRegister place) = none := rfl
  rw [pciHoseConfigDevice, config_writes, List.cons_append, List.cons_append, List.cons_append,
    ← List.singleton_append, last_append, last_append, last_append, last_append, away, away, line,
    bytes]
  simp only [Option.none_or, Option.or_none]

theorem made_ascending : (made (turns 0 io mem device.bars)).Pairwise fun one other =>
    one.register + one.bar.registers ≤ other.register :=
  (turns_ascending device.bars 0 io mem).filter _

theorem turn_address {turn : Turn} (member : turn ∈ made (turns 0 io mem device.bars))
    (implemented : turn.bar ≠ .unused) :
    turn.bar.address
        (pciHoseConfigDevice (responseAt device.bars) pin oldCommand io mem command) turn.register =
      some turn.start := by
  have first := last_turn (made_ascending device io mem) member (Nat.le_refl _)
    (Nat.lt_of_lt_of_le (Nat.lt_succ_self _) (Nat.add_le_add_left turn.bar.registers_pos _))
  have second := fun within => last_turn (made_ascending device io mem) member
    (Nat.le_succ turn.register) within
  rw [← last_device device pin oldCommand io mem command] at first
  simp only [← last_device device pin oldCommand io mem command] at second
  obtain ⟨register, bar, value⟩ := turn
  have next : barRegister (register + 1) ≠ barRegister register := by
    rw [Ne, bar_register_inj]
    omega
  cases bar with
  | unused => exact absurd rfl implemented
  | io narrow k =>
      dsimp only at first
      rw [BaseAddress.address, first]
      cases narrow <;> simp [Turn.writes, BaseAddress.turn, lastWrite, Turn.start, BaseAddress.isNarrow]
  | memory prefetch k =>
      dsimp only at first
      rw [BaseAddress.address, first]
      simp [Turn.writes, BaseAddress.turn, lastWrite, Turn.start, BaseAddress.isNarrow]
  | wide prefetch k =>
      have upper := second (by simp [BaseAddress.registers])
      dsimp only [Nat.succ_eq_add_one] at first upper
      rw [BaseAddress.address, first, upper]
      simp [Turn.writes, BaseAddress.turn, lastWrite, Turn.start, BaseAddress.isNarrow, next]

theorem turns_within (bars : List BaseAddress) (register : Nat) (io mem : UInt32) :
    ∀ turn ∈ turns register io mem bars,
      turn.register + turn.bar.registers ≤ register + total bars ∧ turn.bar ∈ bars := by
  induction bars generalizing register io mem with
  | nil => exact fun _ member => absurd member List.not_mem_nil
  | cons bar rest inductive_hypothesis =>
      rw [turns, List.forall_mem_cons, total_cons]
      refine ⟨⟨by dsimp only; omega, List.mem_cons_self⟩, fun turn member => ?_⟩
      obtain ⟨inside, among⟩ := inductive_hypothesis _ _ _ turn member
      exact ⟨by omega, List.mem_cons_of_mem _ among⟩

/-- The last register is no base address of its own. -/
def LastUnused (bars : List BaseAddress) : Prop := ∀ bar, (5, bar) ∈ numbered 0 bars → bar = .unused

theorem turn_made (unused : LastUnused device.bars) {turn : Turn}
    (member : turn ∈ turns 0 io mem device.bars) (implemented : turn.bar ≠ .unused) :
    turn ∈ made (turns 0 io mem device.bars) := by
  obtain ⟨inside, _⟩ := turns_within _ _ _ _ turn member
  have six : total device.bars = 6 := device.six
  have positive := turn.bar.registers_pos
  refine List.mem_filter.mpr ⟨member, decide_eq_true ?_⟩
  by_contra past
  apply implemented
  apply unused
  rw [← turns_numbered device.bars 0 io mem]
  exact List.mem_map.mpr ⟨turn, member, by rw [Prod.mk.injEq]; exact ⟨by omega, rfl⟩⟩

/-- With nothing in the last register, the windows are the ones of the turns. -/
theorem windows_eq (unused : LastUnused device.bars) :
    windows device.bars
        (pciHoseConfigDevice (responseAt device.bars) pin oldCommand io mem command) =
      (turns 0 io mem device.bars).filterMap Turn.window := by
  rw [windows, ← turns_numbered device.bars 0 io mem, List.filterMap_map]
  apply List.filterMap_congr
  intro turn member
  rw [Function.comp_apply, Turn.window]
  by_cases implemented : turn.bar = .unused
  · rw [if_pos implemented]
    dsimp only
    rw [implemented]
    rfl
  · have address := turn_address device pin oldCommand io mem command
      (turn_made device io mem unused member implemented) implemented
    rw [if_neg implemented]
    dsimp only
    rw [address]
    rfl

/-- The register of the last base address is not written when it is one of its own. -/
theorem last_missed {bar : BaseAddress} (last : (5, bar) ∈ numbered 0 device.bars) :
    lastWrite (pciHoseConfigDevice (responseAt device.bars) pin oldCommand io mem command)
      (barRegister 5) = none := by
  rw [← turns_numbered device.bars 0 io mem] at last
  obtain ⟨turn, member, named⟩ := List.mem_map.mp last
  have fifth : turn.register = 5 := congrArg Prod.fst named
  rw [last_device]
  apply last_none
  intro write written
  obtain ⟨other, among, written⟩ := List.mem_flatMap.mp written
  obtain ⟨found, early⟩ := List.mem_filter.mp among
  obtain ⟨place, same, above, below⟩ := turn_registers other write written
  have before : other.register < 5 := of_decide_eq_true early
  rw [same, Ne, bar_register_inj]
  rcases ascending_cases (turns_ascending device.bars 0 io mem) found member with apart | apart | same
  · omega
  · omega
  · rw [same] at before
    omega

end Programmed

end UBoot.Pci.ConfigDevice
