import UBoot.Pci.RegionAllocate

/-!
The configuration writes of pciauto_setup_device. The loop over the base addresses has one turn more
than it is asked for, so that it comes to the register behind the last one, unless that is the upper
half of a base address of 64 bits.
-/

namespace UBoot.Pci.SetupDevice

open PciAuto RegionAllocate

def PCI_COMMAND : Nat := 0x04
def PCI_COMMAND_IO : UInt32 := 0x1
def PCI_COMMAND_MEMORY : UInt32 := 0x2
def PCI_COMMAND_MASTER : UInt32 := 0x4
def PCI_CACHE_LINE_SIZE : Nat := 0x0c
def PCI_LATENCY_TIMER : Nat := 0x0d
def PCI_BASE_ADDRESS_0 : Nat := 0x10

/-- A write to a register of the device. -/
inductive ConfigWrite where
  | dword (register : Nat) (value : UInt32)
  | byte (register : Nat) (value : UInt8)

def ConfigWrite.register : ConfigWrite → Nat
  | .dword register _ => register
  | .byte register _ => register

/-- The base address with a number. -/
def barRegister (bar : Nat) : Nat := PCI_BASE_ADDRESS_0 + bar * 4

/-- The loop, with the bits for the command register and the writes. -/
structure Setup where
  hose : PciController
  cmdstat : UInt32
  writes : List ConfigWrite

def Setup.write (setup : Setup) (bar : Nat) (value : UInt32) : Setup :=
  { setup with writes := setup.writes ++ [.dword (barRegister bar) value] }

def enables (response : UInt32) : UInt32 :=
  if response &&& 1 ≠ 0 then PCI_COMMAND_IO else PCI_COMMAND_MEMORY

/-- One turn of the loop, and whether it has cleared the next register, the upper half of a base
address of 64 bits. -/
def setupBar (responses : Nat → UInt32) (path : List Nat) (bar : Nat) (setup : Setup) :
    Setup × Bool :=
  let tickled := setup.write bar 0xffffffff
  if responses bar = 0 then (tickled, false)
  else
    let decoded := decodeBar (setup.hose.regions .prefetch).isSome (responses bar)
    match regionAllocate setup.hose decoded.1 decoded.2.1 with
    | none => ({ tickled with hose := { setup.hose with refused := true } }, false)
    | some (addr, hose) =>
        let assigned := { tickled.write bar addr with
          hose := { hose with bars := hose.bars ++ [Bar.mk path decoded.1 addr decoded.2.1] }
          cmdstat := setup.cmdstat ||| enables (responses bar) }
        (if decoded.2.2 then assigned.write (bar + 1) 0 else assigned, decoded.2.2)

/-- The loop over the base addresses from number `bar` on, of which `left` are left. -/
def setupLoop (responses : Nat → UInt32) (path : List Nat) : (left bar : Nat) → Setup → Setup
  | 0, _, setup => setup
  | left + 1, bar, setup =>
      let (setup, wide) := setupBar responses path bar setup
      if wide then
        match left with
        | 0 => setup
        | left + 1 => setupLoop responses path left (bar + 2) setup
      else setupLoop responses path left (bar + 1) setup

/-- pciauto_setup_device of a device whose command register reads `cmdstat`. -/
def pciautoSetupDeviceWrites (responses : Nat → UInt32) (path : List Nat) (barsNum : Int)
    (cmdstat : UInt32) (hose : PciController) : Setup :=
  let cmdstat := (cmdstat &&& ~~~( PCI_COMMAND_IO ||| PCI_COMMAND_MEMORY)) ||| PCI_COMMAND_MASTER
  let setup := setupLoop responses path (barsNum + 1).toNat 0 ⟨hose, cmdstat, []⟩
  { setup with writes := setup.writes ++ [.dword PCI_COMMAND setup.cmdstat,
      .byte PCI_CACHE_LINE_SIZE 0x08, .byte PCI_LATENCY_TIMER 0x80] }

/-- The addresses that are assigned are the ones of the scan. -/
theorem setup_loop_hose (responses : Nat → UInt32) (path : List Nat) (left : Nat) :
    ∀ bar setup, (setupLoop responses path left bar setup).hose =
      setupBars responses path left bar setup.hose := by
  induction left using Nat.strongRecOn with
  | ind left ih =>
      intro bar setup
      cases left with
      | zero => rfl
      | succ left =>
          rw [setupLoop, setupBars, setupBar]
          by_cases blank : responses bar = 0
          · simp only [if_pos blank]
            exact ih left (Nat.lt_succ_self left) _ _
          · simp only [if_neg blank]
            cases regionAllocate setup.hose
              (decodeBar (setup.hose.regions .prefetch).isSome (responses bar)).1
              (decodeBar (setup.hose.regions .prefetch).isSome (responses bar)).2.1 with
            | none => exact ih left (Nat.lt_succ_self left) _ _
            | some done =>
                dsimp only
                split
                · cases left with
                  | zero => rfl
                  | succ left => exact ih left (by omega) _ _
                · exact ih left (Nat.lt_succ_self left) _ _

/-! ### The registers of a device -/

/-- A register that answers as the lower half of a base address of 64 bits. -/
def decodes64 (response : UInt32) : Bool := response &&& 1 = 0 ∧ response &&& 6 = 4

/-- The upper halves of the base addresses of 64 bits, from the first register on. -/
def upperHalf (responses : Nat → UInt32) : Nat → Bool
  | 0 => false
  | bar + 1 => decodes64 (responses bar) && !upperHalf responses bar

/-- The registers that may be written for the base addresses `0 .. barsNum - 1`. -/
def Requested (responses : Nat → UInt32) (barsNum : Int) (register : Nat) : Prop :=
  register = PCI_COMMAND ∨ register = PCI_CACHE_LINE_SIZE ∨ register = PCI_LATENCY_TIMER ∨
    ∃ bar : Nat, register = barRegister bar ∧
      (bar < barsNum ∨ bar = barsNum ∧ upperHalf responses bar = true)

/-- The regions behind the assignment of a base address, if it gets one. -/
def takes (regions : Space → Option PciRegion) (response : UInt32) :
    Option (Space → Option PciRegion) :=
  if response = 0 then none
  else
    let decoded := decodeBar (regions .prefetch).isSome response
    (regions decoded.1).bind fun res =>
      let answer := pciautoRegionAllocate res decoded.2.1
      if answer.result = 0 then some (Function.update regions decoded.1 (some answer.region)) else none

/-- The regions when `left` registers have been passed, of which a base address of 64 bits that is
assigned takes two; none if the next register is the second one of these. -/
def passed (responses : Nat → UInt32) : (left bar : Nat) → (Space → Option PciRegion) →
    Option (Space → Option PciRegion)
  | 0, _, regions => some regions
  | left + 1, bar, regions =>
      match takes regions (responses bar) with
      | none => passed responses left (bar + 1) regions
      | some taken =>
          if decodes64 (responses bar) then
            match left with
            | 0 => none
            | left + 1 => passed responses left (bar + 2) taken
          else passed responses left (bar + 1) taken

/-- The register behind `left` others is taken for a base address of 64 bits, and assigned. -/
def Beyond (responses : Nat → UInt32) (left bar : Nat) (regions : Space → Option PciRegion) : Prop :=
  decodes64 (responses (bar + left)) = true ∧
    ∃ before, passed responses left bar regions = some before ∧
      (takes before (responses (bar + left))).isSome

section Turn
variable {responses : Nat → UInt32} {path : List Nat}

theorem decode_wide (prefetch : Bool) {response : UInt32} :
    (decodeBar prefetch response).2.2 = decodes64 response := by
  unfold decodeBar decodes64
  by_cases io : response &&& 1 = 0
  · simp [io]
  · simp [io]

theorem setup_bar_regions (bar : Nat) (setup : Setup) :
    (setupBar responses path bar setup).1.hose.regions =
        (takes setup.hose.regions (responses bar)).getD setup.hose.regions ∧
      (setupBar responses path bar setup).2 =
        ((takes setup.hose.regions (responses bar)).isSome && decodes64 (responses bar)) := by
  unfold setupBar takes
  by_cases blank : responses bar = 0
  · simp only [if_pos blank]
    exact ⟨rfl, rfl⟩
  · simp only [if_neg blank]
    have same := region_allocate_eq setup.hose
      (decodeBar (setup.hose.regions .prefetch).isSome (responses bar)).1
      (decodeBar (setup.hose.regions .prefetch).isSome (responses bar)).2.1
    rw [← decode_wide (setup.hose.regions .prefetch).isSome]
    generalize decodeBar (setup.hose.regions .prefetch).isSome (responses bar) = decoded at *
    cases region : setup.hose.regions decoded.1 with
    | none =>
        rw [region] at same
        cases done : regionAllocate setup.hose decoded.1 decoded.2.1 with
        | none => exact ⟨rfl, rfl⟩
        | some granted =>
            rw [done] at same
            cases same
    | some res =>
        rw [region] at same
        simp only [Option.bind_some] at same ⊢
        by_cases fits : (pciautoRegionAllocate res decoded.2.1).result = 0
        · rw [if_pos fits] at same ⊢
          cases done : regionAllocate setup.hose decoded.1 decoded.2.1 with
          | none =>
              rw [done] at same
              cases same
          | some granted =>
              obtain ⟨addr, hose⟩ := granted
              rw [done] at same
              obtain ⟨-, regions⟩ := Prod.mk.inj (Option.some.inj same)
              refine ⟨?_, (Bool.true_and _).symm⟩
              rw [Option.getD_some, ← regions]
              dsimp only
              split
              · rfl
              · rfl
        · rw [if_neg fits] at same ⊢
          cases done : regionAllocate setup.hose decoded.1 decoded.2.1 with
          | none => exact ⟨rfl, rfl⟩
          | some granted =>
              rw [done] at same
              cases same

/-- The register takes all ones and then the address, and the next one is cleared when it is the
upper half. -/
theorem setup_bar_writes (bar : Nat) (setup : Setup) :
    ∃ more, (setupBar responses path bar setup).1.writes = setup.writes ++ more ∧
      (∃ write ∈ more, write.register = barRegister bar) ∧
      (∀ write ∈ more, write.register = barRegister bar ∨
        (setupBar responses path bar setup).2 = true ∧ write.register = barRegister (bar + 1)) ∧
      ((setupBar responses path bar setup).2 = true →
        ∃ write ∈ more, write.register = barRegister (bar + 1)) := by
  have single : ∀ write ∈ [ConfigWrite.dword (barRegister bar) 0xffffffff],
      write.register = barRegister bar := by
    intro write member
    rw [List.mem_singleton.mp member]
    rfl
  unfold setupBar
  by_cases blank : responses bar = 0
  · simp only [if_pos blank]
    exact ⟨_, rfl, ⟨_, List.mem_singleton.mpr rfl, rfl⟩,
      fun write member => Or.inl (single write member), fun wide => absurd wide Bool.false_ne_true⟩
  · simp only [if_neg blank]
    generalize decodeBar (setup.hose.regions .prefetch).isSome (responses bar) = decoded
    cases regionAllocate setup.hose decoded.1 decoded.2.1 with
    | none =>
        exact ⟨_, rfl, ⟨_, List.mem_singleton.mpr rfl, rfl⟩,
          fun write member => Or.inl (single write member),
          fun wide => absurd wide Bool.false_ne_true⟩
    | some granted =>
        obtain ⟨addr, hose⟩ := granted
        dsimp only
        cases wide : decoded.2.2 with
        | false =>
            refine ⟨[.dword (barRegister bar) 0xffffffff, .dword (barRegister bar) addr], ?_,
              ⟨_, List.mem_cons_self, rfl⟩, ?_, fun wide => absurd wide Bool.false_ne_true⟩
            · simp [Setup.write]
            · intro write member
              rcases List.mem_cons.mp member with rfl | later
              · exact Or.inl rfl
              · rw [List.mem_singleton.mp later]
                exact Or.inl rfl
        | true =>
            refine ⟨[.dword (barRegister bar) 0xffffffff, .dword (barRegister bar) addr,
              .dword (barRegister (bar + 1)) 0], ?_, ⟨_, List.mem_cons_self, rfl⟩, ?_, ?_⟩
            · simp [Setup.write]
            · intro write member
              rcases List.mem_cons.mp member with rfl | later
              · exact Or.inl rfl
              · rcases List.mem_cons.mp later with rfl | last
                · exact Or.inl rfl
                · rw [List.mem_singleton.mp last]
                  exact Or.inr ⟨rfl, rfl⟩
            · exact fun _ => ⟨_, List.mem_cons_of_mem _ (List.mem_cons_of_mem _
                (List.mem_singleton.mpr rfl)), rfl⟩

/-- What a loop over one register more than `left` writes. -/
structure LoopWrites (responses : Nat → UInt32) (left bar : Nat) (regions : Space → Option PciRegion)
    (more : List ConfigWrite) : Prop where
  within : ∀ write ∈ more, ∃ i, write.register = barRegister i ∧
    (i ≤ bar + left ∨ i = bar + left + 1 ∧ Beyond responses left bar regions)
  last : ∃ write ∈ more, write.register = barRegister (bar + left)
  beyond : Beyond responses left bar regions →
    ∃ write ∈ more, write.register = barRegister (bar + left + 1)

/-- A turn in front of the others. -/
theorem loop_writes_cons {left bar step : Nat} {regions next : Space → Option PciRegion}
    {front more : List ConfigWrite}
    (turn : ∀ write ∈ front, ∃ i, write.register = barRegister i ∧ i ≤ bar + left + step)
    (same : Beyond responses (left + step) bar regions ↔ Beyond responses left (bar + step) next)
    (rest : LoopWrites responses left (bar + step) next more) :
    LoopWrites responses (left + step) bar regions (front ++ more) := by
  have place : bar + step + left = bar + (left + step) := by omega
  obtain ⟨within, last, beyond⟩ := rest
  rw [place] at within last beyond
  refine ⟨?_, ?_, ?_⟩
  · intro write member
    rcases List.mem_append.mp member with early | late
    · obtain ⟨i, register, bound⟩ := turn write early
      exact ⟨i, register, Or.inl (by omega)⟩
    · obtain ⟨i, register, bound | ⟨after, outside⟩⟩ := within write late
      · exact ⟨i, register, Or.inl bound⟩
      · exact ⟨i, register, Or.inr ⟨after, same.mpr outside⟩⟩
  · obtain ⟨write, member, register⟩ := last
    exact ⟨write, List.mem_append_right _ member, register⟩
  · intro outside
    obtain ⟨write, member, register⟩ := beyond (same.mp outside)
    exact ⟨write, List.mem_append_right _ member, register⟩

/-- The register behind others is the same, seen from a register further on. -/
theorem beyond_shift {left bar step : Nat} {regions next : Space → Option PciRegion}
    (walk : passed responses (left + step) bar regions = passed responses left (bar + step) next) :
    Beyond responses (left + step) bar regions ↔ Beyond responses left (bar + step) next := by
  have place : bar + step + left = bar + (left + step) := by omega
  unfold Beyond
  rw [walk, place]

theorem passed_narrow {left bar : Nat} {regions : Space → Option PciRegion}
    (narrow : ((takes regions (responses bar)).isSome && decodes64 (responses bar)) = false) :
    passed responses (left + 1) bar regions =
      passed responses left (bar + 1) ((takes regions (responses bar)).getD regions) := by
  rw [passed]
  cases taken : takes regions (responses bar) with
  | none => rfl
  | some next =>
      rw [taken, Option.isSome_some, Bool.true_and] at narrow
      dsimp only
      rw [narrow, if_neg Bool.false_ne_true, Option.getD_some]

theorem passed_wide {left bar : Nat} {regions : Space → Option PciRegion}
    (wide : ((takes regions (responses bar)).isSome && decodes64 (responses bar)) = true) :
    passed responses 1 bar regions = none ∧ passed responses (left + 2) bar regions =
      passed responses left (bar + 2) ((takes regions (responses bar)).getD regions) := by
  cases taken : takes regions (responses bar) with
  | none =>
      rw [taken] at wide
      cases wide
  | some next =>
      rw [taken, Option.isSome_some, Bool.true_and] at wide
      constructor
      · rw [passed, taken]
        dsimp only
        rw [wide, if_pos rfl]
      · rw [passed, taken]
        dsimp only
        rw [wide, if_pos rfl, Option.getD_some]

theorem beyond_here {bar : Nat} {regions : Space → Option PciRegion} :
    Beyond responses 0 bar regions ↔
      ((takes regions (responses bar)).isSome && decodes64 (responses bar)) = true := by
  rw [Beyond, Nat.add_zero, Bool.and_eq_true]
  constructor
  · rintro ⟨wide, before, walk, taken⟩
    rw [passed] at walk
    cases walk
    exact ⟨taken, wide⟩
  · exact fun both => ⟨both.2, regions, rfl, both.1⟩

theorem setup_loop_writes (left : Nat) : ∀ bar setup, ∃ more,
    (setupLoop responses path (left + 1) bar setup).writes = setup.writes ++ more ∧
      LoopWrites responses left bar setup.hose.regions more := by
  induction left using Nat.strongRecOn with
  | ind left ih =>
      intro bar setup
      obtain ⟨front, writes, own, turn, cleared⟩ := @setup_bar_writes responses path bar setup
      obtain ⟨regions, decoded⟩ := @setup_bar_regions responses path bar setup
      rw [setupLoop]
      dsimp only
      cases wide : (setupBar responses path bar setup).2 with
      | false =>
          rw [wide] at decoded turn
          rw [if_neg Bool.false_ne_true]
          have near : ∀ write ∈ front, write.register = barRegister bar := by
            intro write member
            rcases turn write member with here | ⟨impossible, -⟩
            · exact here
            · cases impossible
          cases left with
          | zero =>
              refine ⟨front, writes, fun write member => ⟨bar, near write member, Or.inl (by omega)⟩,
                own, ?_⟩
              rw [beyond_here, ← decoded]
              exact fun impossible => absurd impossible Bool.false_ne_true
          | succ left =>
              obtain ⟨more, later, rest⟩ := ih left (Nat.lt_succ_self left) (bar + 1)
                (setupBar responses path bar setup).1
              rw [regions] at rest
              refine ⟨front ++ more, ?_, loop_writes_cons ?_ (beyond_shift ?_) rest⟩
              · rw [later, writes, List.append_assoc]
              · exact fun write member => ⟨bar, near write member, by omega⟩
              · exact passed_narrow decoded.symm
      | true =>
          rw [wide] at decoded turn
          rw [if_pos rfl]
          obtain ⟨upper, inside, place⟩ := cleared wide
          have near : ∀ write ∈ front, ∃ i, write.register = barRegister i ∧ i ≤ bar + 1 := by
            intro write member
            rcases turn write member with here | ⟨-, next⟩
            · exact ⟨bar, here, by omega⟩
            · exact ⟨bar + 1, next, by omega⟩
          match left with
          | 0 =>
              have outside : Beyond responses 0 bar setup.hose.regions :=
                beyond_here.mpr decoded.symm
              refine ⟨front, writes, ?_, own, fun _ => ⟨upper, inside, place⟩⟩
              intro write member
              rcases turn write member with here | ⟨-, next⟩
              · exact ⟨bar, here, Or.inl (by omega)⟩
              · exact ⟨bar + 1, next, Or.inr ⟨rfl, outside⟩⟩
          | 1 =>
              refine ⟨front, writes, ?_, ⟨upper, inside, place⟩, ?_⟩
              · intro write member
                obtain ⟨i, register, bound⟩ := near write member
                exact ⟨i, register, Or.inl bound⟩
              · rintro ⟨-, before, walk, -⟩
                rw [(@passed_wide responses 0 bar _ decoded.symm).1] at walk
                cases walk
          | left + 2 =>
              obtain ⟨more, later, rest⟩ := ih left (by omega) (bar + 2)
                (setupBar responses path bar setup).1
              rw [regions] at rest
              refine ⟨front ++ more, ?_, loop_writes_cons ?_ (beyond_shift ?_) rest⟩
              · rw [later, writes, List.append_assoc]
              · intro write member
                obtain ⟨i, register, bound⟩ := near write member
                exact ⟨i, register, by omega⟩
              · exact (passed_wide decoded.symm).2

end Turn

theorem bar_register_inj {bar other : Nat} : barRegister bar = barRegister other ↔ bar = other := by
  unfold barRegister
  omega

theorem bar_register_apart (bar : Nat) : barRegister bar ≠ PCI_COMMAND ∧
    barRegister bar ≠ PCI_CACHE_LINE_SIZE ∧ barRegister bar ≠ PCI_LATENCY_TIMER := by
  unfold barRegister PCI_BASE_ADDRESS_0 PCI_COMMAND PCI_CACHE_LINE_SIZE PCI_LATENCY_TIMER
  omega

theorem requested_bar {responses : Nat → UInt32} {barsNum : Int} (bar : Nat) :
    Requested responses barsNum (barRegister bar) ↔
      bar < barsNum ∨ bar = barsNum ∧ upperHalf responses bar = true := by
  obtain ⟨command, cacheLine, latency⟩ := bar_register_apart bar
  constructor
  · rintro (same | same | same | ⟨other, same, bound⟩)
    · exact absurd same command
    · exact absurd same cacheLine
    · exact absurd same latency
    · rw [bar_register_inj.mp same]
      exact bound
  · exact fun bound => Or.inr (Or.inr (Or.inr ⟨bar, rfl, bound⟩))

/-- Only the requested registers are written if and only if none is requested at all, or the
register behind the last one is an upper half, and the loop does not come to it as to one that
decodes 64 bits and is assigned. -/
theorem setup_device_writes_iff (responses : Nat → UInt32) (path : List Nat) (barsNum : Int)
    (cmdstat : UInt32) (hose : PciController) :
    (∀ write ∈ (pciautoSetupDeviceWrites responses path barsNum cmdstat hose).writes,
        Requested responses barsNum write.register) ↔
      barsNum < 0 ∨ upperHalf responses barsNum.toNat = true ∧
        ¬ Beyond responses barsNum.toNat 0 hose.regions := by
  have others : ∀ setup : Setup, ∀ write ∈ [ConfigWrite.dword PCI_COMMAND setup.cmdstat,
      .byte PCI_CACHE_LINE_SIZE 0x08, .byte PCI_LATENCY_TIMER 0x80],
      Requested responses barsNum write.register := by
    intro setup write member
    simp only [List.mem_cons, List.not_mem_nil, or_false] at member
    rcases member with rfl | rfl | rfl
    · exact Or.inl rfl
    · exact Or.inr (Or.inl rfl)
    · exact Or.inr (Or.inr (Or.inl rfl))
  unfold pciautoSetupDeviceWrites
  dsimp only
  by_cases negative : barsNum < 0
  · have none' : (barsNum + 1).toNat = 0 := by omega
    rw [none', setupLoop]
    exact ⟨fun _ => Or.inl negative, fun _ write member => others _ write member⟩
  · obtain ⟨n, rfl⟩ := Int.eq_ofNat_of_zero_le (Int.not_lt.mp negative)
    have turns : ((n : Int) + 1).toNat = n + 1 := by omega
    rw [turns, Int.toNat_natCast]
    obtain ⟨more, writes, within, last, beyond⟩ := @setup_loop_writes responses path n 0
      ⟨hose, (cmdstat &&& ~~~( PCI_COMMAND_IO ||| PCI_COMMAND_MEMORY)) ||| PCI_COMMAND_MASTER, []⟩
    rw [Nat.zero_add] at within last beyond
    rw [writes, List.nil_append]
    constructor
    · intro requested
      right
      constructor
      · obtain ⟨write, member, register⟩ := last
        have allowed := requested write (List.mem_append_left _ member)
        rw [register, requested_bar] at allowed
        rcases allowed with below | ⟨-, upper⟩
        · omega
        · exact upper
      · intro outside
        obtain ⟨write, member, register⟩ := beyond outside
        have allowed := requested write (List.mem_append_left _ member)
        rw [register, requested_bar] at allowed
        omega
    · rintro (below | ⟨upper, inside⟩) write member
      · exact absurd below negative
      · rcases List.mem_append.mp member with base | final
        · obtain ⟨i, register, bound | ⟨-, outside⟩⟩ := within write base
          · rw [register, requested_bar]
            by_cases here : i = n
            · exact Or.inr ⟨by rw [here], by rw [here]; exact upper⟩
            · left
              omega
          · exact absurd outside inside
        · exact others _ write final

/-- A controller without regions. -/
def bareController : PciController :=
  ⟨0, 0, [], fun _ => none, false, false, [], []⟩

/-- A bridge with two base addresses, neither of which is there: all ones are written to the
register with its bus numbers. -/
theorem bus_numbers_written :
    ¬ ∀ write ∈ (pciautoSetupDeviceWrites (fun _ => 0) [] 2 0 bareController).writes,
      Requested (fun _ => 0) 2 write.register := by
  intro requested
  have member : ConfigWrite.dword 0x18 0xffffffff ∈
      (pciautoSetupDeviceWrites (fun _ => 0) [] 2 0 bareController).writes :=
    List.mem_cons_of_mem _ (List.mem_cons_of_mem _ List.mem_cons_self)
  have allowed := (requested_bar 2).mp (requested _ member)
  rcases allowed with below | ⟨-, upper⟩
  · exact absurd below (by decide)
  · exact absurd upper (by decide)

end UBoot.Pci.SetupDevice
