import UBoot.Library.Runs
import UBoot.Net.Tftp

/-!
The ring of network devices over many calls of NetLoop. eth_init takes the
current device into use, or the next one that comes up, and NetStartAgain moves
on to another device. NetRestartWrap says that the ring has been gone through
once since the first restart; it is one variable for all calls of NetLoop.
-/

namespace UBoot.Net.EthRing

open Library.Runs Lib.Strings Tftp

inductive Phase where
  /-- No command runs. -/
  | idle
  /-- NetLoop is at the label restart. -/
  | starting
  /-- NetLoop is in its reception loop. -/
  | running
  deriving DecidableEq

/-- What happens to the ring, in its order. -/
inductive Entry where
  | netLoop
  | startAgain
  | init (device : Nat)
  | givesUp
  deriving DecidableEq

/-- The state of net.c and of eth.c. `calls` counts the calls of the drivers' init. -/
structure Ring where
  phase : Phase
  loop : LoopState
  calls : Nat
  log : List Entry

section Devices

variable (cfg : NetConfig) (comesUp : Nat → Nat → Bool)

/-- The loop of eth_init from one device on. Its bound is one call for each device. -/
def initFrom (oldCurrent : Nat) : Nat → Ring → Ring
  | 0, ring => ring
  | bound + 1, ring =>
      let tried := { ring with
        calls := ring.calls + 1
        log := ring.log ++ [.init ring.loop.ethCurrent] }
      if comesUp ring.loop.ethCurrent ring.calls then tried
      else
        let moved := { tried with loop := ethTryAnother cfg tried.loop false }
        if oldCurrent ≠ moved.loop.ethCurrent then initFrom oldCurrent bound moved else moved

def ethInit (ring : Ring) : Ring :=
  if cfg.ethDevices = 0 then ring
  else initFrom cfg comesUp ring.loop.ethCurrent cfg.ethDevices ring

/-- eth_set_current: the first device from the current one on that is named so. -/
def ethSetCurrent (names : Nat → List UInt8) (act : List UInt8) (loop : LoopState) : LoopState :=
  let devices := (List.range cfg.ethDevices).map fun k => (loop.ethCurrent + k) % cfg.ethDevices
  { loop with
    ethCurrent := (devices.find? fun device => names device == act).getD loop.ethCurrent }

/-- The switch to another device in NetStartAgain. -/
def movedOn (ring : Ring) : Ring :=
  { ring with
    loop := ethTryAnother cfg ring.loop (!ring.loop.netRestarted)
    log := ring.log ++ [.startAgain] }

/-- NetStartAgain with the devices that it brings up. -/
def netStartAgain (ring : Ring) : Ring :=
  if cfg.fwRecovery ≠ 0 then ring
  else if cfg.netretry = some (ascii "no") then
    { ring with loop := { ring.loop with netState := .fail } }
  else
    let up := ethInit cfg comesUp (movedOn cfg ring)
    if up.loop.netRestartWrap then
      let wrapped := { up.loop with netRestartWrap := false }
      { up with
        loop :=
          if up.loop.netDevExists ∧ cfg.netretry ≠ some (ascii "once") then
            { wrapped with
              timeHandler := some .startAgainTimeout
              packetHandler := .startAgainHandler }
          else { wrapped with netState := .fail }
        log := up.log ++ [.givesUp] }
    else { up with loop := { up.loop with netState := .restart } }

end Devices

/-- One thing that happens. `ready` tells whether the protocol sets a timer of its own, and
`protocol` is what a handler does otherwise: it may end the transfer, and set its timer. -/
inductive RingEvent where
  | netLoop (act : List UInt8)
  | unconfigured
  | noDevice (fwRecovery : Nat) (netretry : Option (List UInt8))
  | ready (ownTimer : Bool)
  | startAgain (fwRecovery : Nat) (netretry : Option (List UInt8))
  | protocol (netState : Option Bool) (ownTimer : Bool)
  | startAgainTimeout
  | turn
  | abort

section Runs

variable (ethDevices : Nat) (names : Nat → List UInt8) (comesUp : Nat → Nat → Bool)

def configured (fwRecovery : Nat) (netretry : Option (List UInt8)) : NetConfig :=
  ⟨fwRecovery, netretry, ethDevices, []⟩

/-- An event that cannot happen in the phase changes nothing. -/
def ringStep (ring : Ring) : RingEvent → Ring
  | .netLoop act =>
      if ring.phase = .idle then
        let entered := { ring with
          loop := ethSetCurrent (configured ethDevices 0 none) names act
            { ring.loop with netRestarted := false, netDevExists := false }
          log := ring.log ++ [.netLoop] }
        { ethInit (configured ethDevices 0 none) comesUp entered with phase := .starting }
      else ring
  | .unconfigured => if ring.phase = .starting then { ring with phase := .idle } else ring
  | .noDevice fwRecovery netretry =>
      if ring.phase = .starting then
        let restarted := { ring with
          phase := .running
          loop := { ring.loop with netState := .continue } }
        netStartAgain (configured ethDevices fwRecovery netretry) comesUp restarted
      else ring
  | .ready ownTimer =>
      if ring.phase = .starting then
        { ring with
          phase := .running
          loop := { ring.loop with
            netState := .continue
            netDevExists := true
            timeHandler := if ownTimer then some .tftpTimeout else ring.loop.timeHandler } }
      else ring
  | .startAgain fwRecovery netretry =>
      if ring.phase = .running then
        netStartAgain (configured ethDevices fwRecovery netretry) comesUp ring
      else ring
  | .protocol netState ownTimer =>
      if ring.phase = .running then
        { ring with loop := { ring.loop with
            netState := match netState with
              | none => ring.loop.netState
              | some true => .success
              | some false => .fail
            timeHandler := if ownTimer then some .tftpTimeout else none } }
      else ring
  | .startAgainTimeout =>
      if ring.phase = .running ∧ ring.loop.timeHandler = some .startAgainTimeout then
        { ring with loop := { ring.loop with timeHandler := none, netState := .restart } }
      else ring
  | .turn =>
      if ring.phase = .running then
        match ring.loop.netState with
        | .continue => ring
        | .restart =>
            { ring with phase := .starting, loop := { ring.loop with netRestarted := true } }
        | .success => { ring with phase := .idle }
        | .fail => { ring with phase := .idle }
      else ring
  | .abort => if ring.phase = .running then { ring with phase := .idle } else ring

end Runs

/-! ### What the log tells -/

/-- The devices tried since the first NetStartAgain of the current NetLoop, if there was one. -/
def watch : Option (List Nat) → Entry → Option (List Nat)
  | _, .netLoop => none
  | tried, .startAgain => some (tried.getD [])
  | tried, .init device => tried.map fun devices => devices ++ [device]
  | tried, .givesUp => tried

def triedSince (log : List Entry) : Option (List Nat) := log.foldl watch none

/-- NetStartAgain gave up only when all devices had been tried. -/
def Thorough (ethDevices : Nat) (log : List Entry) : Prop :=
  ∀ before after, log = before ++ .givesUp :: after →
    ∃ tried, triedSince before = some tried ∧ ∀ device < ethDevices, device ∈ tried

theorem watch_inits (devices : List Nat) (tried : Option (List Nat)) :
    (devices.map Entry.init).foldl watch tried = tried.map fun before => before ++ devices := by
  induction devices generalizing tried with
  | nil => cases tried <;> simp
  | cons device devices induction =>
      rw [List.map_cons, List.foldl_cons, induction]
      cases tried <;> simp [watch]

theorem tried_append (log extra : List Entry) :
    triedSince (log ++ extra) = extra.foldl watch (triedSince log) :=
  List.foldl_append

theorem thorough_snoc {ethDevices : Nat} {log : List Entry} (thorough : Thorough ethDevices log)
    (entry : Entry) (last : entry = .givesUp →
      ∃ tried, triedSince log = some tried ∧ ∀ device < ethDevices, device ∈ tried) :
    Thorough ethDevices (log ++ [entry]) := by
  intro before after split
  rcases after.eq_nil_or_concat with rfl | ⟨rest, final, rfl⟩
  · rcases List.append_inj' split rfl with ⟨rfl, same⟩
    exact last (List.cons.inj same).1
  · rw [List.concat_eq_append, ← List.cons_append, ← List.append_assoc] at split
    exact thorough before rest (List.append_inj' split rfl).1

theorem thorough_inits {ethDevices : Nat} {log : List Entry} (thorough : Thorough ethDevices log)
    (devices : List Nat) : Thorough ethDevices (log ++ devices.map Entry.init) := by
  induction devices generalizing log with
  | nil => simpa using thorough
  | cons device devices induction =>
      have first := thorough_snoc thorough (.init device) (fun other => by cases other)
      have rest := induction first
      rw [List.append_assoc] at rest
      exact rest

/-! ### Around the ring -/

/-- Every device is some steps in front of a given one. -/
theorem ring_offset {n : Nat} (f : Nat) {device : Nat} (first : f < n) (bound : device < n) :
    ∃ i, 1 ≤ i ∧ i ≤ n ∧ (f + i) % n = device := by
  by_cases above : f < device
  · refine ⟨device - f, by omega, by omega, ?_⟩
    rw [Nat.add_sub_cancel' (Nat.le_of_lt above), Nat.mod_eq_of_lt bound]
  · refine ⟨device + n - f, by omega, by omega, ?_⟩
    rw [Nat.add_sub_cancel' (show f ≤ device + n by omega), Nat.add_mod_right,
      Nat.mod_eq_of_lt bound]

theorem back_at {n f x : Nat} (first : f < n) (forward : 0 < x) (back : (f + x) % n = f) :
    n ≤ x := by
  by_contra short
  by_cases around : f + x < n
  · rw [Nat.mod_eq_of_lt around] at back
    omega
  · rw [Nat.mod_eq_sub_mod (by omega), Nat.mod_eq_of_lt (by omega)] at back
    omega

/-- The devices up to `s` steps behind the first failed one have been tried, and `count` more are
tried, while the ring moves on by `k + 1` steps. -/
theorem covers_after {n f s count k : Nat} {tried : List Nat} (first : f < n)
    (covered : ∀ i, 1 ≤ i → i ≤ s → (f + i) % n ∈ tried)
    (moves : k + 1 = count ∨ (k = n ∧ count = n)) :
    let devices := tried ++ (List.range count).map fun j => (f + (s + 1 + j)) % n
    ((∃ j ≤ k, (f + (s + 1 + j)) % n = f) → ∀ device < n, device ∈ devices) ∧
      (s < n → (¬∃ j ≤ k, (f + (s + 1 + j)) % n = f) →
        s + 1 + k < n ∧ ∀ i, 1 ≤ i → i ≤ s + 1 + k → (f + i) % n ∈ devices) := by
  intro devices
  have later : ∀ j < count, (f + (s + 1 + j)) % n ∈ devices := by
    intro j bound
    exact List.mem_append_right _ (List.mem_map.mpr ⟨j, List.mem_range.mpr bound, rfl⟩)
  constructor
  · rintro ⟨j, step, back⟩ device bound
    have whole := back_at first (by omega) back
    rcases ring_offset f first bound with ⟨i, positive, most, rfl⟩
    by_cases near : i ≤ s
    · exact List.mem_append_left _ (covered i positive near)
    · have place : s + 1 + (i - s - 1) = i := by omega
      rw [← place]
      exact later (i - s - 1) (by omega)
  · intro small never
    have short : s + 1 + k < n := by
      by_contra long
      apply never
      refine ⟨n - s - 1, by omega, ?_⟩
      have place : s + 1 + (n - s - 1) = n := by omega
      rw [place, Nat.add_mod_right, Nat.mod_eq_of_lt first]
    refine ⟨short, fun i positive most => ?_⟩
    by_cases near : i ≤ s
    · exact List.mem_append_left _ (covered i positive near)
    · have place : s + 1 + (i - s - 1) = i := by omega
      rw [← place]
      exact later (i - s - 1) (by omega)

section Moves

variable (cfg : NetConfig) (comesUp : Nat → Nat → Bool)

/-- eth_try_another (0), several times. -/
def advanced : Nat → LoopState → LoopState
  | 0, loop => loop
  | k + 1, loop => advanced k (ethTryAnother cfg loop false)

variable {cfg}

theorem try_another_spec (registered : cfg.ethDevices ≠ 0) (loop : LoopState) :
    ethTryAnother cfg loop false = { loop with
      ethCurrent := (loop.ethCurrent + 1) % cfg.ethDevices
      netRestartWrap := loop.netRestartWrap ||
        loop.firstFailed == some ((loop.ethCurrent + 1) % cfg.ethDevices) } := by
  unfold ethTryAnother
  rw [if_neg registered]
  rfl

theorem advanced_spec (registered : cfg.ethDevices ≠ 0) (loop : LoopState)
    (current : loop.ethCurrent < cfg.ethDevices) (k : Nat) :
    ∃ wrap, advanced cfg k loop = { loop with
        ethCurrent := (loop.ethCurrent + k) % cfg.ethDevices
        netRestartWrap := wrap } ∧
      (wrap = true ↔ loop.netRestartWrap = true ∨
        ∃ j < k, loop.firstFailed = some ((loop.ethCurrent + (1 + j)) % cfg.ethDevices)) := by
  induction k generalizing loop with
  | zero =>
      refine ⟨loop.netRestartWrap, ?_, by simp⟩
      rw [Nat.add_zero, Nat.mod_eq_of_lt current]
      rfl
  | succ k induction =>
      have step := try_another_spec registered loop
      have positive : 0 < cfg.ethDevices := Nat.pos_of_ne_zero registered
      rcases induction (ethTryAnother cfg loop false) (by
        rw [step]
        exact Nat.mod_lt _ positive) with ⟨wrap, after, iff⟩
      refine ⟨wrap, ?_, ?_⟩
      · rw [advanced, after, step]
        have place : (loop.ethCurrent + 1 + k) = loop.ethCurrent + (k + 1) := by omega
        simp only [Nat.mod_add_mod, place]
      · rw [iff, step]
        simp only [Nat.mod_add_mod, Bool.or_eq_true, beq_iff_eq]
        constructor
        · rintro ((before | now) | ⟨j, bound, later⟩)
          · exact Or.inl before
          · exact Or.inr ⟨0, by omega, now⟩
          · refine Or.inr ⟨j + 1, by omega, ?_⟩
            rw [later]
            congr 2
            omega
        · rintro (before | ⟨j, bound, hit⟩)
          · exact Or.inl (Or.inl before)
          · cases j with
            | zero => exact Or.inl (Or.inr hit)
            | succ j =>
                refine Or.inr ⟨j, by omega, ?_⟩
                rw [hit]
                congr 2
                omega

variable {comesUp}

/-- eth_init tries the devices from the current one on, up to the first that comes up, or all. -/
theorem init_from (registered : cfg.ethDevices ≠ 0) {oldCurrent : Nat}
    (old : oldCurrent < cfg.ethDevices) (bound i : Nat) (ring : Ring)
    (whole : i + bound = cfg.ethDevices) (more : 0 < bound)
    (here : ring.loop.ethCurrent = (oldCurrent + i) % cfg.ethDevices) :
    ∃ count k, 1 ≤ count ∧ count ≤ bound ∧
      ((k + 1 = count ∧
          comesUp ((ring.loop.ethCurrent + k) % cfg.ethDevices) (ring.calls + k) = true) ∨
        (k = bound ∧ count = bound)) ∧
      initFrom cfg comesUp oldCurrent bound ring = { ring with
        loop := advanced cfg k ring.loop
        calls := ring.calls + count
        log := ring.log ++ ((List.range count).map fun j =>
          (ring.loop.ethCurrent + j) % cfg.ethDevices).map Entry.init } := by
  have positive : 0 < cfg.ethDevices := Nat.pos_of_ne_zero registered
  have current : ring.loop.ethCurrent < cfg.ethDevices := by
    rw [here]
    exact Nat.mod_lt _ positive
  have itself : (ring.loop.ethCurrent + 0) % cfg.ethDevices = ring.loop.ethCurrent :=
    Nat.mod_eq_of_lt current
  induction bound generalizing i ring with
  | zero => omega
  | succ bound induction =>
      unfold initFrom
      dsimp only
      by_cases up : comesUp ring.loop.ethCurrent ring.calls = true
      · rw [if_pos up]
        refine ⟨1, 0, by omega, by omega, Or.inl ⟨rfl, ?_⟩, ?_⟩
        · rw [itself]
          exact up
        · simp [advanced, Nat.mod_eq_of_lt current]
      · rw [if_neg up]
        have next : (ethTryAnother cfg ring.loop false).ethCurrent =
            (oldCurrent + (i + 1)) % cfg.ethDevices := by
          rw [try_another_spec registered, ← Nat.add_assoc]
          dsimp only
          rw [here, Nat.mod_add_mod]
        by_cases last : bound = 0
        · subst last
          have back : (oldCurrent + (i + 1)) % cfg.ethDevices = oldCurrent := by
            rw [show i + 1 = cfg.ethDevices by omega, Nat.add_mod_right, Nat.mod_eq_of_lt old]
          rw [if_neg (by rw [next, back]; simp)]
          refine ⟨1, 1, by omega, by omega, Or.inr ⟨rfl, rfl⟩, ?_⟩
          simp [advanced, Nat.mod_eq_of_lt current]
        · have away : oldCurrent ≠ (ethTryAnother cfg ring.loop false).ethCurrent := by
            intro same
            rw [next] at same
            have := back_at old (show 0 < i + 1 by omega) same.symm
            omega
          rw [if_pos away]
          have current' : (ethTryAnother cfg ring.loop false).ethCurrent < cfg.ethDevices := by
            rw [next]
            exact Nat.mod_lt _ positive
          have forward : ∀ j, ((ethTryAnother cfg ring.loop false).ethCurrent + j) %
              cfg.ethDevices = (ring.loop.ethCurrent + (j + 1)) % cfg.ethDevices := by
            intro j
            rw [try_another_spec registered]
            dsimp only
            rw [Nat.mod_add_mod, Nat.add_assoc, Nat.add_comm 1 j]
          rcases induction (i + 1) { ring with
              loop := ethTryAnother cfg ring.loop false
              calls := ring.calls + 1
              log := ring.log ++ [.init ring.loop.ethCurrent] } (by omega) (by omega) next current'
              (Nat.mod_eq_of_lt current') with ⟨count, k, least, most, ending, after⟩
          refine ⟨count + 1, k + 1, by omega, by omega, ?_, ?_⟩
          · rcases ending with ⟨same, comes⟩ | ⟨kept, all⟩
            · refine Or.inl ⟨by omega, ?_⟩
              rw [← forward k, Nat.add_comm k 1, ← Nat.add_assoc]
              exact comes
            · exact Or.inr ⟨by omega, by omega⟩
          · rw [after]
            have devices : (List.range (count + 1)).map
                  (fun j => (ring.loop.ethCurrent + j) % cfg.ethDevices) =
                ring.loop.ethCurrent :: (List.range count).map fun j =>
                  ((ethTryAnother cfg ring.loop false).ethCurrent + j) % cfg.ethDevices := by
              rw [List.range_succ_eq_map, List.map_cons, itself, List.map_map]
              congr 1
              apply List.map_congr_left
              intro j _
              exact (forward j).symm
            rw [devices]
            simp only [advanced, List.map_cons, List.append_assoc, List.cons_append, List.nil_append,
              Nat.add_assoc, Nat.add_comm 1 count]

theorem init_spec (registered : cfg.ethDevices ≠ 0) (ring : Ring)
    (current : ring.loop.ethCurrent < cfg.ethDevices) :
    ∃ count k, 1 ≤ count ∧ count ≤ cfg.ethDevices ∧
      ((k + 1 = count ∧
          comesUp ((ring.loop.ethCurrent + k) % cfg.ethDevices) (ring.calls + k) = true) ∨
        (k = cfg.ethDevices ∧ count = cfg.ethDevices)) ∧
      ethInit cfg comesUp ring = { ring with
        loop := advanced cfg k ring.loop
        calls := ring.calls + count
        log := ring.log ++ ((List.range count).map fun j =>
          (ring.loop.ethCurrent + j) % cfg.ethDevices).map Entry.init } := by
  unfold ethInit
  rw [if_neg registered]
  exact init_from registered current cfg.ethDevices 0 ring (Nat.zero_add _)
    (Nat.pos_of_ne_zero registered) (Nat.mod_eq_of_lt current).symm

end Moves

/-! ### The law of a run -/

/-- All devices have been tried, or those from the first failed one on up to the current one. -/
def Covered (ethDevices : Nat) (loop : LoopState) (tried : List Nat) : Prop :=
  (∀ device < ethDevices, device ∈ tried) ∨
    ∃ f s, loop.firstFailed = some f ∧ f < ethDevices ∧ s < ethDevices ∧
      loop.ethCurrent = (f + s) % ethDevices ∧
      ∀ i, 1 ≤ i → i ≤ s → (f + i) % ethDevices ∈ tried

structure Inv (ethDevices : Nat) (ring : Ring) : Prop where
  thorough : Thorough ethDevices ring.log
  current : ethDevices ≠ 0 → ring.loop.ethCurrent < ethDevices
  covered : ∀ tried, triedSince ring.log = some tried →
    ring.loop.netRestartWrap = false ∧ Covered ethDevices ring.loop tried

/-- The first NetStartAgain of a NetLoop finds NetRestartWrap clear and sets first_failed to the
current device (or finds it so), unless no other device comes up. -/
def Fresh (ethDevices : Nat) (comesUp : Nat → Nat → Bool) (ring : Ring) : Prop :=
  triedSince ring.log ≠ none ∨
    (ring.loop.netRestartWrap = false ∧
      (ring.loop.netRestarted = true → ring.loop.firstFailed = some ring.loop.ethCurrent)) ∨
    ∀ k < ethDevices - 1,
      comesUp ((ring.loop.ethCurrent + (1 + k)) % ethDevices) (ring.calls + k) = false

instance (ethDevices : Nat) (comesUp : Nat → Nat → Bool) (ring : Ring) :
    Decidable (Fresh ethDevices comesUp ring) := by
  unfold Fresh
  infer_instance

section Laws

variable {cfg : NetConfig} {comesUp : Nat → Nat → Bool} {ring : Ring}

/-- first_failed behind the switch to another device. -/
def firstFailedOf (loop : LoopState) : Option Nat :=
  if loop.netRestarted then loop.firstFailed else some loop.ethCurrent

theorem up_spec (registered : cfg.ethDevices ≠ 0) (comesUp : Nat → Nat → Bool)
    (current : ring.loop.ethCurrent < cfg.ethDevices) :
    ∃ count k wrap, 1 ≤ count ∧
      ((k + 1 = count ∧ count ≤ cfg.ethDevices ∧
          comesUp ((ring.loop.ethCurrent + (1 + k)) % cfg.ethDevices) (ring.calls + k) = true) ∨
        (k = cfg.ethDevices ∧ count = cfg.ethDevices)) ∧
      ethInit cfg comesUp (movedOn cfg ring) = { ring with
        loop := { ring.loop with
          firstFailed := firstFailedOf ring.loop
          ethCurrent := (ring.loop.ethCurrent + (1 + k)) % cfg.ethDevices
          netRestartWrap := wrap }
        calls := ring.calls + count
        log := ring.log ++ [.startAgain] ++ ((List.range count).map fun j =>
          (ring.loop.ethCurrent + (1 + j)) % cfg.ethDevices).map Entry.init } ∧
      (wrap = true ↔ ring.loop.netRestartWrap = true ∨ ∃ j ≤ k,
        firstFailedOf ring.loop = some ((ring.loop.ethCurrent + (1 + j)) % cfg.ethDevices)) := by
  have positive : 0 < cfg.ethDevices := Nat.pos_of_ne_zero registered
  have moved : (movedOn cfg ring).loop = ethTryAnother cfg
      { ring.loop with firstFailed := firstFailedOf ring.loop } false := by
    unfold movedOn firstFailedOf ethTryAnother
    cases ring.loop.netRestarted <;> simp [registered]
  have next : (movedOn cfg ring).loop.ethCurrent =
      (ring.loop.ethCurrent + 1) % cfg.ethDevices := by
    rw [moved, try_another_spec registered]
  have forward : ∀ j, ((movedOn cfg ring).loop.ethCurrent + j) % cfg.ethDevices =
      (ring.loop.ethCurrent + (1 + j)) % cfg.ethDevices := by
    intro j
    rw [next, Nat.mod_add_mod, Nat.add_assoc]
  have bound : (movedOn cfg ring).loop.ethCurrent < cfg.ethDevices := by
    rw [next]
    exact Nat.mod_lt _ positive
  rcases @init_spec cfg comesUp registered (movedOn cfg ring) bound with
    ⟨count, k, least, most, ending, after⟩
  rcases advanced_spec registered { ring.loop with firstFailed := firstFailedOf ring.loop }
    current (k + 1) with ⟨wrap, there, wraps⟩
  have loop : advanced cfg k (movedOn cfg ring).loop =
      advanced cfg (k + 1) { ring.loop with firstFailed := firstFailedOf ring.loop } := by
    rw [moved]
    rfl
  refine ⟨count, k, wrap, least, ?_, ?_, ?_⟩
  · rw [forward] at ending
    rcases ending with ⟨same, comes⟩ | both
    · exact Or.inl ⟨same, most, comes⟩
    · exact Or.inr both
  · rw [after, loop, there]
    simp only [forward, Nat.add_comm 1 k]
    rfl
  · rw [wraps]
    simp only [Nat.lt_succ_iff]

/-- What has been tried before this NetStartAgain, seen from the first failed device. -/
theorem covered_before (current : ring.loop.ethCurrent < cfg.ethDevices)
    (inv : Inv cfg.ethDevices ring) (fresh : Fresh cfg.ethDevices comesUp ring) :
    (∀ k < cfg.ethDevices - 1,
        comesUp ((ring.loop.ethCurrent + (1 + k)) % cfg.ethDevices) (ring.calls + k) = false) ∨
      ring.loop.netRestartWrap = false ∧
        Covered cfg.ethDevices { ring.loop with firstFailed := firstFailedOf ring.loop }
          ((triedSince ring.log).getD []) := by
  have itself : firstFailedOf ring.loop = some ring.loop.ethCurrent →
      Covered cfg.ethDevices { ring.loop with firstFailed := firstFailedOf ring.loop }
        ((triedSince ring.log).getD []) := by
    intro same
    refine Or.inr ⟨ring.loop.ethCurrent, 0, same, current, by omega, ?_, ?_⟩
    · rw [Nat.add_zero, Nat.mod_eq_of_lt current]
    · intro i least most
      omega
  by_cases restarted : ring.loop.netRestarted = true
  · have kept : firstFailedOf ring.loop = ring.loop.firstFailed := if_pos restarted
    cases seen : triedSince ring.log with
    | some tried =>
        rcases inv.covered tried seen with ⟨clear, all | ⟨f, s, same, rest⟩⟩
        · exact Or.inr ⟨clear, Or.inl all⟩
        · exact Or.inr ⟨clear, Or.inr ⟨f, s, kept.trans same, rest⟩⟩
    | none =>
        rw [seen] at itself
        rcases fresh with again | ⟨clear, same⟩ | silent
        · exact absurd seen again
        · exact Or.inr ⟨clear, itself (kept.trans (same restarted))⟩
        · exact Or.inl silent
  · have same : firstFailedOf ring.loop = some ring.loop.ethCurrent := if_neg restarted
    rcases fresh with again | ⟨clear, _⟩ | silent
    · rcases Option.ne_none_iff_exists'.mp again with ⟨tried, seen⟩
      exact Or.inr ⟨(inv.covered tried seen).1, itself same⟩
    · exact Or.inr ⟨clear, itself same⟩
    · exact Or.inl silent

/-- The devices that one NetStartAgain tries, with those tried before. -/
theorem again_covers (registered : cfg.ethDevices ≠ 0) (inv : Inv cfg.ethDevices ring)
    (fresh : Fresh cfg.ethDevices comesUp ring) :
    ∃ devices, (ethInit cfg comesUp (movedOn cfg ring)).log =
        ring.log ++ [.startAgain] ++ devices.map Entry.init ∧
      (ethInit cfg comesUp (movedOn cfg ring)).loop.ethCurrent < cfg.ethDevices ∧
      ((ethInit cfg comesUp (movedOn cfg ring)).loop.netRestartWrap = true →
        ∀ device < cfg.ethDevices, device ∈ (triedSince ring.log).getD [] ++ devices) ∧
      ((ethInit cfg comesUp (movedOn cfg ring)).loop.netRestartWrap = false →
        Covered cfg.ethDevices (ethInit cfg comesUp (movedOn cfg ring)).loop
          ((triedSince ring.log).getD [] ++ devices)) := by
  have positive : 0 < cfg.ethDevices := Nat.pos_of_ne_zero registered
  have current := inv.current registered
  rcases up_spec registered comesUp current with ⟨count, k, wrap, least, ending, after, wraps⟩
  rw [after]
  refine ⟨_, rfl, Nat.mod_lt _ positive, ?_⟩
  dsimp only
  rcases covered_before (inv.current registered) inv fresh with
    silent | ⟨clear, all | ⟨f, s, failed, first, small, place, covered⟩⟩
  · -- no other device came up: all have been tried now
    have whole : count = cfg.ethDevices := by
      rcases ending with ⟨same, most, comes⟩ | ⟨_, all⟩
      · by_contra fewer
        rw [silent k (by omega)] at comes
        cases comes
      · exact all
    have everyone : ∀ device < cfg.ethDevices, device ∈ (triedSince ring.log).getD [] ++
        (List.range count).map fun j => (ring.loop.ethCurrent + (1 + j)) % cfg.ethDevices := by
      intro device bound
      rcases ring_offset ring.loop.ethCurrent current bound with ⟨i, positive, most, rfl⟩
      apply List.mem_append_right
      refine List.mem_map.mpr ⟨i - 1, List.mem_range.mpr (by omega), ?_⟩
      rw [Nat.add_sub_cancel' positive]
    exact ⟨fun _ => everyone, fun _ => Or.inl everyone⟩
  · have everyone : ∀ device < cfg.ethDevices, device ∈ (triedSince ring.log).getD [] ++
        (List.range count).map fun j => (ring.loop.ethCurrent + (1 + j)) % cfg.ethDevices :=
      fun device bound => List.mem_append_left _ (all device bound)
    exact ⟨fun _ => everyone, fun _ => Or.inl everyone⟩
  · dsimp only at failed place
    have forward : ∀ j, (ring.loop.ethCurrent + (1 + j)) % cfg.ethDevices =
        (f + (s + 1 + j)) % cfg.ethDevices := by
      intro j
      rw [place, Nat.mod_add_mod]
      congr 1
      omega
    have moves : k + 1 = count ∨ (k = cfg.ethDevices ∧ count = cfg.ethDevices) := by
      rcases ending with ⟨same, _⟩ | both
      · exact Or.inl same
      · exact Or.inr both
    have passed : wrap = true ↔ ∃ j ≤ k, (f + (s + 1 + j)) % cfg.ethDevices = f := by
      rw [wraps, clear, failed]
      simp only [forward, Bool.false_eq_true, false_or, Option.some.injEq]
      exact exists_congr fun j => and_congr_right fun _ => eq_comm
    simp only [forward]
    rcases covers_after first covered moves with ⟨whole, part⟩
    constructor
    · intro wrapped
      exact whole (passed.mp wrapped)
    · intro open_
      have never : ¬∃ j ≤ k, (f + (s + 1 + j)) % cfg.ethDevices = f := by
        intro back
        rw [passed.mpr back] at open_
        cases open_
      rcases part small never with ⟨short, more⟩
      exact Or.inr ⟨f, s + 1 + k, failed, first, short, rfl, more⟩

/-- NetStartAgain keeps the law, and gives up only when all devices have been tried. -/
theorem start_again_inv (inv : Inv cfg.ethDevices ring)
    (fresh : cfg.fwRecovery = 0 → cfg.netretry ≠ some (ascii "no") →
      Fresh cfg.ethDevices comesUp ring) :
    Inv cfg.ethDevices (netStartAgain cfg comesUp ring) := by
  unfold netStartAgain
  by_cases recovery : cfg.fwRecovery ≠ 0
  · rw [if_pos recovery]
    exact inv
  · rw [if_neg recovery]
    by_cases never : cfg.netretry = some (ascii "no")
    · rw [if_pos never]
      exact ⟨inv.thorough, inv.current, inv.covered⟩
    · rw [if_neg never]
      obtain ⟨devices, log, current, whole, part⟩ : ∃ devices,
          (ethInit cfg comesUp (movedOn cfg ring)).log =
            ring.log ++ [.startAgain] ++ devices.map Entry.init ∧
          (cfg.ethDevices ≠ 0 →
            (ethInit cfg comesUp (movedOn cfg ring)).loop.ethCurrent < cfg.ethDevices) ∧
          ((ethInit cfg comesUp (movedOn cfg ring)).loop.netRestartWrap = true →
            ∀ device < cfg.ethDevices, device ∈ (triedSince ring.log).getD [] ++ devices) ∧
          ((ethInit cfg comesUp (movedOn cfg ring)).loop.netRestartWrap = false →
            Covered cfg.ethDevices (ethInit cfg comesUp (movedOn cfg ring)).loop
              ((triedSince ring.log).getD [] ++ devices)) := by
        by_cases registered : cfg.ethDevices = 0
        · have none : ∀ device < cfg.ethDevices,
              device ∈ (triedSince ring.log).getD [] ++ [] := by
            intro device bound
            omega
          refine ⟨[], ?_, fun some => absurd registered some, fun _ => none,
            fun _ => Or.inl none⟩
          unfold ethInit
          rw [if_pos registered]
          simp [movedOn]
        · rcases again_covers registered inv (fresh (by omega) never) with
            ⟨devices, log, current, rest⟩
          exact ⟨devices, log, fun _ => current, rest⟩
      have tried : triedSince (ethInit cfg comesUp (movedOn cfg ring)).log =
          some ((triedSince ring.log).getD [] ++ devices) := by
        rw [log, tried_append, watch_inits, tried_append]
        rfl
      have thorough : Thorough cfg.ethDevices (ethInit cfg comesUp (movedOn cfg ring)).log := by
        rw [log]
        exact thorough_inits (thorough_snoc inv.thorough .startAgain fun other => by cases other) _
      by_cases wrapped : (ethInit cfg comesUp (movedOn cfg ring)).loop.netRestartWrap = true
      · have all := whole wrapped
        rw [if_pos wrapped]
        refine ⟨thorough_snoc thorough .givesUp fun _ => ⟨_, tried, all⟩, ?_, ?_⟩
        · intro registered
          dsimp only
          split <;> exact current registered
        · intro list same
          dsimp only at same
          rw [tried_append, tried] at same
          cases same
          dsimp only
          refine ⟨?_, Or.inl all⟩
          split <;> rfl
      · rw [if_neg wrapped]
        have clear := Bool.eq_false_iff.mpr wrapped
        refine ⟨thorough, current, ?_⟩
        intro list same
        dsimp only at same
        rw [tried] at same
        cases same
        exact ⟨clear, part clear⟩

/-- Where the next device comes up at once, the ring does what a single transfer sees of it. -/
theorem start_again_refines (registered : cfg.ethDevices ≠ 0)
    (up : comesUp ((ring.loop.ethCurrent + 1) % cfg.ethDevices) ring.calls = true) :
    (netStartAgain cfg comesUp ring).loop = Tftp.netStartAgain cfg ring.loop := by
  have next : (movedOn cfg ring).loop.ethCurrent =
      (ring.loop.ethCurrent + 1) % cfg.ethDevices := by
    unfold movedOn ethTryAnother
    rw [if_neg registered]
  have init : (ethInit cfg comesUp (movedOn cfg ring)).loop = (movedOn cfg ring).loop := by
    unfold ethInit
    rw [if_neg registered]
    rcases Nat.exists_eq_succ_of_ne_zero registered with ⟨bound, more⟩
    have calls : (movedOn cfg ring).calls = ring.calls := rfl
    rw [more, initFrom]
    dsimp only
    rw [next, calls, if_pos up]
  unfold netStartAgain Tftp.netStartAgain
  by_cases recovery : cfg.fwRecovery ≠ 0
  · rw [if_pos recovery, if_pos recovery]
  · rw [if_neg recovery, if_neg recovery]
    by_cases never : cfg.netretry = some (ascii "no")
    · rw [if_pos never, if_pos never]
    · rw [if_neg never, if_neg never]
      dsimp only
      rw [init]
      have moved : (movedOn cfg ring).loop =
          ethTryAnother cfg ring.loop (!ring.loop.netRestarted) := rfl
      rw [moved]
      split
      · split <;> rfl
      · rfl

end Laws

section Steps

variable {ethDevices : Nat} {names : Nat → List UInt8} {comesUp : Nat → Nat → Bool} {ring : Ring}

theorem set_current_bound {loop : LoopState} (act : List UInt8)
    (current : loop.ethCurrent < ethDevices) :
    (ethSetCurrent (configured ethDevices 0 none) names act loop).ethCurrent < ethDevices := by
  unfold ethSetCurrent
  dsimp only
  cases found : ((List.range (configured ethDevices 0 none).ethDevices).map fun k =>
      (loop.ethCurrent + k) % (configured ethDevices 0 none).ethDevices).find?
      fun device => names device == act with
  | none => exact current
  | some device =>
      rcases List.mem_map.mp (List.mem_of_find?_eq_some found) with ⟨k, _, rfl⟩
      exact Nat.mod_lt _ (Nat.zero_lt_of_lt current)

/-- A new NetLoop tries its devices before the first NetStartAgain. -/
theorem init_inv {cfg : NetConfig} (thorough : Thorough cfg.ethDevices ring.log)
    (current : cfg.ethDevices ≠ 0 → ring.loop.ethCurrent < cfg.ethDevices)
    (none : triedSince ring.log = none) : Inv cfg.ethDevices (ethInit cfg comesUp ring) := by
  by_cases registered : cfg.ethDevices = 0
  · unfold ethInit
    rw [if_pos registered]
    refine ⟨thorough, current, ?_⟩
    intro tried same
    rw [none] at same
    cases same
  · rcases @init_spec cfg comesUp registered ring (current registered) with
      ⟨count, k, _, _, _, after⟩
    rcases advanced_spec registered ring.loop (current registered) k with ⟨wrap, there, _⟩
    rw [after, there]
    refine ⟨thorough_inits thorough _, fun _ => Nat.mod_lt _ (Nat.pos_of_ne_zero registered), ?_⟩
    intro tried same
    dsimp only at same
    rw [tried_append, none, watch_inits] at same
    cases same

/-- A step that leaves the log and the variables of eth.c alone. -/
theorem inv_congr {after : Ring} (inv : Inv ethDevices ring) (log : after.log = ring.log)
    (current : after.loop.ethCurrent = ring.loop.ethCurrent)
    (failed : after.loop.firstFailed = ring.loop.firstFailed)
    (wrap : after.loop.netRestartWrap = ring.loop.netRestartWrap) : Inv ethDevices after := by
  constructor
  · rw [log]
    exact inv.thorough
  · rw [current]
    exact inv.current
  · unfold Covered
    rw [log, current, failed, wrap]
    exact inv.covered

theorem net_loop_inv (inv : Inv ethDevices ring) (act : List UInt8) :
    Inv ethDevices (ringStep ethDevices names comesUp ring (.netLoop act)) := by
  unfold ringStep
  dsimp only
  split
  · have entered := thorough_snoc inv.thorough .netLoop fun other => by cases other
    have none : triedSince (ring.log ++ [.netLoop]) = none := by
      rw [tried_append]
      rfl
    have tried : Inv ethDevices (ethInit (configured ethDevices 0 Option.none) comesUp { ring with
        loop := ethSetCurrent (configured ethDevices 0 Option.none) names act
          { ring.loop with netRestarted := false, netDevExists := false }
        log := ring.log ++ [.netLoop] }) :=
      @init_inv comesUp _ (configured ethDevices 0 Option.none) entered (fun registered => set_current_bound act (inv.current registered)) none
    exact inv_congr tried rfl rfl rfl rfl
  · exact inv

/-- NetStartAgain is fresh whenever it switches to another device. -/
def Admitted (ethDevices : Nat) (comesUp : Nat → Nat → Bool) (ring : Ring) : RingEvent → Prop
  | .startAgain fwRecovery netretry =>
      ring.phase = .running → fwRecovery = 0 → netretry ≠ some (ascii "no") →
        Fresh ethDevices comesUp ring
  | .noDevice fwRecovery netretry =>
      ring.phase = .starting → fwRecovery = 0 → netretry ≠ some (ascii "no") →
        Fresh ethDevices comesUp ring
  | _ => True

theorem step_inv (inv : Inv ethDevices ring) (event : RingEvent)
    (admitted : Admitted ethDevices comesUp ring event) :
    Inv ethDevices (ringStep ethDevices names comesUp ring event) := by
  cases event with
  | netLoop act => exact net_loop_inv inv act
  | startAgain fwRecovery netretry =>
      by_cases running : ring.phase = .running
      · have taken : ringStep ethDevices names comesUp ring (.startAgain fwRecovery netretry) =
            netStartAgain (configured ethDevices fwRecovery netretry) comesUp ring := if_pos running
        rw [taken]
        exact @start_again_inv (configured ethDevices fwRecovery netretry) comesUp ring inv
          (admitted running)
      · have kept : ringStep ethDevices names comesUp ring (.startAgain fwRecovery netretry) =
            ring := if_neg running
        rw [kept]
        exact inv
  | noDevice fwRecovery netretry =>
      by_cases starting : ring.phase = .starting
      · have restarted : Inv ethDevices { ring with
            phase := .running
            loop := { ring.loop with netState := .continue } } := inv_congr inv rfl rfl rfl rfl
        have taken : ringStep ethDevices names comesUp ring (.noDevice fwRecovery netretry) =
            netStartAgain (configured ethDevices fwRecovery netretry) comesUp { ring with
              phase := .running
              loop := { ring.loop with netState := .continue } } := if_pos starting
        rw [taken]
        exact @start_again_inv (configured ethDevices fwRecovery netretry) comesUp _ restarted
          (admitted starting)
      · have kept : ringStep ethDevices names comesUp ring (.noDevice fwRecovery netretry) =
            ring := if_neg starting
        rw [kept]
        exact inv
  | unconfigured =>
      unfold ringStep
      dsimp only
      split <;> exact inv_congr inv rfl rfl rfl rfl
  | ready ownTimer =>
      unfold ringStep
      dsimp only
      split <;> exact inv_congr inv rfl rfl rfl rfl
  | protocol netState ownTimer =>
      unfold ringStep
      dsimp only
      split <;> exact inv_congr inv rfl rfl rfl rfl
  | startAgainTimeout =>
      unfold ringStep
      dsimp only
      split <;> exact inv_congr inv rfl rfl rfl rfl
  | turn =>
      unfold ringStep
      dsimp only
      split
      · split <;> exact inv_congr inv rfl rfl rfl rfl
      · exact inv
  | abort =>
      unfold ringStep
      dsimp only
      split <;> exact inv_congr inv rfl rfl rfl rfl

end Steps

/-- Before the first command. -/
def powerOn (current : Nat) : Ring where
  phase := .idle
  loop :=
    { netState := .continue
      packetHandler := .tftpHandler
      timeHandler := none
      netRestartWrap := false
      netRestarted := false
      netDevExists := false
      ethCurrent := current
      firstFailed := none }
  calls := 0
  log := []

/-- A run in which every first NetStartAgain of a NetLoop is fresh gives up only after all devices
have been tried. -/
theorem gives_up_thorough (ethDevices : Nat) (names : Nat → List UInt8)
    (comesUp : Nat → Nat → Bool) {current : Nat} (known : ethDevices ≠ 0 → current < ethDevices)
    {events : List RingEvent} {after : Ring}
    (run : Run (Guarded (Admitted ethDevices comesUp) (stepOf (ringStep ethDevices names comesUp)))
      (powerOn current) events after) :
    Thorough ethDevices after.log := by
  have start : Inv ethDevices (powerOn current) := by
    refine ⟨?_, known, ?_⟩
    · intro before rest split
      have short := congrArg List.length split
      simp [powerOn] at short
    · intro tried same
      cases same
  refine (run_preserves _ (Inv ethDevices) ?_ run start).thorough
  rintro before event next inv ⟨admitted, rfl⟩
  exact step_inv inv event admitted

/-- "eth0", "eth1" and so on. -/
def ethName (device : Nat) : List UInt8 := [101, 116, 104, 48 + device.toUInt8]

/-- A command that restarts once, and then a second one. -/
def twoCommands : List RingEvent :=
  [.netLoop (ethName 0), .ready true, .startAgain 0 none, .turn, .ready true,
    .protocol (some true) false, .turn, .netLoop (ethName 0), .ready true, .startAgain 0 none]

instance (comesUp : Nat → Nat → Bool) (ring : Ring) (event : RingEvent) :
    Decidable (Admitted 3 comesUp ring event) := by
  unfold Admitted
  cases event <;> infer_instance

theorem two_commands_thorough :
    Thorough 3 (twoCommands.foldl (ringStep 3 ethName fun _ _ => true) (powerOn 1)).log :=
  gives_up_thorough 3 ethName (fun _ _ => true) (by decide)
    (run_passes (Admitted 3 fun _ _ => true) _ (by decide +kernel))

/-- No device comes up when the second command starts; then the second device does, and
NetStartAgain gives up although it has tried no other. -/
theorem stale_wrap_gives_up :
    ¬Thorough 3 (twoCommands.foldl
      (ringStep 3 ethName fun _ call => decide (call < 2 ∨ 4 < call)) (powerOn 0)).log := by
  intro thorough
  rcases thorough [.netLoop, .init 0, .startAgain, .init 1, .netLoop, .init 0, .init 1, .init 2,
      .startAgain, .init 1] [] (by decide +kernel) with ⟨tried, since, all⟩
  have same : tried = [1] := Option.some.inj (since.symm.trans (by decide +kernel))
  have missing := all 0 (by decide)
  rw [same] at missing
  exact absurd missing (by decide)

end UBoot.Net.EthRing
