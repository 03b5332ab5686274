import UBoot.Net.EthRing

/-!
The calls of the drivers' operations over many calls of NetLoop. eth_init answers
1 when a device has come up and 0 when none has, NetLoop tests the answer for a
negative number, and NetStartAgain does not look at it.
-/

namespace UBoot.Net.DeviceStart

open Library.Runs Lib.Strings Tftp EthRing

/-- A call of an operation of a driver, or the start of a protocol with the current device. -/
inductive Act where
  | init (device : Nat) (up : Bool)
  | halt (device : Nat)
  | start (device : Option Nat)
  | send (device : Nat)
  | recv (device : Nat)
  deriving DecidableEq

section Drivers

variable (cfg : NetConfig) (comesUp : Nat → Nat → Bool)

/-- The loop of eth_init: its calls, and what it answers. -/
def initCalls (oldCurrent : Nat) : Nat → Ring → List Act × Int
  | 0, _ => ([], 0)
  | bound + 1, ring =>
      let device := ring.loop.ethCurrent
      if comesUp device ring.calls then ([.init device true], 1)
      else
        let moved := { ring with
          calls := ring.calls + 1
          log := ring.log ++ [.init device]
          loop := ethTryAnother cfg ring.loop false }
        if oldCurrent ≠ moved.loop.ethCurrent then
          (.init device false :: (initCalls oldCurrent bound moved).1,
            (initCalls oldCurrent bound moved).2)
        else ([.init device false], 0)

def ethInitCalls (ring : Ring) : List Act × Int :=
  if cfg.ethDevices = 0 then ([], 0)
  else initCalls cfg comesUp ring.loop.ethCurrent cfg.ethDevices ring

def ethHaltCalls (ring : Ring) : List Act :=
  if cfg.ethDevices = 0 then [] else [.halt ring.loop.ethCurrent]

/-- The calls of NetStartAgain, which drops the answer of eth_init. -/
def startAgainCalls (ring : Ring) : List Act :=
  if cfg.fwRecovery ≠ 0 then []
  else if cfg.netretry = some (ascii "no") then ethHaltCalls cfg ring
  else ethHaltCalls cfg ring ++ (ethInitCalls cfg comesUp (movedOn cfg ring)).1

end Drivers

/-- The ring with the calls of the drivers. -/
structure Link where
  ring : Ring
  acts : List Act
  /-- What eth_init answered at the beginning of the last NetLoop. -/
  initAnswer : Int
  /-- The last NetLoop returned -1. -/
  failed : Bool
  /-- NetStartAgain has halted the device, as netretry is "no". -/
  gaveUp : Bool

/-- eth_send and eth_rx of any handler, besides what happens to the ring. -/
inductive LinkEvent where
  | ring (event : RingEvent)
  | send
  | receive

section Steps

variable (ethDevices : Nat) (names : Nat → List UInt8) (comesUp : Nat → Nat → Bool)

/-- NetLoop as it comes to eth_init. -/
def entered (act : List UInt8) (ring : Ring) : Ring :=
  { ring with
    loop := ethSetCurrent (configured ethDevices 0 none) names act
      { ring.loop with netRestarted := false, netDevExists := false }
    log := ring.log ++ [.netLoop] }

/-- NetLoop as it calls NetStartAgain before its reception loop. -/
def restarted (ring : Ring) : Ring :=
  { ring with phase := .running, loop := { ring.loop with netState := .continue } }

def currentDevice (ring : Ring) : Option Nat :=
  if ethDevices = 0 then none else some ring.loop.ethCurrent

/-- Whether NetStartAgain leaves the device halted. -/
def givesUp (fwRecovery : Nat) (netretry : Option (List UInt8)) (before : Bool) : Bool :=
  if fwRecovery ≠ 0 then before else netretry == some (ascii "no")

def haltActs (ring : Ring) : List Act := ethHaltCalls (configured ethDevices 0 none) ring

/-- An event that can happen in the phase. -/
def linkMove (link : Link) (event : RingEvent) : Link :=
  let ring := ringStep ethDevices names comesUp link.ring event
  let halted := link.acts ++ haltActs ethDevices link.ring
  match event with
  | .netLoop act =>
      let tried := ethInitCalls (configured ethDevices 0 none) comesUp
        (entered ethDevices names act link.ring)
      if tried.2 < 0 then
        { ring := { ring with phase := .idle }
          acts := halted ++ tried.1 ++ haltActs ethDevices ring
          initAnswer := tried.2
          failed := true
          gaveUp := false }
      else ⟨ring, halted ++ tried.1, tried.2, false, false⟩
  | .unconfigured => { link with ring := ring, acts := halted, failed := true }
  | .noDevice fwRecovery netretry =>
      { link with
        ring := ring
        acts := link.acts ++ startAgainCalls (configured ethDevices fwRecovery netretry) comesUp
          (restarted link.ring)
        gaveUp := givesUp fwRecovery netretry link.gaveUp }
  | .ready _ =>
      { link with ring := ring, acts := link.acts ++ [.start (currentDevice ethDevices link.ring)] }
  | .startAgain fwRecovery netretry =>
      { link with
        ring := ring
        acts := link.acts ++ startAgainCalls (configured ethDevices fwRecovery netretry) comesUp
          link.ring
        gaveUp := givesUp fwRecovery netretry link.gaveUp }
  | .turn =>
      match link.ring.loop.netState with
      | .success => { link with ring := ring, acts := halted, failed := false }
      | .fail => { link with ring := ring, failed := true }
      | _ => { link with ring := ring }
  | .abort => { link with ring := ring, acts := halted, failed := true }
  | .protocol _ _ => { link with ring := ring }
  | .startAgainTimeout => { link with ring := ring }

/-- The phase in which an event happens. -/
def phaseOf : RingEvent → Phase
  | .netLoop _ => .idle
  | .unconfigured => .starting
  | .noDevice _ _ => .starting
  | .ready _ => .starting
  | _ => .running

/-- A call through eth_current. -/
def useDevice (link : Link) (act : Nat → Act) : Link :=
  match currentDevice ethDevices link.ring with
  | none => link
  | some device => { link with acts := link.acts ++ [act device] }

def linkStep (link : Link) : LinkEvent → Link
  | .ring event =>
      if link.ring.phase = phaseOf event then linkMove ethDevices names comesUp link event else link
  | .send => if link.ring.phase = .running then useDevice ethDevices link .send else link
  | .receive => if link.ring.phase = .running then useDevice ethDevices link .recv else link

end Steps

/-! ### The law -/

/-- Whether the last init of a device succeeded, without a halt since. -/
def readyAfter (acts : List Act) (device : Nat) : Bool :=
  acts.foldl (fun ready act =>
    match act with
    | .init other up => if other = device then up else ready
    | .halt other => if other = device then false else ready
    | _ => ready) false

def Act.Allowed (before : List Act) : Act → Prop
  | .start none => False
  | .start (some device) => readyAfter before device = true
  | .send device => readyAfter before device = true
  | .recv device => readyAfter before device = true
  | .init _ _ => True
  | .halt _ => True

/-- Protocols are started, and devices used, with a device that is ready. -/
def Lawful (acts : List Act) : Prop :=
  ∀ before act after, acts = before ++ act :: after → act.Allowed before

structure Law (link : Link) : Prop where
  lawful : Lawful link.acts
  /-- NetLoop gave up at once when no device came up. -/
  refused : link.initAnswer ≠ 1 → link.ring.phase = .idle ∧ link.failed = true

theorem ready_append (acts more : List Act) (device : Nat) :
    readyAfter (acts ++ more) device = more.foldl (fun ready act =>
      match act with
      | .init other up => if other = device then up else ready
      | .halt other => if other = device then false else ready
      | _ => ready) (readyAfter acts device) := List.foldl_append

theorem ready_init (acts : List Act) (device : Nat) :
    readyAfter (acts ++ [.init device true]) device = true := by
  rw [ready_append]
  exact if_pos rfl

theorem lawful_snoc {acts : List Act} (lawful : Lawful acts) {act : Act}
    (allowed : act.Allowed acts) : Lawful (acts ++ [act]) := by
  intro before other after split
  rcases after.eq_nil_or_concat with rfl | ⟨rest, final, rfl⟩
  · rcases List.append_inj' split rfl with ⟨rfl, same⟩
    rw [← (List.cons.inj same).1]
    exact allowed
  · rw [List.concat_eq_append, ← List.cons_append, ← List.append_assoc] at split
    exact lawful before other rest (List.append_inj' split rfl).1

/-- A call of init or halt, which is always allowed. -/
def Act.Sets : Act → Prop
  | .init _ _ => True
  | .halt _ => True
  | _ => False

theorem sets_allowed {act : Act} (sets : act.Sets) (before : List Act) : act.Allowed before := by
  cases act with
  | init device up => trivial
  | halt device => trivial
  | start device => cases sets
  | send device => cases sets
  | recv device => cases sets

theorem lawful_append {acts more : List Act} (lawful : Lawful acts)
    (sets : ∀ act ∈ more, act.Sets) : Lawful (acts ++ more) := by
  induction more generalizing acts with
  | nil =>
      rw [List.append_nil]
      exact lawful
  | cons act rest induction =>
      have first := lawful_snoc lawful (sets_allowed (sets act List.mem_cons_self) acts)
      have whole := induction first fun other member => sets other (List.mem_cons_of_mem _ member)
      rw [List.append_assoc] at whole
      exact whole

/-! ### eth_init -/

section Init

variable {cfg : NetConfig} {comesUp : Nat → Nat → Bool} {ring : Ring}

theorem init_sets (oldCurrent bound : Nat) (ring : Ring) :
    ∀ act ∈ (initCalls cfg comesUp oldCurrent bound ring).1, act.Sets := by
  induction bound generalizing ring with
  | zero => exact fun act member => absurd member List.not_mem_nil
  | succ bound induction =>
      intro act member
      unfold initCalls at member
      dsimp only at member
      split at member
      · cases List.mem_singleton.mp member
        trivial
      · split at member
        · rcases List.mem_cons.mp member with rfl | rest
          · trivial
          · exact induction _ act rest
        · cases List.mem_singleton.mp member
          trivial

/-- An answer of 1 comes with the device that is current after the loop. -/
theorem init_answered (oldCurrent bound : Nat) (ring : Ring)
    (answer : (initCalls cfg comesUp oldCurrent bound ring).2 = 1) :
    ∃ front, (initCalls cfg comesUp oldCurrent bound ring).1 =
      front ++ [.init (initFrom cfg comesUp oldCurrent bound ring).loop.ethCurrent true] := by
  induction bound generalizing ring with
  | zero => cases answer
  | succ bound induction =>
      unfold initCalls at answer ⊢
      unfold initFrom
      dsimp only at answer ⊢
      by_cases up : comesUp ring.loop.ethCurrent ring.calls = true
      · rw [if_pos up, if_pos up]
        exact ⟨[], rfl⟩
      · rw [if_neg up] at answer
        rw [if_neg up, if_neg up]
        split at answer
        · next more =>
            obtain ⟨front, calls⟩ := induction _ answer
            rw [if_pos more, if_pos more, calls]
            exact ⟨_ :: front, rfl⟩
        · cases answer

/-- One of the devices comes up when eth_init goes through them. -/
def SomeUp (ethDevices : Nat) (comesUp : Nat → Nat → Bool) (ring : Ring) : Prop :=
  ∃ k < ethDevices, comesUp ((ring.loop.ethCurrent + k) % ethDevices) (ring.calls + k) = true

instance (ethDevices : Nat) (comesUp : Nat → Nat → Bool) (ring : Ring) :
    Decidable (SomeUp ethDevices comesUp ring) := by
  unfold SomeUp
  infer_instance

/-- From a device `i` steps behind the first one. -/
theorem init_answer_iff (registered : cfg.ethDevices ≠ 0) {oldCurrent : Nat}
    (old : oldCurrent < cfg.ethDevices) (bound i : Nat) (ring : Ring)
    (whole : i + bound = cfg.ethDevices)
    (here : ring.loop.ethCurrent = (oldCurrent + i) % cfg.ethDevices) :
    (initCalls cfg comesUp oldCurrent bound ring).2 = 1 ↔
      ∃ k < bound, comesUp ((ring.loop.ethCurrent + k) % cfg.ethDevices) (ring.calls + k) = true := by
  have positive : 0 < cfg.ethDevices := Nat.pos_of_ne_zero registered
  induction bound generalizing i ring with
  | zero =>
      constructor
      · intro answer
        cases answer
      · rintro ⟨k, none, -⟩
        omega
  | succ bound induction =>
      have current : ring.loop.ethCurrent < cfg.ethDevices := by
        rw [here]
        exact Nat.mod_lt _ positive
      have itself : (ring.loop.ethCurrent + 0) % cfg.ethDevices = ring.loop.ethCurrent :=
        Nat.mod_eq_of_lt current
      unfold initCalls
      dsimp only
      by_cases up : comesUp ring.loop.ethCurrent ring.calls = true
      · rw [if_pos up]
        exact ⟨fun _ => ⟨0, Nat.succ_pos bound, by rw [itself]; exact up⟩, fun _ => rfl⟩
      rw [if_neg up]
      have next : (ethTryAnother cfg ring.loop false).ethCurrent =
          (oldCurrent + (i + 1)) % cfg.ethDevices := by
        rw [try_another_spec registered, ← Nat.add_assoc]
        dsimp only
        rw [here, Nat.mod_add_mod]
      have later : ∀ limit, (∃ k < limit + 1, comesUp ((ring.loop.ethCurrent + k) %
            cfg.ethDevices) (ring.calls + k) = true) ↔
          ∃ k < limit, comesUp (((ethTryAnother cfg ring.loop false).ethCurrent + k) %
            cfg.ethDevices) (ring.calls + 1 + k) = true := by
        intro limit
        have place : ∀ k, ((ethTryAnother cfg ring.loop false).ethCurrent + k) % cfg.ethDevices =
            (ring.loop.ethCurrent + (k + 1)) % cfg.ethDevices := by
          intro k
          rw [try_another_spec registered]
          dsimp only
          rw [Nat.mod_add_mod, Nat.add_assoc, Nat.add_comm 1 k]
        constructor
        · rintro ⟨k, below, comes⟩
          cases k with
          | zero =>
              rw [itself] at comes
              exact absurd comes up
          | succ k =>
              refine ⟨k, by omega, ?_⟩
              rw [place, Nat.add_right_comm, Nat.add_assoc]
              exact comes
        · rintro ⟨k, below, comes⟩
          refine ⟨k + 1, by omega, ?_⟩
          rw [place, Nat.add_right_comm, Nat.add_assoc] at comes
          exact comes
      rw [later bound]
      by_cases last : bound = 0
      · subst last
        have back : (oldCurrent + (i + 1)) % cfg.ethDevices = oldCurrent := by
          rw [show i + 1 = cfg.ethDevices by omega, Nat.add_mod_right, Nat.mod_eq_of_lt old]
        rw [next, back, if_neg fun differs => differs rfl]
        constructor
        · intro answer
          cases answer
        · rintro ⟨k, none, -⟩
          omega
      · have away : oldCurrent ≠ (ethTryAnother cfg ring.loop false).ethCurrent := by
          intro same
          rw [next] at same
          have far := back_at old (show 0 < i + 1 by omega) same.symm
          omega
        rw [if_pos away]
        exact induction (i + 1) { ring with
          calls := ring.calls + 1
          log := ring.log ++ [.init ring.loop.ethCurrent]
          loop := ethTryAnother cfg ring.loop false } (by omega) next

theorem calls_set (ring : Ring) : ∀ act ∈ (ethInitCalls cfg comesUp ring).1, act.Sets := by
  unfold ethInitCalls
  split
  · exact fun act member => absurd member List.not_mem_nil
  · exact init_sets _ _ _

theorem answer_iff (current : cfg.ethDevices ≠ 0 → ring.loop.ethCurrent < cfg.ethDevices) :
    (ethInitCalls cfg comesUp ring).2 = 1 ↔ SomeUp cfg.ethDevices comesUp ring := by
  unfold ethInitCalls SomeUp
  by_cases registered : cfg.ethDevices = 0
  · rw [if_pos registered, registered]
    constructor
    · intro answer
      cases answer
    · rintro ⟨k, none, -⟩
      omega
  · rw [if_neg registered]
    exact init_answer_iff registered (current registered) cfg.ethDevices 0 ring (Nat.zero_add _)
      (Nat.mod_eq_of_lt (current registered)).symm

theorem answer_cases (ring : Ring) :
    (ethInitCalls cfg comesUp ring).2 = 0 ∨ (ethInitCalls cfg comesUp ring).2 = 1 := by
  have loop : ∀ oldCurrent bound ring, (initCalls cfg comesUp oldCurrent bound ring).2 = 0 ∨
      (initCalls cfg comesUp oldCurrent bound ring).2 = 1 := by
    intro oldCurrent bound
    induction bound with
    | zero => exact fun ring => Or.inl rfl
    | succ bound induction =>
        intro ring
        unfold initCalls
        dsimp only
        split
        · exact Or.inr rfl
        · split
          · exact induction _
          · exact Or.inl rfl
  unfold ethInitCalls
  split
  · exact Or.inl rfl
  · exact loop _ _ _

/-- The current device is ready after eth_init when one has come up. -/
theorem some_ready (acts : List Act)
    (current : cfg.ethDevices ≠ 0 → ring.loop.ethCurrent < cfg.ethDevices)
    (up : SomeUp cfg.ethDevices comesUp ring) :
    readyAfter (acts ++ (ethInitCalls cfg comesUp ring).1)
      (ethInit cfg comesUp ring).loop.ethCurrent = true := by
  have answer := (answer_iff current).mpr up
  have registered : cfg.ethDevices ≠ 0 := by
    rcases up with ⟨k, below, -⟩
    omega
  unfold ethInitCalls at answer ⊢
  unfold ethInit
  rw [if_neg registered] at answer ⊢
  rw [if_neg registered]
  obtain ⟨front, calls⟩ := init_answered _ _ _ answer
  rw [calls, ← List.append_assoc]
  exact ready_init _ _

theorem init_bound (current : cfg.ethDevices ≠ 0 → ring.loop.ethCurrent < cfg.ethDevices) :
    cfg.ethDevices ≠ 0 → (ethInit cfg comesUp ring).loop.ethCurrent < cfg.ethDevices := by
  intro registered
  rcases @init_spec cfg comesUp registered ring (current registered) with
    ⟨count, k, _, _, _, after⟩
  rcases advanced_spec registered ring.loop (current registered) k with ⟨wrap, there, _⟩
  rw [after, there]
  exact Nat.mod_lt _ (Nat.pos_of_ne_zero registered)

theorem moved_bound : cfg.ethDevices ≠ 0 →
    (movedOn cfg ring).loop.ethCurrent < cfg.ethDevices := by
  intro registered
  unfold movedOn ethTryAnother
  rw [if_neg registered]
  exact Nat.mod_lt _ (Nat.pos_of_ne_zero registered)

/-- NetStartAgain leaves the device current that eth_init left. -/
theorem start_again_current (free : cfg.fwRecovery = 0)
    (retries : cfg.netretry ≠ some (ascii "no")) :
    (EthRing.netStartAgain cfg comesUp ring).loop.ethCurrent =
      (ethInit cfg comesUp (movedOn cfg ring)).loop.ethCurrent := by
  unfold EthRing.netStartAgain
  rw [if_neg (not_not.mpr free), if_neg retries]
  dsimp only
  split
  · split <;> rfl
  · rfl

theorem start_again_calls (free : cfg.fwRecovery = 0)
    (retries : cfg.netretry ≠ some (ascii "no")) : startAgainCalls cfg comesUp ring =
      ethHaltCalls cfg ring ++ (ethInitCalls cfg comesUp (movedOn cfg ring)).1 := by
  unfold startAgainCalls
  rw [if_neg (not_not.mpr free), if_neg retries]

theorem start_again_kept (stays : cfg.fwRecovery ≠ 0 ∨ cfg.netretry = some (ascii "no")) :
    (EthRing.netStartAgain cfg comesUp ring).loop.ethCurrent = ring.loop.ethCurrent := by
  unfold EthRing.netStartAgain
  by_cases free : cfg.fwRecovery ≠ 0
  · rw [if_pos free]
  · rw [if_neg free, if_pos (stays.resolve_left free)]

end Init

/-! ### The steps -/

section Invariant

variable {ethDevices : Nat} {names : Nat → List UInt8} {comesUp : Nat → Nat → Bool} {link : Link}

/-- While a command runs, its device is ready unless NetStartAgain has given up. -/
structure LinkInv (ethDevices : Nat) (link : Link) : Prop where
  lawful : Lawful link.acts
  answered : link.initAnswer = 1
  current : ethDevices ≠ 0 → link.ring.loop.ethCurrent < ethDevices
  ready : link.ring.phase ≠ .idle → link.gaveUp = false →
    ethDevices ≠ 0 ∧ readyAfter link.acts link.ring.loop.ethCurrent = true

/-- Whenever devices are initialised one of them comes up, and after NetStartAgain has given up
with netretry "no" nothing is started, sent or received. -/
def Meets (ethDevices : Nat) (names : Nat → List UInt8) (comesUp : Nat → Nat → Bool) (link : Link) :
    LinkEvent → Prop
  | .ring (.netLoop act) =>
      link.ring.phase = .idle → SomeUp ethDevices comesUp (entered ethDevices names act link.ring)
  | .ring (.noDevice fwRecovery netretry) =>
      link.ring.phase = .starting → fwRecovery = 0 → netretry ≠ some (ascii "no") →
        SomeUp ethDevices comesUp
          (movedOn (configured ethDevices fwRecovery netretry) (restarted link.ring))
  | .ring (.startAgain fwRecovery netretry) =>
      link.ring.phase = .running → fwRecovery = 0 → netretry ≠ some (ascii "no") →
        SomeUp ethDevices comesUp (movedOn (configured ethDevices fwRecovery netretry) link.ring)
  | .ring (.ready _) => link.ring.phase = .starting → link.gaveUp = false
  | .ring _ => True
  | .send => link.ring.phase = .running → link.gaveUp = false
  | .receive => link.ring.phase = .running → link.gaveUp = false

theorem halt_sets (ring : Ring) : ∀ act ∈ haltActs ethDevices ring, act.Sets := by
  unfold haltActs ethHaltCalls
  split
  · exact fun act member => absurd member List.not_mem_nil
  · intro act member
    cases List.mem_singleton.mp member
    trivial

theorem again_sets (cfg : NetConfig) (ring : Ring) :
    ∀ act ∈ startAgainCalls cfg comesUp ring, act.Sets := by
  have halts : ∀ act ∈ ethHaltCalls cfg ring, act.Sets := by
    unfold ethHaltCalls
    split
    · exact fun act member => absurd member List.not_mem_nil
    · intro act member
      cases List.mem_singleton.mp member
      trivial
  unfold startAgainCalls
  split
  · exact fun act member => absurd member List.not_mem_nil
  · split
    · exact halts
    · intro act member
      rcases List.mem_append.mp member with first | rest
      · exact halts act first
      · exact calls_set _ act rest

theorem busy_phase {phase : Phase} (busy : phase = .starting ∨ phase = .running) :
    phase ≠ .idle := by
  rcases busy with rfl | rfl <;> decide

/-- A device in use is a ready one. -/
theorem use_inv (inv : LinkInv ethDevices link) (act : Nat → Act)
    (allowed : ∀ device before, readyAfter before device = true → (act device).Allowed before)
    (kept : ∀ device before other, readyAfter (before ++ [act device]) other =
      readyAfter before other)
    (running : link.ring.phase = .running) (trying : link.gaveUp = false) :
    LinkInv ethDevices (useDevice ethDevices link act) := by
  obtain ⟨registered, ready⟩ := inv.ready (busy_phase (Or.inr running)) trying
  unfold useDevice currentDevice
  rw [if_neg registered]
  refine ⟨lawful_snoc inv.lawful (allowed _ _ ready), inv.answered, inv.current, ?_⟩
  intro busy _
  dsimp only
  rw [kept]
  exact ⟨registered, ready⟩

/-- What NetStartAgain does to the devices, from a ring with the acts before it. -/
theorem again_ready {ring : Ring} {acts : List Act} {gaveUp : Bool} {fwRecovery : Nat}
    {netretry : Option (List UInt8)} (lawful : Lawful acts)
    (current : ethDevices ≠ 0 → ring.loop.ethCurrent < ethDevices)
    (ready : gaveUp = false →
      ethDevices ≠ 0 ∧ readyAfter acts ring.loop.ethCurrent = true)
    (up : fwRecovery = 0 → netretry ≠ some (ascii "no") →
      SomeUp ethDevices comesUp (movedOn (configured ethDevices fwRecovery netretry) ring)) :
    let cfg := configured ethDevices fwRecovery netretry
    let after := EthRing.netStartAgain cfg comesUp ring
    let calls := acts ++ startAgainCalls cfg comesUp ring
    Lawful calls ∧ (ethDevices ≠ 0 → after.loop.ethCurrent < ethDevices) ∧
      (givesUp fwRecovery netretry gaveUp = false →
        ethDevices ≠ 0 ∧ readyAfter calls after.loop.ethCurrent = true) := by
  intro cfg after calls
  refine ⟨lawful_append lawful (again_sets cfg ring), ?_, ?_⟩
  · intro registered
    by_cases stays : fwRecovery ≠ 0 ∨ netretry = some (ascii "no")
    · rw [show after.loop.ethCurrent = ring.loop.ethCurrent from start_again_kept stays]
      exact current registered
    · push Not at stays
      have moved : after.loop.ethCurrent = (ethInit cfg comesUp (movedOn cfg ring)).loop.ethCurrent :=
        start_again_current stays.1 stays.2
      rw [moved]
      exact @init_bound cfg comesUp _ moved_bound registered
  · unfold givesUp
    intro trying
    by_cases free : fwRecovery = 0
    · rw [if_neg (not_not.mpr free)] at trying
      have retries : netretry ≠ some (ascii "no") := by
        intro same
        rw [same] at trying
        cases trying
      have some_up := up free retries
      have moved : after.loop.ethCurrent = (ethInit cfg comesUp (movedOn cfg ring)).loop.ethCurrent :=
        start_again_current free retries
      have list : startAgainCalls cfg comesUp ring =
          ethHaltCalls cfg ring ++ (ethInitCalls cfg comesUp (movedOn cfg ring)).1 :=
        start_again_calls free retries
      constructor
      · rcases some_up with ⟨k, below, -⟩
        omega
      · show readyAfter (acts ++ _) _ = true
        rw [moved, list, ← List.append_assoc]
        exact some_ready _ moved_bound some_up
    · rw [if_pos free] at trying
      have none : startAgainCalls cfg comesUp ring = [] := by
        unfold startAgainCalls
        exact if_pos free
      have kept : after.loop.ethCurrent = ring.loop.ethCurrent := start_again_kept (Or.inl free)
      show _ ∧ readyAfter (acts ++ _) _ = true
      rw [kept, none, List.append_nil]
      exact ready trying

theorem net_loop_link (inv : LinkInv ethDevices link) (act : List UInt8)
    (idle : link.ring.phase = .idle)
    (up : SomeUp ethDevices comesUp (entered ethDevices names act link.ring)) :
    LinkInv ethDevices (linkMove ethDevices names comesUp link (.netLoop act)) := by
  have bound : (configured ethDevices 0 none).ethDevices ≠ 0 →
      (entered ethDevices names act link.ring).loop.ethCurrent < ethDevices :=
    fun registered => set_current_bound act (inv.current registered)
  have answer : (ethInitCalls (configured ethDevices 0 none) comesUp
      (entered ethDevices names act link.ring)).2 = 1 := (answer_iff bound).mpr up
  have ring : ringStep ethDevices names comesUp link.ring (.netLoop act) =
      { ethInit (configured ethDevices 0 none) comesUp (entered ethDevices names act link.ring) with
        phase := .starting } := if_pos idle
  unfold linkMove
  dsimp only
  rw [answer, if_neg (by decide), ring]
  refine ⟨?_, rfl, @init_bound (configured ethDevices 0 none) comesUp _ bound, ?_⟩
  · exact lawful_append (lawful_append inv.lawful (halt_sets _)) (calls_set _)
  · intro _ _
    refine ⟨?_, some_ready _ bound up⟩
    rcases up with ⟨k, below, -⟩
    omega

/-- The test for a negative answer never holds: NetLoop goes on without a device. -/
theorem net_loop_breaks (current : ethDevices ≠ 0 → link.ring.loop.ethCurrent < ethDevices)
    (act : List UInt8) (idle : link.ring.phase = .idle)
    (down : ¬ SomeUp ethDevices comesUp (entered ethDevices names act link.ring)) :
    ¬ Law (linkStep ethDevices names comesUp link (.ring (.netLoop act))) := by
  have bound : (configured ethDevices 0 none).ethDevices ≠ 0 →
      (entered ethDevices names act link.ring).loop.ethCurrent < ethDevices :=
    fun registered => set_current_bound act (current registered)
  have answer : (ethInitCalls (configured ethDevices 0 none) comesUp
      (entered ethDevices names act link.ring)).2 = 0 :=
    (answer_cases _).resolve_right fun up => down ((answer_iff bound).mp up)
  have ring : ringStep ethDevices names comesUp link.ring (.netLoop act) =
      { ethInit (configured ethDevices 0 none) comesUp (entered ethDevices names act link.ring) with
        phase := .starting } := if_pos idle
  intro law
  rw [linkStep, if_pos (show link.ring.phase = phaseOf (.netLoop act) from idle)] at law
  unfold linkMove at law
  dsimp only at law
  rw [answer, if_neg (by decide), ring] at law
  cases (law.refused Int.zero_ne_one).1

/-- A call that leaves the devices as they are. -/
theorem kept_inv {after : Link} (inv : LinkInv ethDevices link) (acts : after.acts = link.acts)
    (answer : after.initAnswer = link.initAnswer) (gaveUp : after.gaveUp = link.gaveUp)
    (current : after.ring.loop.ethCurrent = link.ring.loop.ethCurrent)
    (busy : after.ring.phase ≠ .idle → link.ring.phase ≠ .idle) : LinkInv ethDevices after := by
  refine ⟨?_, answer.trans inv.answered, ?_, ?_⟩
  · rw [acts]
    exact inv.lawful
  · rw [current]
    exact inv.current
  · rw [gaveUp, acts, current]
    exact fun later => inv.ready (busy later)

/-- A command that ends with eth_halt. -/
theorem halted_inv {after : Link} (inv : LinkInv ethDevices link)
    (acts : after.acts = link.acts ++ haltActs ethDevices link.ring)
    (answer : after.initAnswer = link.initAnswer)
    (current : after.ring.loop.ethCurrent = link.ring.loop.ethCurrent)
    (idle : after.ring.phase = .idle) : LinkInv ethDevices after := by
  refine ⟨?_, answer.trans inv.answered, ?_, fun busy => absurd idle busy⟩
  · rw [acts]
    exact lawful_append inv.lawful (halt_sets _)
  · rw [current]
    exact inv.current

theorem move_inv (inv : LinkInv ethDevices link) (event : RingEvent)
    (meets : Meets ethDevices names comesUp link (.ring event))
    (phase : link.ring.phase = phaseOf event) :
    LinkInv ethDevices (linkMove ethDevices names comesUp link event) := by
  cases event with
  | netLoop act => exact net_loop_link inv act phase (meets phase)
  | unconfigured =>
      have ring : ringStep ethDevices names comesUp link.ring .unconfigured =
          { link.ring with phase := .idle } := if_pos phase
      exact halted_inv inv rfl rfl (by unfold linkMove; rw [ring]) (by unfold linkMove; rw [ring])
  | noDevice fwRecovery netretry =>
      have ring : ringStep ethDevices names comesUp link.ring (.noDevice fwRecovery netretry) =
          EthRing.netStartAgain (configured ethDevices fwRecovery netretry) comesUp
            (restarted link.ring) := if_pos phase
      have ready := inv.ready (busy_phase (Or.inl phase))
      obtain ⟨lawful, current, used⟩ := @again_ready ethDevices comesUp (restarted link.ring)
        link.acts link.gaveUp fwRecovery netretry inv.lawful inv.current ready (meets phase)
      unfold linkMove
      dsimp only
      rw [ring]
      exact ⟨lawful, inv.answered, current, fun _ => used⟩
  | ready ownTimer =>
      obtain ⟨registered, ready⟩ := inv.ready (busy_phase (Or.inl phase)) (meets phase)
      have ring : (ringStep ethDevices names comesUp link.ring (.ready ownTimer)).loop.ethCurrent =
          link.ring.loop.ethCurrent := by
        unfold ringStep
        dsimp only
        split <;> rfl
      have device : currentDevice ethDevices link.ring = some link.ring.loop.ethCurrent :=
        if_neg registered
      unfold linkMove
      dsimp only
      rw [device]
      refine ⟨lawful_snoc inv.lawful ready, inv.answered, ?_, fun _ _ => ⟨registered, ?_⟩⟩
      · rw [ring]
        exact inv.current
      · rw [ring, ready_append]
        exact ready
  | startAgain fwRecovery netretry =>
      have ring : ringStep ethDevices names comesUp link.ring (.startAgain fwRecovery netretry) =
          EthRing.netStartAgain (configured ethDevices fwRecovery netretry) comesUp link.ring :=
        if_pos phase
      have ready := inv.ready (busy_phase (Or.inr phase))
      obtain ⟨lawful, current, used⟩ := @again_ready ethDevices comesUp link.ring
        link.acts link.gaveUp fwRecovery netretry inv.lawful inv.current ready (meets phase)
      unfold linkMove
      dsimp only
      rw [ring]
      exact ⟨lawful, inv.answered, current, fun _ => used⟩
  | protocol netState ownTimer =>
      have ring : (ringStep ethDevices names comesUp link.ring
          (.protocol netState ownTimer)).loop.ethCurrent = link.ring.loop.ethCurrent := by
        unfold ringStep
        dsimp only
        split <;> rfl
      exact kept_inv inv rfl rfl rfl ring fun _ => busy_phase (Or.inr phase)
  | startAgainTimeout =>
      have ring : (ringStep ethDevices names comesUp link.ring
          .startAgainTimeout).loop.ethCurrent = link.ring.loop.ethCurrent := by
        unfold ringStep
        dsimp only
        split <;> rfl
      exact kept_inv inv rfl rfl rfl ring fun _ => busy_phase (Or.inr phase)
  | turn =>
      have running : link.ring.phase = .running := phase
      have busy := busy_phase (Or.inr running)
      unfold linkMove ringStep
      dsimp only
      rw [if_pos running]
      cases state : link.ring.loop.netState with
      | «continue» => exact kept_inv inv rfl rfl rfl rfl fun _ => busy
      | restart => exact kept_inv inv rfl rfl rfl rfl fun _ => busy
      | success => exact halted_inv inv rfl rfl rfl rfl
      | fail => exact kept_inv inv rfl rfl rfl rfl fun _ => busy
  | abort =>
      have ring : ringStep ethDevices names comesUp link.ring .abort =
          { link.ring with phase := .idle } := if_pos phase
      exact halted_inv inv rfl rfl (by unfold linkMove; rw [ring]) (by unfold linkMove; rw [ring])

theorem link_inv (inv : LinkInv ethDevices link) (event : LinkEvent)
    (meets : Meets ethDevices names comesUp link event) :
    LinkInv ethDevices (linkStep ethDevices names comesUp link event) := by
  cases event with
  | ring event =>
      by_cases phase : link.ring.phase = phaseOf event
      · rw [linkStep, if_pos phase]
        exact move_inv inv event meets phase
      · rw [linkStep, if_neg phase]
        exact inv
  | send =>
      by_cases running : link.ring.phase = .running
      · rw [linkStep, if_pos running]
        exact use_inv inv .send (fun _ _ ready => ready) (fun _ _ _ => ready_append _ _ _) running
          (meets running)
      · rw [linkStep, if_neg running]
        exact inv
  | receive =>
      by_cases running : link.ring.phase = .running
      · rw [linkStep, if_pos running]
        exact use_inv inv .recv (fun _ _ ready => ready) (fun _ _ _ => ready_append _ _ _) running
          (meets running)
      · rw [linkStep, if_neg running]
        exact inv

end Invariant

/-- Before the first command. -/
def linkOn (current : Nat) : Link := ⟨powerOn current, [], 1, false, false⟩

/-- The condition for two devices, to be computed. -/
instance meetsDecidable (comesUp : Nat → Nat → Bool) (link : Link) :
    (event : LinkEvent) → Decidable (Meets 2 ethName comesUp link event)
  | .ring (.netLoop act) => inferInstanceAs (Decidable
      (link.ring.phase = .idle → SomeUp 2 comesUp (entered 2 ethName act link.ring)))
  | .ring (.noDevice fwRecovery netretry) => inferInstanceAs (Decidable
      (link.ring.phase = .starting → fwRecovery = 0 → netretry ≠ some (ascii "no") →
        SomeUp 2 comesUp (movedOn (configured 2 fwRecovery netretry) (restarted link.ring))))
  | .ring (.startAgain fwRecovery netretry) => inferInstanceAs (Decidable
      (link.ring.phase = .running → fwRecovery = 0 → netretry ≠ some (ascii "no") →
        SomeUp 2 comesUp (movedOn (configured 2 fwRecovery netretry) link.ring)))
  | .ring (.ready _) =>
      inferInstanceAs (Decidable (link.ring.phase = .starting → link.gaveUp = false))
  | .ring .unconfigured => inferInstanceAs (Decidable True)
  | .ring (.protocol _ _) => inferInstanceAs (Decidable True)
  | .ring .startAgainTimeout => inferInstanceAs (Decidable True)
  | .ring .turn => inferInstanceAs (Decidable True)
  | .ring .abort => inferInstanceAs (Decidable True)
  | .send => inferInstanceAs (Decidable (link.ring.phase = .running → link.gaveUp = false))
  | .receive => inferInstanceAs (Decidable (link.ring.phase = .running → link.gaveUp = false))

/-- A transfer that switches to the second device, and ends. -/
def oneTransfer : List LinkEvent :=
  [.ring (.netLoop (ethName 0)), .ring (.ready true), .send, .receive,
    .ring (.startAgain 0 none), .ring .turn, .ring (.ready true), .send, .receive,
    .ring (.protocol (some true) false), .ring .turn]

end UBoot.Net.DeviceStart
