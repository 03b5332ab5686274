import UBoot.Library.Loop
import UBoot.Library.Memory

/-!
common/usb.c: the configuration descriptor of a device. usb_get_configuration_no puts it into a
buffer, and usb_parse_config walks over it and copies it to dev->config. Places in dev->config are
byte offsets; what the walk does behind a write outside of the arrays is left open.
-/

namespace UBoot.Usb.ParseConfig

open Library.Loop Library.Memory

def USB_BUFSIZ : Nat := 512
def USB_MAXINTERFACES : Nat := 8
def USB_MAXENDPOINTS : Nat := 16

def USB_DT_CONFIG : UInt8 := 0x02
def USB_DT_INTERFACE : UInt8 := 0x04
def USB_DT_ENDPOINT : UInt8 := 0x05

/-- The packed structures: 9 bytes for an endpoint, 11 of an interface and 10 of a configuration in
front of their arrays. -/
def ifDesc (ifno : Int) : Int := 10 + 155 * ifno

def epDesc (ifno epno : Int) : Int := ifDesc ifno + 11 + 9 * epno

def configSize : Nat := 1250

/-- Reads of the buffer, and writes to dev->config: to its header, through if_desc, and through the
ep_desc of an interface. -/
inductive Access where
  | read (place len : Nat)
  | header (place len : Nat)
  | interface (place : Int) (len : Nat)
  | endpoint (ifno place : Int) (len : Nat)
deriving DecidableEq

/-- A write that keeps to dev->config, to if_desc, or to the ep_desc of an interface that is there. -/
def Access.InArrays : Access → Prop
  | .read _ _ => True
  | .header place len => place + len ≤ configSize
  | .interface place len => ifDesc 0 ≤ place ∧ place + len ≤ ifDesc USB_MAXINTERFACES
  | .endpoint ifno place len => 0 ≤ ifno ∧ ifno < USB_MAXINTERFACES ∧
      epDesc ifno 0 ≤ place ∧ place + len ≤ epDesc ifno USB_MAXENDPOINTS

instance : (access : Access) → Decidable access.InArrays
  | .read _ _ => inferInstanceAs (Decidable True)
  | .header _ _ => inferInstanceAs (Decidable (_ ≤ _))
  | .interface _ _ => inferInstanceAs (Decidable (_ ∧ _))
  | .endpoint _ _ _ => inferInstanceAs (Decidable (_ ∧ _))

/-- `noOfEp` is that of the last interface. -/
structure Walk where
  index : Nat
  noOfIf : Nat
  noOfEp : Nat
  accesses : List Access

section Code
variable (buffer : Nat → UInt8) (total : Nat)

/-- Goes on behind a descriptor, unless it was copied to a place outside of the arrays. -/
def goOn (walk next : Walk) (accesses : List Access) : Walk ⊕ List Access :=
  if ∀ access ∈ accesses, access.InArrays then
    .inl { next with accesses := walk.accesses ++ accesses }
  else .inr (walk.accesses ++ accesses)

/-- A turn of the loop of usb_parse_config. -/
def turn (walk : Walk) : Walk ⊕ List Access :=
  if walk.index + 1 < total then
    let bLength := (buffer walk.index).toNat
    let bDescriptorType := buffer (walk.index + 1)
    let head := .read walk.index 2
    let next := { walk with index := walk.index + bLength }
    if bDescriptorType = USB_DT_INTERFACE then
      let ifno : Int := walk.noOfIf
      goOn walk { next with noOfIf := walk.noOfIf + 1, noOfEp := 0 }
        [head, .read walk.index bLength, .interface (ifDesc ifno) bLength,
          .interface (ifDesc ifno + 9) 1]
    else if bDescriptorType = USB_DT_ENDPOINT then
      let ifno : Int := walk.noOfIf - 1
      let epno : Int := walk.noOfEp
      goOn walk { next with noOfEp := walk.noOfEp + 1 }
        [head, .interface (ifDesc ifno + 9) 1, .read walk.index bLength,
          .endpoint ifno (epDesc ifno epno) bLength, .endpoint ifno (epDesc ifno epno + 4) 2]
    else if bLength = 0 then .inr (walk.accesses ++ [head])
    else goOn walk next [head]
  else .inr walk.accesses

end Code

/-- The bytes of dev->config behind the copy of its header. -/
def copied (config buffer : Nat → UInt8) : Nat → UInt8 :=
  fun place => if place < (buffer 0).toNat then buffer place else config place

def wTotalLength (config : Nat → UInt8) : Nat := (config 2).toNat + 256 * (config 3).toNat

/-- usb_parse_config ends with these accesses, on a dev->config that held `config` before. -/
def UsbParseConfig (config buffer : Nat → UInt8) (accesses : List Access) : Prop :=
  if buffer 1 ≠ USB_DT_CONFIG then accesses = [.read 1 1]
  else
    let len := (buffer 0).toNat
    let config := copied config buffer
    let start :=
      { index := (config 0).toNat
        noOfIf := 0
        noOfEp := 0
        accesses := [.read 1 1, .read 0 1, .read 0 len, .header 0 len, .header 2 2, .header 9 1] }
    Ends (turn buffer (wTotalLength config)) start accesses

/-- usb_get_configuration_no: the result and the buffer. The device answers a request for `size` bytes
with a result and bytes, of which the first `size` are stored. -/
def usbGetConfigurationNo (device : Nat → Int × List UInt8) (buffer : Nat → UInt8) :
    Int × (Nat → UInt8) :=
  let (result, bytes) := device 8
  let buffer := splice buffer 0 (bytes.take 8)
  if result < 8 then (-1, buffer)
  else
    let tmp := (buffer 2).toNat + 256 * (buffer 3).toNat
    if tmp > USB_BUFSIZ then (-1, buffer)
    else
      let (result, bytes) := device tmp
      (result, splice buffer 0 (bytes.take tmp))

/-- An access that keeps to a buffer of `size` bytes and to the arrays. -/
structure Access.Inside (size : Nat) (access : Access) : Prop where
  arrays : access.InArrays
  buffer : ∀ place len, access = .read place len → place + len ≤ size

/-- usb_parse_config ends, and all its accesses are inside. -/
def Safe (config buffer : Nat → UInt8) (size : Nat) : Prop :=
  ∃ accesses, UsbParseConfig config buffer accesses ∧ ∀ access ∈ accesses, access.Inside size

/-- The descriptors from a place on, behind `ifs` interfaces and the `eps` endpoints of the last one:
each head is in the buffer, an interface is one of eight and ends in their array, and an endpoint
belongs to an interface, is one of its sixteen, and ends in their array. -/
inductive Descriptors (buffer : Nat → UInt8) (size total : Nat) : (place ifs eps : Nat) → Prop where
  | done {place ifs eps : Nat} (ended : total ≤ place + 1) : Descriptors buffer size total place ifs eps
  | empty {place ifs eps : Nat} (head : place + 2 ≤ size) (none : buffer place = 0)
      (noInterface : buffer (place + 1) ≠ USB_DT_INTERFACE)
      (noEndpoint : buffer (place + 1) ≠ USB_DT_ENDPOINT) :
      Descriptors buffer size total place ifs eps
  | other {place ifs eps : Nat} (head : place + 2 ≤ size)
      (noInterface : buffer (place + 1) ≠ USB_DT_INTERFACE)
      (noEndpoint : buffer (place + 1) ≠ USB_DT_ENDPOINT)
      (next : Descriptors buffer size total (place + (buffer place).toNat) ifs eps) :
      Descriptors buffer size total place ifs eps
  | interface {place ifs eps : Nat} (head : place + 2 ≤ size)
      (type : buffer (place + 1) = USB_DT_INTERFACE) (there : place + (buffer place).toNat ≤ size)
      (room : ifs < USB_MAXINTERFACES)
      (fits : (buffer place).toNat ≤ 155 * (USB_MAXINTERFACES - ifs))
      (next : Descriptors buffer size total (place + (buffer place).toNat) (ifs + 1) 0) :
      Descriptors buffer size total place ifs eps
  | endpoint {place ifs eps : Nat} (head : place + 2 ≤ size)
      (type : buffer (place + 1) = USB_DT_ENDPOINT) (there : place + (buffer place).toNat ≤ size)
      (owner : 0 < ifs) (room : eps < USB_MAXENDPOINTS)
      (fits : (buffer place).toNat ≤ 9 * (USB_MAXENDPOINTS - eps))
      (next : Descriptors buffer size total (place + (buffer place).toNat) ifs (eps + 1)) :
      Descriptors buffer size total place ifs eps

section Accesses
variable {size place len ifs eps : Nat}

theorem read_inside : (Access.read place len).Inside size ↔ place + len ≤ size := by
  constructor
  · exact fun inside => inside.buffer _ _ rfl
  · refine fun fits => ⟨trivial, ?_⟩
    rintro _ _ ⟨⟩
    exact fits

theorem interface_write_inside {start : Int} : (Access.interface start len).Inside size ↔
    ifDesc 0 ≤ start ∧ start + len ≤ ifDesc USB_MAXINTERFACES :=
  ⟨Access.Inside.arrays, fun arrays => ⟨arrays, nofun⟩⟩

theorem endpoint_write_inside {ifno start : Int} : (Access.endpoint ifno start len).Inside size ↔
    0 ≤ ifno ∧ ifno < USB_MAXINTERFACES ∧ epDesc ifno 0 ≤ start ∧
      start + len ≤ epDesc ifno USB_MAXENDPOINTS :=
  ⟨Access.Inside.arrays, fun arrays => ⟨arrays, nofun⟩⟩

/-- What a turn does with an interface descriptor. -/
def interfaceAccesses (place len ifs : Nat) : List Access :=
  [.read place 2, .read place len, .interface (ifDesc ifs) len, .interface (ifDesc ifs + 9) 1]

/-- What it does with an endpoint descriptor. -/
def endpointAccesses (place len ifs eps : Nat) : List Access :=
  [.read place 2, .interface (ifDesc ((ifs : Int) - 1) + 9) 1, .read place len,
    .endpoint (ifs - 1) (epDesc ((ifs : Int) - 1) eps) len,
    .endpoint (ifs - 1) (epDesc ((ifs : Int) - 1) eps + 4) 2]

theorem interface_inside : (∀ access ∈ interfaceAccesses place len ifs, access.Inside size) ↔
    place + 2 ≤ size ∧ place + len ≤ size ∧ ifs < USB_MAXINTERFACES ∧
      len ≤ 155 * (USB_MAXINTERFACES - ifs) := by
  simp only [interfaceAccesses, List.forall_mem_cons, read_inside, interface_write_inside,
    List.not_mem_nil, false_imp_iff, implies_true, and_true]
  simp only [ifDesc, USB_MAXINTERFACES]
  omega

theorem endpoint_inside (few : ifs ≤ USB_MAXINTERFACES) :
    (∀ access ∈ endpointAccesses place len ifs eps, access.Inside size) ↔
      place + 2 ≤ size ∧ place + len ≤ size ∧ 0 < ifs ∧ eps < USB_MAXENDPOINTS ∧
        len ≤ 9 * (USB_MAXENDPOINTS - eps) := by
  simp only [endpointAccesses, List.forall_mem_cons, read_inside, interface_write_inside,
    endpoint_write_inside, List.not_mem_nil, false_imp_iff, implies_true, and_true]
  unfold USB_MAXINTERFACES at few
  simp only [epDesc, ifDesc, USB_MAXINTERFACES, USB_MAXENDPOINTS]
  omega

end Accesses

section Turns
variable {buffer : Nat → UInt8} {size total fuel : Nat} {walk next : Walk} {accesses final : List Access}

theorem turn_done (ended : total ≤ walk.index + 1) : turn buffer total walk = .inr walk.accesses := by
  rw [turn, if_neg (Nat.not_lt.mpr ended)]

theorem turn_interface (more : walk.index + 1 < total)
    (type : buffer (walk.index + 1) = USB_DT_INTERFACE) :
    turn buffer total walk =
      goOn walk { walk with
          index := walk.index + (buffer walk.index).toNat
          noOfIf := walk.noOfIf + 1
          noOfEp := 0 }
        (interfaceAccesses walk.index (buffer walk.index).toNat walk.noOfIf) := by
  rw [turn, if_pos more]
  exact if_pos type

theorem turn_endpoint (more : walk.index + 1 < total)
    (type : buffer (walk.index + 1) = USB_DT_ENDPOINT) :
    turn buffer total walk =
      goOn walk { walk with
          index := walk.index + (buffer walk.index).toNat
          noOfEp := walk.noOfEp + 1 }
        (endpointAccesses walk.index (buffer walk.index).toNat walk.noOfIf walk.noOfEp) := by
  have noInterface : buffer (walk.index + 1) ≠ USB_DT_INTERFACE := by
    rw [type]
    decide
  rw [turn, if_pos more]
  exact (if_neg noInterface).trans (if_pos type)

theorem turn_empty (more : walk.index + 1 < total) (none : buffer walk.index = 0)
    (noInterface : buffer (walk.index + 1) ≠ USB_DT_INTERFACE)
    (noEndpoint : buffer (walk.index + 1) ≠ USB_DT_ENDPOINT) :
    turn buffer total walk = .inr (walk.accesses ++ [.read walk.index 2]) := by
  have zero : (buffer walk.index).toNat = 0 := by
    rw [none]
    rfl
  rw [turn, if_pos more]
  exact (if_neg noInterface).trans ((if_neg noEndpoint).trans (if_pos zero))

theorem turn_other (more : walk.index + 1 < total) (some_bytes : buffer walk.index ≠ 0)
    (noInterface : buffer (walk.index + 1) ≠ USB_DT_INTERFACE)
    (noEndpoint : buffer (walk.index + 1) ≠ USB_DT_ENDPOINT) :
    turn buffer total walk =
      goOn walk { walk with index := walk.index + (buffer walk.index).toNat }
        [.read walk.index 2] := by
  have positive : (buffer walk.index).toNat ≠ 0 := fun zero => some_bytes (UInt8.toNat.inj zero)
  rw [turn, if_pos more]
  exact (if_neg noInterface).trans ((if_neg noEndpoint).trans (if_neg positive))

theorem go_on_inside (inside : ∀ access ∈ accesses, access.Inside size) :
    goOn walk next accesses = .inl { next with accesses := walk.accesses ++ accesses } :=
  if_pos fun access member => (inside access member).arrays

theorem go_on_keeps {other : Walk} (goes : goOn walk next accesses = .inl other) :
    walk.accesses ⊆ other.accesses := by
  rw [goOn] at goes
  split at goes
  · cases goes
    exact List.subset_append_left _ _
  · cases goes

theorem go_on_left (leaves : goOn walk next accesses = .inr final) : walk.accesses ⊆ final := by
  rw [goOn] at leaves
  split at leaves
  · cases leaves
  · cases leaves
    exact List.subset_append_left _ _

/-- What a walk did stays in the list of its accesses. -/
theorem accesses_kept (ended : Ends (turn buffer total) walk final) : walk.accesses ⊆ final := by
  refine ends_keeps (fun other => walk.accesses ⊆ other.accesses) (fun last => walk.accesses ⊆ last)
    ?_ ?_ (List.Subset.refl _) ended
  · intro state next kept body
    refine List.Subset.trans kept ?_
    rw [turn] at body
    dsimp only at body
    split at body
    · split at body
      · exact go_on_keeps body
      · split at body
        · exact go_on_keeps body
        · split at body
          · cases body
          · exact go_on_keeps body
    · cases body
  · intro state last kept body
    refine List.Subset.trans kept ?_
    rw [turn] at body
    dsimp only at body
    split at body
    · split at body
      · exact go_on_left body
      · split at body
        · exact go_on_left body
        · split at body
          · cases body
            exact List.subset_append_left _ _
          · exact go_on_left body
    · cases body
      exact List.Subset.refl _

/-- A turn in a walk whose accesses are all inside. -/
theorem run_go_on (goes : turn buffer total walk = goOn walk next accesses)
    (ended : run (turn buffer total) (fuel + 1) walk = some final)
    (inside : ∀ access ∈ final, access.Inside size) :
    (∀ access ∈ accesses, access.Inside size) ∧
      run (turn buffer total) fuel { next with accesses := walk.accesses ++ accesses } = some final := by
  by_cases arrays : ∀ access ∈ accesses, access.InArrays
  · have step : turn buffer total walk = .inl { next with accesses := walk.accesses ++ accesses } :=
      goes.trans (if_pos arrays)
    rw [run_next step] at ended
    refine ⟨fun access member => inside access ?_, ended⟩
    exact accesses_kept ⟨fuel, ended⟩ (List.mem_append_right _ member)
  · have step : turn buffer total walk = .inr (walk.accesses ++ accesses) :=
      goes.trans (if_neg arrays)
    have last := ends_unique ⟨fuel + 1, ended⟩ (ends_done step)
    subst last
    exact absurd (fun access member => (inside access (List.mem_append_right _ member)).arrays) arrays

end Turns

section Walks
variable {buffer : Nat → UInt8} {size total fuel place ifs eps : Nat} {before final : List Access}

/-- A walk at a place. -/
def walkAt (place ifs eps : Nat) (before : List Access) : Walk :=
  { index := place, noOfIf := ifs, noOfEp := eps, accesses := before }

/-- A walk that ends and keeps inside has met descriptors that are in order. -/
theorem descriptors_of_run (few : ifs ≤ USB_MAXINTERFACES)
    (ended : run (turn buffer total) fuel (walkAt place ifs eps before) = some final)
    (inside : ∀ access ∈ final, access.Inside size) : Descriptors buffer size total place ifs eps := by
  induction fuel generalizing place ifs eps before with
  | zero => cases ended
  | succ fuel ih =>
      by_cases more : place + 1 < total
      · by_cases interface : buffer (place + 1) = USB_DT_INTERFACE
        · obtain ⟨all, rest⟩ :=
            run_go_on (@turn_interface buffer total (walkAt place ifs eps before) more interface) ended inside
          obtain ⟨head, there, room, fits⟩ := interface_inside.mp all
          exact .interface head interface there room fits (ih room rest)
        · by_cases endpoint : buffer (place + 1) = USB_DT_ENDPOINT
          · obtain ⟨all, rest⟩ :=
              run_go_on (@turn_endpoint buffer total (walkAt place ifs eps before) more endpoint) ended inside
            obtain ⟨head, there, owner, room, fits⟩ := (endpoint_inside few).mp all
            exact .endpoint head endpoint there owner room fits (ih few rest)
          · by_cases none : buffer place = 0
            · have step :=
                @turn_empty buffer total (walkAt place ifs eps before) more none interface endpoint
              have last := ends_unique ⟨fuel + 1, ended⟩ (ends_done step)
              subst last
              have head := inside _ (List.mem_append_right _ (List.mem_singleton_self _))
              exact .empty (read_inside.mp head) none interface endpoint
            · obtain ⟨all, rest⟩ := run_go_on
                (@turn_other buffer total (walkAt place ifs eps before) more none interface endpoint)
                ended inside
              have head := read_inside.mp (all _ (List.mem_singleton_self _))
              exact .other head interface endpoint (ih few rest)
      · exact .done (Nat.le_of_not_lt more)

/-- Behind a turn that keeps inside the walk goes on with what is left. -/
theorem ends_go_on {walk next : Walk} {accesses : List Access}
    (goes : turn buffer total walk = goOn walk next accesses)
    (all : ∀ access ∈ accesses, access.Inside size)
    (inside : ∀ access ∈ walk.accesses, access.Inside size)
    (rest : ∀ before, (∀ access ∈ before, access.Inside size) →
      ∃ final, Ends (turn buffer total) { next with accesses := before } final ∧
        ∀ access ∈ final, access.Inside size) :
    ∃ final, Ends (turn buffer total) walk final ∧ ∀ access ∈ final, access.Inside size := by
  obtain ⟨final, ended, kept⟩ := rest (walk.accesses ++ accesses)
    (List.forall_mem_append.mpr ⟨inside, all⟩)
  exact ⟨final, ends_step (goes.trans (go_on_inside all)) ended, kept⟩

/-- Descriptors that are in order end the walk, with all its accesses inside. -/
theorem run_of_descriptors (few : ifs ≤ USB_MAXINTERFACES)
    (inside : ∀ access ∈ before, access.Inside size)
    (descriptors : Descriptors buffer size total place ifs eps) :
    ∃ final, Ends (turn buffer total) (walkAt place ifs eps before) final ∧
      ∀ access ∈ final, access.Inside size := by
  induction descriptors generalizing before with
  | done ended => exact ⟨before, ends_done (turn_done ended), inside⟩
  | @empty place ifs eps head none noInterface noEndpoint =>
      by_cases more : place + 1 < total
      · refine ⟨before ++ [.read place 2], ends_done (turn_empty more none noInterface noEndpoint), ?_⟩
        refine List.forall_mem_append.mpr ⟨inside, List.forall_mem_singleton.mpr ?_⟩
        exact read_inside.mpr head
      · exact ⟨before, ends_done (turn_done (Nat.le_of_not_lt more)), inside⟩
  | @other place ifs eps head noInterface noEndpoint _ ih =>
      by_cases more : place + 1 < total
      · by_cases none : buffer place = 0
        · refine ⟨before ++ [.read place 2], ends_done (turn_empty more none noInterface noEndpoint), ?_⟩
          refine List.forall_mem_append.mpr ⟨inside, List.forall_mem_singleton.mpr ?_⟩
          exact read_inside.mpr head
        · refine ends_go_on (turn_other more none noInterface noEndpoint) ?_ inside
            fun later all => ih few all
          exact List.forall_mem_singleton.mpr (read_inside.mpr head)
      · exact ⟨before, ends_done (turn_done (Nat.le_of_not_lt more)), inside⟩
  | @interface place ifs eps head type there room fits _ ih =>
      by_cases more : place + 1 < total
      · refine ends_go_on (turn_interface more type) ?_ inside fun later all => ih room all
        exact interface_inside.mpr ⟨head, there, room, fits⟩
      · exact ⟨before, ends_done (turn_done (Nat.le_of_not_lt more)), inside⟩
  | @endpoint place ifs eps head type there owner room fits _ ih =>
      by_cases more : place + 1 < total
      · refine ends_go_on (turn_endpoint more type) ?_ inside fun later all => ih few all
        exact (endpoint_inside few).mpr ⟨head, there, owner, room, fits⟩
      · exact ⟨before, ends_done (turn_done (Nat.le_of_not_lt more)), inside⟩

end Walks

/-- A configuration descriptor whose header is in the buffer, with descriptors in order behind it, as
far as its total length. -/
structure Configured (config buffer : Nat → UInt8) (size : Nat) : Prop where
  head : 2 ≤ size
  there : buffer 1 = USB_DT_CONFIG → (buffer 0).toNat ≤ size
  descriptors : buffer 1 = USB_DT_CONFIG → Descriptors buffer size
    (wTotalLength (copied config buffer)) (copied config buffer 0).toNat 0 0

theorem parse_config_iff (config buffer : Nat → UInt8) (size : Nat) :
    Safe config buffer size ↔ Configured config buffer size := by
  by_cases configuration : buffer 1 = USB_DT_CONFIG
  · have short : (buffer 0).toNat ≤ configSize := by
      have byte := (buffer 0).toNat_lt
      unfold configSize
      omega
    have start : (∀ access ∈ [Access.read 1 1, .read 0 1, .read 0 (buffer 0).toNat,
        .header 0 (buffer 0).toNat, .header 2 2, .header 9 1], access.Inside size) ↔
          2 ≤ size ∧ (buffer 0).toNat ≤ size := by
      have header : ∀ place len, place + len ≤ configSize → (Access.header place len).Inside size :=
        fun _ _ fits => ⟨fits, nofun⟩
      simp only [List.forall_mem_cons, read_inside, header 0 _ ((Nat.zero_add _).trans_le short),
        header 2 2 (by decide), header 9 1 (by decide), List.not_mem_nil, false_imp_iff, implies_true,
        and_true]
      omega
    constructor
    · rintro ⟨final, parsed, inside⟩
      rw [UsbParseConfig, if_neg (not_not_intro configuration)] at parsed
      obtain ⟨head, there⟩ := start.mp fun access member => inside access (accesses_kept parsed member)
      obtain ⟨fuel, ended⟩ := parsed
      exact ⟨head, fun _ => there, fun _ => descriptors_of_run (Nat.zero_le _) ended inside⟩
    · intro configured
      obtain ⟨final, ended, inside⟩ := run_of_descriptors (Nat.zero_le _)
        (start.mpr ⟨configured.head, configured.there configuration⟩)
        (configured.descriptors configuration)
      refine ⟨final, ?_, inside⟩
      rw [UsbParseConfig, if_neg (not_not_intro configuration)]
      exact ended
  · constructor
    · rintro ⟨final, parsed, inside⟩
      rw [UsbParseConfig, if_pos configuration] at parsed
      have head := inside (.read 1 1) (by rw [parsed]; exact List.mem_singleton_self _)
      exact ⟨read_inside.mp head, fun same => absurd same configuration,
        fun same => absurd same configuration⟩
    · intro configured
      refine ⟨[.read 1 1], ?_, List.forall_mem_singleton.mpr (read_inside.mpr configured.head)⟩
      rw [UsbParseConfig, if_pos configuration]

/-- What a device returns as its configuration is parsed inside the buffer and the arrays, and to an
end, exactly where its descriptors are in order. -/
theorem usb_parse_config_iff (device : Nat → Int × List UInt8) (stale config : Nat → UInt8)
    (size : Nat) :
    Safe config (usbGetConfigurationNo device stale).2 size ↔
      Configured config (usbGetConfigurationNo device stale).2 size :=
  parse_config_iff config _ size

/-- A configuration with an endpoint and no interface. -/
def endpointFirst : List UInt8 := [9, 2, 16, 0, 1, 1, 0, 0x80, 50, 7, 5, 0x81, 2, 64, 0, 0]

/-- Its endpoint is written in front of the interfaces. -/
theorem endpoint_before_interfaces :
    ¬Safe (fun _ => 0) (usbGetConfigurationNo (fun size => (size, endpointFirst)) fun _ => 0).2
      USB_BUFSIZ := by
  intro safe
  have configured := (parse_config_iff _ _ _).mp safe
  cases configured.descriptors (by decide) with
  | done ended => exact absurd ended (by decide)
  | empty _ none => exact absurd none (by decide)
  | other _ _ noEndpoint => exact absurd (by decide) noEndpoint
  | interface _ type => exact absurd type (by decide)
  | endpoint _ _ _ owner => exact absurd owner (by decide)

end UBoot.Usb.ParseConfig
