import UBoot.Usb.UsbTransport

/-!
What usb_stor_read leaves in the buffer. The blocks that it reports are all there
exactly if every READ(10) that was taken for good brought all of its data, or another
try at the same blocks did.
-/

namespace UBoot.Usb.UsbRead

open Library.Programs UsbStorage UsbTransport

/-! ### One READ(10) -/

section Read

variable (us : UsData) (blknr : UInt32)

/-- Where the byte of the buffer at `x` has to come from. -/
def wanted (x : Nat) : Nat × Nat :=
  ((blknr.toNat + x / us.blksz) % 2 ^ 32, x % us.blksz)

/-- The buffer holds the wanted data in a part of it, and nothing of the transfer elsewhere. -/
def Marks (part : Nat → Prop) (buffer : Nat → Option (Nat × Nat)) : Prop :=
  ∀ x, (part x → buffer x = some (wanted us blknr x)) ∧ (¬ part x → buffer x = none)

def Covered (log : List Attempt) (x : Nat) : Prop :=
  ∃ attempt ∈ log, attempt.offset ≤ x ∧ x < attempt.filled

/-- In an attempt at the data from `offset` on, `k` bytes of the command have come. -/
def Attempting (log : List Attempt) (offset asked k : Nat) (v : View) : Prop :=
  v.log = log ∧ offset + k ≤ v.filled ∧ v.filled ≤ offset + asked ∧
    Marks us blknr (fun x => Covered log x ∨ offset ≤ x ∧ x < v.filled) v.buffer

variable {us blknr}

theorem marks_congr {part other : Nat → Prop} {buffer : Nat → Option (Nat × Nat)}
    (same : ∀ x, part x ↔ other x) (marks : Marks us blknr part buffer) :
    Marks us blknr other buffer :=
  fun x => ⟨fun holds => (marks x).1 ((same x).mpr holds),
    fun fails => (marks x).2 fun holds => fails ((same x).mp holds)⟩

theorem be32_start (start : UInt32) (blocks offset : Nat) :
    be32 (readCcb us start blocks offset).cmd 2 = start.toNat := by
  have bound := start.toNat_lt
  simp only [be32, readCcb, List.getElem?_cons_succ, List.getElem?_cons_zero, Option.getD_some,
    UInt32.toNat_toUInt8, UInt32.toNat_shiftRight, Nat.shiftRight_eq_div_pow]
  simp
  omega

/-- `start` is the block that the data at `offset` has to come from. -/
def StartsAt (us : UsData) (blknr start : UInt32) (offset : Nat) : Prop :=
  us.blksz ∣ offset ∧ start.toNat = (blknr.toNat + offset / us.blksz) % 2 ^ 32

theorem mediumByte_wanted {start : UInt32} {offset : Nat} (starts : StartsAt us blknr start offset)
    (blocks x : Nat) (after : offset ≤ x) :
    mediumByte us (readCcb us start blocks offset).cmd (x - offset) = some (wanted us blknr x) := by
  obtain ⟨⟨q, rfl⟩, first⟩ := starts
  obtain ⟨y, rfl⟩ := Nat.exists_eq_add_of_le after
  have head : (readCcb us start blocks (us.blksz * q)).cmd.head? = some SCSI_READ10 := rfl
  unfold mediumByte wanted
  rw [if_pos head, be32_start, first, Nat.mul_div_cancel_left _ us.positive,
    Nat.add_sub_cancel_left, Nat.mul_add_div us.positive, Nat.mul_add_mod, Nat.mod_add_mod,
    Nat.add_assoc]

theorem read_stored {start : UInt32} {offset : Nat} (starts : StartsAt us blknr start offset)
    (blocks : Nat) (log : List Attempt) (host : Host) (k n : Nat) (sense : Nat → UInt8)
    (command : host.cdb = (readCcb us start blocks offset).cmd) (position : host.position = k)
    (fits : k + n ≤ us.blksz * blocks)
    (holds : Attempting us blknr log offset (us.blksz * blocks) k (view host)) :
    Attempting us blknr log offset (us.blksz * blocks) (k + n)
      (view (host.store us ((readCcb us start blocks offset).pdata.add k) n sense)) := by
  obtain ⟨logged, begun, ended, marks⟩ := holds
  have begun : offset + k ≤ host.filled := begun
  have ended : host.filled ≤ offset + us.blksz * blocks := ended
  refine ⟨logged, ?_, ?_, fun x => ?_⟩
  · show offset + (k + n) ≤ max host.filled (offset + k + n)
    omega
  · show max host.filled (offset + k + n) ≤ offset + us.blksz * blocks
    omega
  · show (Covered log x ∨ offset ≤ x ∧ x < max host.filled (offset + k + n) →
        (if offset + k ≤ x ∧ x < offset + k + n then
          mediumByte us host.cdb (host.position + (x - (offset + k))) else host.buffer x) = _) ∧
      (¬ (Covered log x ∨ offset ≤ x ∧ x < max host.filled (offset + k + n)) →
        (if offset + k ≤ x ∧ x < offset + k + n then
          mediumByte us host.cdb (host.position + (x - (offset + k))) else host.buffer x) = _)
    by_cases written : offset + k ≤ x ∧ x < offset + k + n
    · have place : host.position + (x - (offset + k)) = x - offset := by omega
      rw [if_pos written, command, place, mediumByte_wanted starts blocks x (by omega)]
      exact ⟨fun _ => rfl, fun outside => absurd (.inr (by omega)) outside⟩
    · rw [if_neg written]
      have same : x < max host.filled (offset + k + n) ∧ offset ≤ x ↔
          x < host.filled ∧ offset ≤ x := by omega
      have old := marks x
      have old : (Covered log x ∨ offset ≤ x ∧ x < host.filled →
          host.buffer x = some (wanted us blknr x)) ∧
        (¬ (Covered log x ∨ offset ≤ x ∧ x < host.filled) → host.buffer x = none) := marks x
      rw [and_comm (a := offset ≤ x), same, and_comm (a := x < host.filled)]
      exact old

theorem read_comes : usDirection SCSI_READ10 = true := by decide

theorem read_follows {start : UInt32} {offset : Nat} (starts : StartsAt us blknr start offset)
    (blocks : Nat) (log : List Attempt) :
    Follows us (readCcb us start blocks offset)
      (Attempting us blknr log offset (us.blksz * blocks)) where
  comes := fun _ => read_comes
  stored := read_stored starts blocks log
  started := fun k _ holds =>
    ⟨holds.1, Nat.le_trans (Nat.add_le_add_left (Nat.zero_le k) offset) holds.2.1, holds.2.2⟩

end Read

/-! ### The attempts of a transfer -/

/-- The attempts so far, when the data up to `offset` is taken for read and `asked` bytes are read
next. -/
structure Reading (log : List Attempt) (offset asked : Nat) : Prop where
  bounds : ∀ attempt ∈ log, attempt.offset ≤ attempt.filled ∧
    attempt.filled ≤ attempt.offset + attempt.asked ∧ 0 < attempt.asked
  places : ∀ attempt ∈ log, attempt.offset + attempt.asked ≤ offset ∨
    attempt.offset = offset ∧ attempt.asked = asked
  goodOnes : ∀ attempt ∈ log, attempt.good → attempt.offset + attempt.asked ≤ offset
  apart : ∀ one ∈ log, ∀ other ∈ log, ∀ x, one.offset ≤ x → x < one.offset + one.asked →
    other.offset ≤ x → x < other.offset + other.asked → one.offset = other.offset
  tiled : ∀ x < offset, ∃ attempt ∈ log, attempt.good ∧ attempt.offset ≤ x ∧
    x < attempt.offset + attempt.asked

theorem reading_begin (asked : Nat) : Reading [] 0 asked where
  bounds := fun _ member => absurd member List.not_mem_nil
  places := fun _ member => absurd member List.not_mem_nil
  goodOnes := fun _ member => absurd member List.not_mem_nil
  apart := fun _ member => absurd member List.not_mem_nil
  tiled := fun _ before => absurd before (Nat.not_lt_zero _)

section Attempts

variable {log : List Attempt} {offset asked filled : Nat}

/-- Two attempts of which neither is older than `offset` begin at the same place. -/
theorem reading_apart (reading : Reading log offset asked) (new : Attempt)
    (place : new.offset = offset) (size : new.asked = asked) :
    ∀ one ∈ log ++ [new], ∀ other ∈ log ++ [new], ∀ x, one.offset ≤ x →
      x < one.offset + one.asked → other.offset ≤ x → x < other.offset + other.asked →
      one.offset = other.offset := by
  intro one oneIn other otherIn x low high low' high'
  rcases List.mem_append.mp oneIn with oneOld | oneNew <;>
    rcases List.mem_append.mp otherIn with otherOld | otherNew
  · exact reading.apart one oneOld other otherOld x low high low' high'
  · have same := List.mem_singleton.mp otherNew
    subst same
    have := reading.places one oneOld
    omega
  · have same := List.mem_singleton.mp oneNew
    subst same
    have := reading.places other otherOld
    omega
  · rw [List.mem_singleton.mp oneNew, List.mem_singleton.mp otherNew]

theorem reading_bounds (reading : Reading log offset asked) (positive : 0 < asked)
    (low : offset ≤ filled) (high : filled ≤ offset + asked) (good : Bool) :
    ∀ attempt ∈ log ++ [Attempt.mk offset asked filled good],
      attempt.offset ≤ attempt.filled ∧ attempt.filled ≤ attempt.offset + attempt.asked ∧
        0 < attempt.asked := by
  intro attempt member
  rcases List.mem_append.mp member with old | new
  · exact reading.bounds attempt old
  · rw [List.mem_singleton.mp new]
    exact ⟨low, high, positive⟩

/-- A failed attempt changes nothing of what is taken for read. -/
theorem reading_failed (reading : Reading log offset asked) (positive : 0 < asked)
    (low : offset ≤ filled) (high : filled ≤ offset + asked) :
    Reading (log ++ [Attempt.mk offset asked filled false]) offset asked where
  bounds := reading_bounds reading positive low high false
  places := by
    intro attempt member
    rcases List.mem_append.mp member with old | new
    · exact reading.places attempt old
    · rw [List.mem_singleton.mp new]
      exact .inr ⟨rfl, rfl⟩
  goodOnes := by
    intro attempt member good
    rcases List.mem_append.mp member with old | new
    · exact reading.goodOnes attempt old good
    · rw [List.mem_singleton.mp new] at good
      cases good
  apart := reading_apart reading _ rfl rfl
  tiled := by
    intro x before
    obtain ⟨attempt, member, rest⟩ := reading.tiled x before
    exact ⟨attempt, List.mem_append_left _ member, rest⟩

/-- After a good attempt the next data is read. -/
theorem reading_good (reading : Reading log offset asked) (positive : 0 < asked)
    (low : offset ≤ filled) (high : filled ≤ offset + asked) (next : Nat) :
    Reading (log ++ [Attempt.mk offset asked filled true]) (offset + asked) next where
  bounds := reading_bounds reading positive low high true
  places := by
    intro attempt member
    rcases List.mem_append.mp member with old | new
    · have place := reading.places attempt old
      omega
    · rw [List.mem_singleton.mp new]
      exact .inl (Nat.le_refl _)
  goodOnes := by
    intro attempt member _
    rcases List.mem_append.mp member with old | new
    · have place := reading.places attempt old
      omega
    · rw [List.mem_singleton.mp new]
  apart := reading_apart reading _ rfl rfl
  tiled := by
    intro x before
    by_cases earlier : x < offset
    · obtain ⟨attempt, member, rest⟩ := reading.tiled x earlier
      exact ⟨attempt, List.mem_append_left _ member, rest⟩
    · exact ⟨Attempt.mk offset asked filled true,
        List.mem_append_right _ (List.mem_singleton.mpr rfl), rfl, Nat.le_of_not_lt earlier, before⟩

/-- All is covered exactly if each good attempt brought its data, or another one at its place. -/
theorem covered_iff (reading : Reading log offset asked) :
    (∀ x < offset, Covered log x) ↔
      ∀ attempt ∈ log, attempt.good → ∃ other ∈ log, other.offset = attempt.offset ∧
        attempt.offset + attempt.asked ≤ other.filled := by
  constructor
  · intro covered attempt member good
    have bounds := reading.bounds attempt member
    have inside := reading.goodOnes attempt member good
    -- the last byte of the attempt was brought by some attempt
    obtain ⟨other, otherIn, low, high⟩ :=
      covered (attempt.offset + attempt.asked - 1) (by omega)
    have otherBounds := reading.bounds other otherIn
    have same := reading.apart other otherIn attempt member
      (attempt.offset + attempt.asked - 1) low (by omega) (by omega) (by omega)
    exact ⟨other, otherIn, same, by omega⟩
  · intro whole x before
    obtain ⟨attempt, member, good, low, high⟩ := reading.tiled x before
    obtain ⟨other, otherIn, same, far⟩ := whole attempt member good
    exact ⟨other, otherIn, by omega, by omega⟩

end Attempts

/-! ### The transfer -/

variable {us : UsData} {blknr : UInt32} (answers : Nat → Answer)

/-- The attempts so far are in order and the buffer holds what they brought. -/
def Chunk (us : UsData) (blknr : UInt32) (offset asked : Nat) (v : View) : Prop :=
  Reading v.log offset asked ∧ Marks us blknr (Covered v.log) v.buffer

theorem beginAttempt_chunk (log : List Attempt) (offset asked : Nat) :
    Triple (fun host => host.log = log ∧ Marks us blknr (Covered log) host.buffer)
      (beginAttempt offset) (fun _ host => Attempting us blknr log offset asked 0 (view host)) := by
  refine triple_step (fun _ => (_, _)) (fun _ => rfl) ?_
  rintro host ⟨logged, marks⟩
  refine ⟨logged, Nat.le_refl _, Nat.le_add_right _ _, ?_⟩
  refine marks_congr (fun x => ?_) marks
  show Covered log x ↔ Covered log x ∨ offset ≤ x ∧ x < offset
  have nothing : ¬ (offset ≤ x ∧ x < offset) := by omega
  exact (or_iff_left nothing).symm

/-- What an attempt leaves, by whether it was good. -/
def After (us : UsData) (blknr : UInt32) (offset asked : Nat) (good : Bool) (host : Host) : Prop :=
  match good with
  | true => ∀ next, Chunk us blknr (offset + asked) next (view host)
  | false => Chunk us blknr offset asked (view host)

theorem endAttempt_chunk {log : List Attempt} {offset asked : Nat}
    (reading : Reading log offset asked) (positive : 0 < asked) (good : Bool) :
    Triple (fun host => Attempting us blknr log offset asked 0 (view host))
      (endAttempt offset asked good) (fun _ => After us blknr offset asked good) := by
  refine triple_step (fun _ => (_, _)) (fun _ => rfl) ?_
  rintro host ⟨logged, low, high, marks⟩
  have logged : host.log = log := logged
  have marks : Marks us blknr (Covered (log ++ [Attempt.mk offset asked host.filled good]))
      host.buffer := by
    refine marks_congr (fun x => ?_) marks
    simp only [Covered, List.mem_append, List.mem_singleton, or_and_right, exists_or,
      exists_eq_left]
    rfl
  subst logged
  cases good with
  | false => exact ⟨reading_failed reading positive low high, marks⟩
  | true => exact fun next => ⟨reading_good reading positive low high next, marks⟩

theorem usbRead10_chunk {start : UInt32} {offset : Nat} (starts : StartsAt us blknr start offset)
    (fuel : Nat) {blocks : Nat} (some_blocks : 0 < blocks) :
    Triple (fun host => Chunk us blknr offset (us.blksz * blocks) (view host))
      (usbRead10 us answers fuel start blocks offset)
      (fun result => After us blknr offset (us.blksz * blocks) (decide (result = 0))) := by
  have positive : 0 < us.blksz * blocks := Nat.mul_pos us.positive some_blocks
  intro host result next holds
  obtain ⟨reading, marks⟩ := holds
  suffices read : Triple
      (fun first => first.log = host.log ∧ Marks us blknr (Covered host.log) first.buffer)
      (usbRead10 us answers fuel start blocks offset)
      (fun result => After us blknr offset (us.blksz * blocks) (decide (result = 0))) from
    read host result next ⟨rfl, marks⟩
  refine triple_bind (beginAttempt_chunk host.log offset (us.blksz * blocks)) fun _ => ?_
  refine triple_bind (transport_stable answers (read_follows starts blocks host.log) fuel)
    fun result => ?_
  refine triple_bind (endAttempt_chunk reading positive (decide (result = 0))) fun _ => ?_
  exact triple_pure result
    (fun result => After us blknr offset (us.blksz * blocks) (decide (result = 0)))

theorem usbRequestSense_stable {all : View → Prop} (fuel : Nat) :
    Stable all (usbRequestSense us answers fuel) :=
  stable_bind (transport_stable answers (sense_follows all) fuel) fun _ => stable_pure _

theorem usbTestUnitReady_stable {all : View → Prop} (fuel tries : Nat) :
    Stable all (usbTestUnitReady us answers fuel tries) := by
  induction tries with
  | zero => exact stable_pure _
  | succ tries inductive_hypothesis =>
      refine stable_bind (transport_stable answers (ready_follows all) fuel) fun result => ?_
      refine stable_ite (stable_pure _) ?_
      exact stable_bind (usbRequestSense_stable answers fuel) fun _ => inductive_hypothesis

theorem readChunk_chunk {start : UInt32} {offset : Nat} (starts : StartsAt us blknr start offset)
    (fuel : Nat) {blocks : Nat} (some_blocks : 0 < blocks) (tries : Nat) :
    Triple (fun host => Chunk us blknr offset (us.blksz * blocks) (view host))
      (readChunk us answers fuel start blocks offset tries)
      (After us blknr offset (us.blksz * blocks)) := by
  induction tries with
  | zero => exact triple_pure false (After us blknr offset (us.blksz * blocks))
  | succ tries inductive_hypothesis =>
      refine triple_bind (usbRead10_chunk answers starts fuel some_blocks) fun result => ?_
      refine triple_ite (fun good => ?_) (fun failed => ?_)
      · rw [decide_eq_true good]
        exact triple_pure true (After us blknr offset (us.blksz * blocks))
      · rw [decide_eq_false failed]
        have request : Stable (Chunk us blknr offset (us.blksz * blocks))
            (usbRequestSense us answers fuel) := usbRequestSense_stable answers fuel
        exact triple_bind request fun _ => inductive_hypothesis

theorem startsAt_next {start : UInt32} {offset : Nat} (starts : StartsAt us blknr start offset)
    {blocks : Nat} (few : blocks ≤ USB_MAX_READ_BLK) :
    StartsAt us blknr (start + UInt32.ofNat blocks) (offset + us.blksz * blocks) := by
  obtain ⟨whole, first⟩ := starts
  refine ⟨Nat.dvd_add whole (Nat.dvd_mul_right _ _), ?_⟩
  have small : blocks < 2 ^ 32 := Nat.lt_of_le_of_lt few (by decide)
  rw [UInt32.toNat_add, UInt32.toNat_ofNat_of_lt' small, first, Nat.add_mul_div_left _ _ us.positive,
    Nat.mod_add_mod, Nat.add_assoc]

/-- After the loop the blocks that are not left are taken for read. -/
def Read (us : UsData) (blknr : UInt32) (total left : Nat) (v : View) : Prop :=
  left ≤ total ∧ ∃ asked, Chunk us blknr ((total - left) * us.blksz) asked v

theorem readLoop_read (fuel : Nat) (total : Nat) :
    ∀ start blks offset, StartsAt us blknr start offset → 0 < blks → blks ≤ total →
      offset = (total - blks) * us.blksz →
      Triple (fun host => ∀ asked, Chunk us blknr offset asked (view host))
        (readLoop us answers fuel start blks offset)
        (fun left host => Read us blknr total left (view host)) := by
  induction fuel with
  | zero => exact fun _ _ _ _ _ _ _ => triple_none _ _
  | succ fuel inductive_hypothesis =>
      intro start blks offset starts some_blocks within place
      have positive : 0 < min blks USB_MAX_READ_BLK := Nat.lt_min.mpr ⟨some_blocks, by decide⟩
      have short : min blks USB_MAX_READ_BLK ≤ blks := Nat.min_le_left _ _
      have few : min blks USB_MAX_READ_BLK ≤ USB_MAX_READ_BLK := Nat.min_le_right _ _
      generalize smallblks_eq : min blks USB_MAX_READ_BLK = smallblks at positive short few
      have next_place : offset + us.blksz * smallblks = (total - (blks - smallblks)) * us.blksz := by
        rw [place, Nat.mul_comm us.blksz, ← Nat.add_mul]
        congr 1
        omega
      unfold readLoop
      simp only [smallblks_eq]
      refine triple_bind (triple_weaken (readChunk_chunk answers starts fuel positive 3)
        (fun _ holds => holds _) (fun _ _ holds => holds)) fun good => ?_
      refine triple_ite (fun was_good => ?_) (fun failed => ?_)
      · rw [was_good]
        refine triple_ite (fun done => ?_) (fun more => ?_)
        · have last : (total - 0) * us.blksz = offset + us.blksz * smallblks := by
            rw [next_place, done]
          refine triple_weaken
            (triple_pure 0 (fun left host => Read us blknr total left (view host)))
            (fun host holds => ⟨Nat.zero_le _, 0, ?_⟩) (fun _ _ holds => holds)
          rw [last]
          exact holds 0
        · exact inductive_hypothesis _ _ _ (startsAt_next starts few) (Nat.pos_of_ne_zero more)
            (Nat.le_trans (Nat.sub_le _ _) within) next_place
      · rw [Bool.not_eq_true _ |>.mp failed]
        refine triple_weaken
          (triple_pure blks (fun left host => Read us blknr total left (view host)))
          (fun host holds => ⟨within, us.blksz * smallblks, ?_⟩) (fun _ _ holds => holds)
        rw [← place]
        exact holds

/-! ### usb_stor_read -/

theorem beginTransfer_marks :
    Triple (fun _ => True) beginTransfer
      (fun _ host => ∀ asked, Chunk us blknr 0 asked (view host)) := by
  refine triple_step (fun _ => (_, _)) (fun _ => rfl) fun host _ asked => ?_
  refine ⟨reading_begin asked, fun x => ⟨?_, fun _ => rfl⟩⟩
  rintro ⟨attempt, member, _⟩
  exact absurd member List.not_mem_nil

/-- Each READ(10) that was taken for good brought all of its data, or another try at the same
blocks did. -/
def Whole (log : List Attempt) : Prop :=
  ∀ attempt ∈ log, attempt.good → ∃ other ∈ log, other.offset = attempt.offset ∧
    attempt.offset + attempt.asked ≤ other.filled

/-- What the first blocks of the buffer hold is told by the attempts. -/
def Told (us : UsData) (blknr : UInt32) (blocks : Nat) (host : Host) : Prop :=
  (∀ x < blocks * us.blksz, host.buffer x = some (wanted us blknr x)) ↔ Whole host.log

theorem chunk_told {blocks asked : Nat} {host : Host}
    (chunk : Chunk us blknr (blocks * us.blksz) asked (view host)) : Told us blknr blocks host := by
  obtain ⟨reading, marks⟩ := chunk
  refine Iff.trans (forall₂_congr fun x _ => ⟨fun holds => ?_, (marks x).1⟩) (covered_iff reading)
  by_contra outside
  have empty : host.buffer x = none := (marks x).2 outside
  rw [empty] at holds
  cases holds

theorem usbStorRead_told (fuel : Nat) (blknr blkcnt : UInt32) :
    Triple (fun _ => True) (usbStorRead (some us) answers fuel blknr blkcnt)
      (fun blocks => Told us blknr blocks) := by
  -- nothing was read
  have none_read : Triple (fun host => ∀ asked, Chunk us blknr 0 asked (view host)) (pure 0)
      (fun blocks => Told us blknr blocks) :=
    triple_weaken (triple_pure 0 fun blocks => Told us blknr blocks)
      (fun host holds => chunk_told (by rw [Nat.zero_mul]; exact holds 0)) (fun _ _ holds => holds)
  have begun : Triple (fun _ => True) beginTransfer
      (fun _ host => ∀ asked, Chunk us blknr 0 asked (view host)) := beginTransfer_marks
  refine triple_bind begun fun _ => ?_
  refine triple_ite (fun _ => none_read) (fun some_blocks => ?_)
  have ready : Stable (fun v => ∀ asked, Chunk us blknr 0 asked v)
      (usbTestUnitReady us answers fuel 11) := usbTestUnitReady_stable answers fuel 11
  refine triple_bind ready fun ready => ?_
  refine triple_ite (fun _ => ?_) (fun _ => none_read)
  have positive : 0 < blkcnt.toNat := by
    rw [Nat.pos_iff_ne_zero]
    exact fun zero => some_blocks (UInt32.toNat.inj zero)
  have starts : StartsAt us blknr blknr 0 := by
    refine ⟨Nat.dvd_zero _, ?_⟩
    rw [Nat.zero_div, Nat.add_zero, Nat.mod_eq_of_lt blknr.toNat_lt]
  refine triple_bind (readLoop_read answers fuel blkcnt.toNat blknr blkcnt.toNat 0 starts positive
    (Nat.le_refl _) (by rw [Nat.sub_self, Nat.zero_mul])) fun left => ?_
  refine triple_weaken (triple_pure _ fun blocks => Told us blknr blocks) ?_ (fun _ _ holds => holds)
  rintro host ⟨_, asked, chunk⟩
  exact chunk_told chunk

theorem stick_positive : 0 < 512 := by decide

theorem stick_small : 20 * 512 < 2 ^ 31 := by decide

/-- A bulk-only disk whose command status wrappers carry the tags of two commands. -/
def stickData : UsData where
  protocol := .bulk
  ufi := false
  lun := 0
  blksz := 512
  maxpacket := fun _ => 64
  positive := stick_positive
  small := stick_small

/-- It sends `len` bytes in answer to the first READ(10). -/
def stick (len : Nat) (message : Nat) : Answer where
  status := 0
  actLen := len
  sense := fun _ => 0
  csw := { signature := CSWSIGNATURE, tag := if message = 1 then 0 else 1, residue := 0, status := 0 }
  interrupt := none

def bootHost : Host where
  messages := 0
  status := 0
  cdb := []
  position := 0
  buffer := fun _ => none
  senseBuf := fun _ => 0
  ipData := 0
  cbwTag := 0
  filled := 0
  log := []

/-- The end of the transfer of a block from the stick. -/
def stickRead (len : Nat) : Option (Nat × Host) :=
  (usbStorRead (some stickData) (stick len) 3 7 1).run bootHost

end UBoot.Usb.UsbRead
