import UBoot.Usb.UsbStorage

/-!
The transports of usb_storage.c keep what a transfer has brought so far. A command
changes the buffer only with its own data, which comes one byte after the other,
whatever the device does; the sense data goes to a place of its own.
-/

namespace UBoot.Usb.UsbTransport

open Library.Programs UsbStorage

structure View where
  buffer : Nat → Option (Nat × Nat)
  filled : Nat
  log : List Attempt

/-- What a transfer leaves behind. -/
def view (host : Host) : View where
  buffer := host.buffer
  filled := host.filled
  log := host.log

/-! ### Programs that keep a property of the view -/

section Stable

variable {α β : Type} {keep : View → Prop}

def Stable (keep : View → Prop) (program : Program Host α) : Prop :=
  Triple (fun host => keep (view host)) program (fun _ host => keep (view host))

theorem stable_step {program : Program Host α} (step : Host → α × Host)
    (runs : ∀ host, program.run host = some (step host))
    (same : ∀ host, view (step host).2 = view host) : Stable keep program := by
  refine triple_step step runs fun host holds => ?_
  rw [same]
  exact holds

theorem stable_pure (value : α) : Stable keep (pure value) :=
  triple_pure value fun _ host => keep (view host)

theorem stable_none : Stable keep (fun _ => none : Program Host α) :=
  triple_none _ _

theorem stable_bind {first : Program Host α} {rest : α → Program Host β}
    (one : Stable keep first) (other : ∀ value, Stable keep (rest value)) :
    Stable keep (first >>= rest) :=
  triple_bind one other

theorem stable_ite {condition : Prop} [Decidable condition] {yes no : Program Host α}
    (taken : Stable keep yes) (left : Stable keep no) :
    Stable keep (if condition then yes else no) :=
  triple_ite (fun _ => taken) (fun _ => left)

variable (answers : Nat → Answer)

theorem controlMsg_stable : Stable keep (controlMsg answers) :=
  stable_step (fun _ => (_, _)) (fun _ => rfl) (fun _ => rfl)

theorem sendCommand_stable (cmd : List UInt8) : Stable keep (sendCommand answers cmd) :=
  stable_step (fun _ => (_, _)) (fun _ => rfl) (fun _ => rfl)

theorem bulkCsw_stable : Stable keep (bulkCsw answers) :=
  stable_step (fun _ => (_, _)) (fun _ => rfl) (fun _ => rfl)

theorem getStatus_stable : Stable keep getStatus :=
  stable_step (fun _ => (_, _)) (fun _ => rfl) (fun _ => rfl)

theorem putStatus_stable (status : UInt32) : Stable keep (putStatus status) :=
  stable_step (fun _ => (_, _)) (fun _ => rfl) (fun _ => rfl)

theorem takeTag_stable : Stable keep takeTag :=
  stable_step (fun _ => (_, _)) (fun _ => rfl) (fun _ => rfl)

theorem getIpData_stable : Stable keep getIpData :=
  stable_step (fun _ => (_, _)) (fun _ => rfl) (fun _ => rfl)

theorem putSense_stable : Stable keep putSense :=
  stable_step (fun _ => (_, _)) (fun _ => rfl) (fun _ => rfl)

theorem getSense_stable (place : Nat) : Stable keep (getSense place) :=
  stable_step (fun _ => (_, _)) (fun _ => rfl) (fun _ => rfl)

theorem waitInterrupt_stable : Stable keep (waitInterrupt answers) := by
  intro host value next holds ended
  unfold waitInterrupt at ended
  cases came : (answers host.messages).interrupt with
  | none =>
      simp only [StateT.run, came, Option.some.injEq, Prod.mk.injEq] at ended
      rw [← ended.2]
      exact holds
  | some data =>
      simp only [StateT.run, came, Option.some.injEq, Prod.mk.injEq] at ended
      rw [← ended.2]
      exact holds

theorem usbStorBBBReset_stable : Stable keep (usbStorBBBReset answers) := by
  refine stable_bind (controlMsg_stable answers) fun result => ?_
  refine stable_bind getStatus_stable fun status => ?_
  refine stable_ite (stable_pure _) ?_
  refine stable_bind (controlMsg_stable answers) fun _ => ?_
  exact stable_bind (controlMsg_stable answers) fun _ => stable_pure _

theorem failAfterReset_stable : Stable keep (failAfterReset answers) :=
  stable_bind (usbStorBBBReset_stable answers) fun _ => stable_pure _

theorem bbbStatus_stable : Stable keep (bbbStatus answers) := by
  refine stable_bind (bulkCsw_stable answers) ?_
  rintro ⟨result, csw⟩
  refine stable_bind getStatus_stable fun status => ?_
  refine stable_ite ?_ (stable_ite (stable_pure _) (stable_pure _))
  refine stable_bind (controlMsg_stable answers) fun cleared => ?_
  refine stable_ite ?_ (stable_pure _)
  refine stable_bind (bulkCsw_stable answers) ?_
  rintro ⟨result, csw⟩
  exact stable_ite (stable_pure _) (stable_pure _)

theorem usbStorCBReset_stable : Stable keep (usbStorCBReset answers) := by
  refine stable_bind (sendCommand_stable answers _) fun _ => ?_
  refine stable_bind (controlMsg_stable answers) fun _ => ?_
  exact stable_bind (controlMsg_stable answers) fun _ => stable_pure _

variable (us : UsData)

theorem usbStorCBIGetStatus_stable (srb : Ccb) :
    Stable keep (usbStorCBIGetStatus us answers srb) := by
  refine stable_bind (waitInterrupt_stable answers) fun came => ?_
  refine stable_ite ?_ (stable_pure _)
  refine stable_bind getIpData_stable fun ipData => ?_
  refine stable_ite ?_ ?_
  · exact stable_ite (stable_pure _) (stable_ite (stable_pure _) (stable_pure _))
  · exact stable_ite (stable_pure _) (stable_ite (stable_pure _) (stable_pure _))

theorem interruptResult_stable (srb : Ccb) : Stable keep (interruptResult us answers srb) := by
  refine stable_ite ?_ (stable_pure _)
  refine stable_bind (usbStorCBIGetStatus_stable answers us srb) fun status => ?_
  refine stable_ite (stable_pure _) ?_
  refine stable_bind putSense_stable fun _ => ?_
  refine stable_bind getIpData_stable fun ipData => ?_
  exact stable_ite (stable_pure _) (stable_pure _)

theorem autoInterrupt_stable : Stable keep (autoInterrupt us answers) := by
  refine stable_ite ?_ (stable_pure _)
  exact stable_bind (usbStorCBIGetStatus_stable answers us _) fun _ => stable_pure _

end Stable

/-! ### The data of a command -/

theorem add_add (pointer : Pointer) (k n : Nat) :
    (pointer.add k).add n = pointer.add (k + n) := by
  cases pointer with
  | buffer offset => simp only [Pointer.add, Nat.add_assoc]
  | sense offset => simp only [Pointer.add, Nat.add_assoc]

theorem add_zero (pointer : Pointer) : pointer.add 0 = pointer := by
  cases pointer <;> rfl

variable (us : UsData) (answers : Nat → Answer)

/-- A property of the view that follows the data of a command: `keep k` holds after `k` bytes of
it, wherever the next ones begin. -/
structure Follows (srb : Ccb) (keep : Nat → View → Prop) : Prop where
  comes : srb.datalen ≠ 0 → usDirection (srb.cmd.headD 0) = true
  stored : ∀ host k n sense, host.cdb = srb.cmd → host.position = k → k + n ≤ srb.datalen →
    keep k (view host) → keep (k + n) (view (host.store us (srb.pdata.add k) n sense))
  started : ∀ k v, keep k v → keep 0 v

/-- The device has sent `k` bytes for the command. -/
def Sent (srb : Ccb) (keep : Nat → View → Prop) (k : Nat) (host : Host) : Prop :=
  host.cdb = srb.cmd ∧ host.position = k ∧ keep k (view host)

variable {us} {srb : Ccb} {keep : Nat → View → Prop}

theorem sendCommand_sent :
    Triple (fun host => keep 0 (view host)) (sendCommand answers srb.cmd)
      (fun _ => Sent srb keep 0) :=
  triple_step (fun _ => (_, _)) (fun _ => rfl) fun _ holds => ⟨rfl, rfl, holds⟩

theorem store_cdb (host : Host) (pointer : Pointer) (n : Nat) (sense : Nat → UInt8) :
    (host.store us pointer n sense).cdb = host.cdb := by
  cases pointer <;> rfl

theorem bulkIn_sent (follows : Follows us srb keep) (k len : Nat) (fits : k + len ≤ srb.datalen) :
    Triple (Sent srb keep k) (bulkIn us answers (srb.pdata.add k) len)
      (fun result host => result.2 ≤ len ∧ Sent srb keep (k + result.2) host) := by
  refine triple_step (fun _ => (_, _)) (fun _ => rfl) ?_
  rintro host ⟨command, position, holds⟩
  have short : min (answers host.messages).actLen len ≤ len := Nat.min_le_right _ _
  refine ⟨short, (store_cdb host _ _ _).trans command, ?_, ?_⟩
  · exact congrArg (· + min (answers host.messages).actLen len) position
  · exact follows.stored host k _ _ command position
      (Nat.le_trans (Nat.add_le_add_left short k) fits) holds

theorem getStatus_sent (k : Nat) :
    Triple (Sent srb keep k) getStatus (fun _ => Sent srb keep k) :=
  triple_step (fun _ => (_, _)) (fun _ => rfl) fun _ sent => sent

/-- From the middle of the data on nothing but the property counts if no more data comes. -/
theorem triple_of_stable {α : Type} (follows : Follows us srb keep) {k : Nat}
    {program : Program Host α} (stable : Stable (keep 0) program) :
    Triple (Sent srb keep k) program (fun _ host => keep 0 (view host)) :=
  triple_weaken stable (fun _ sent => follows.started k _ sent.2.2) fun _ _ holds => holds

/-- What transferChunk leaves: all of the chunk was sent, or the transfer is at its end. -/
def ChunkSent (srb : Ccb) (keep : Nat → View → Prop) (k : Nat) :
    Pointer ⊕ Int → Host → Prop
  | .inl next, host => next = srb.pdata.add k ∧ Sent srb keep k host
  | .inr _, host => keep 0 (view host)

theorem stop_sent {k : Nat} (value : Int) :
    Triple (fun host => keep 0 (view host)) (pure (.inr value)) (ChunkSent srb keep k) :=
  triple_step (fun _ => (_, _)) (fun _ => rfl) fun _ holds => holds

theorem transferChunk_sent (follows : Follows us srb keep) (fuel : Nat) :
    ∀ k thisXfer maxtry, k + thisXfer ≤ srb.datalen →
      Triple (Sent srb keep k)
        (transferChunk us answers true fuel (srb.pdata.add k) thisXfer maxtry)
        (ChunkSent srb keep (k + thisXfer)) := by
  induction fuel with
  | zero => exact fun _ _ _ _ => triple_none _ _
  | succ fuel inductive_hypothesis =>
      intro k thisXfer maxtry fits
      refine triple_bind (bulkIn_sent answers follows k thisXfer fits) ?_
      rintro ⟨result, partialLen⟩
      refine triple_fact fun short => ?_
      replace short : partialLen ≤ thisXfer := short
      -- a way out with a value keeps the property
      have leave : ∀ value : Int, Triple (Sent srb keep (k + partialLen)) (pure (.inr value))
          (ChunkSent srb keep (k + thisXfer)) :=
        fun value => triple_weaken (stop_sent value)
          (fun _ sent => follows.started _ _ sent.2.2) fun _ _ holds => holds
      refine triple_bind (getStatus_sent _) fun status => ?_
      refine triple_ite (fun _ => ?_) (fun _ => ?_)
      · refine triple_bind (triple_of_stable follows (controlMsg_stable answers)) fun _ => ?_
        refine triple_bind (putStatus_stable status) fun _ => ?_
        exact triple_ite (fun _ => stop_sent 0) (fun _ => stop_sent result)
      · refine triple_ite (fun _ => leave result) (fun _ => ?_)
        refine triple_ite (fun _ => leave 0) (fun _ => ?_)
        refine triple_ite (fun _ => leave result) (fun _ => ?_)
        refine triple_ite (fun done => ?_) (fun more => ?_)
        · have whole : partialLen = thisXfer := by omega
          intro host result next sent ended
          cases ended
          rw [whole] at sent ⊢
          exact ⟨add_add _ _ _, sent⟩
        · have rest := inductive_hypothesis (k + partialLen) (thisXfer - partialLen)
            (if status ≠ 0 then maxtry - 1 else maxtry) (by omega)
          rw [show k + partialLen + (thisXfer - partialLen) = k + thisXfer by omega] at rest
          rw [add_add]
          exact rest

theorem usOneTransfer_sent (follows : Follows us srb keep) (fuel : Nat) :
    ∀ k length, k + length ≤ srb.datalen →
      Triple (Sent srb keep k) (usOneTransfer us answers true fuel (srb.pdata.add k) length)
        (fun _ host => keep 0 (view host)) := by
  induction fuel with
  | zero => exact fun _ _ _ => triple_none _ _
  | succ fuel inductive_hypothesis =>
      intro k length fits
      refine triple_ite (fun _ => triple_of_stable follows (stable_pure _)) (fun _ => ?_)
      have short : (if us.maxpacket true * 16 < length then us.maxpacket true * 16 else length)
          ≤ length := by
        split <;> omega
      refine triple_bind (transferChunk_sent answers follows (fuel + 1) k _ 10
        (Nat.le_trans (Nat.add_le_add_left short k) fits)) fun chunk => ?_
      cases chunk with
      | inr result => exact stable_pure result
      | inl next =>
          refine triple_fact fun place => ?_
          subst place
          exact inductive_hypothesis _ _ (by omega)

theorem usbStorCBComdat_stable (follows : Follows us srb keep) (fuel : Nat) :
    ∀ retry result, Stable (keep 0) (usbStorCBComdat us answers fuel srb retry result) := by
  intro retry
  induction retry with
  | zero => exact fun result => stable_pure result
  | succ retry inductive_hypothesis =>
      intro _
      refine triple_bind (sendCommand_sent answers) fun result => ?_
      refine triple_ite (fun _ => ?_) (fun _ => ?_)
      · refine triple_of_stable follows ?_
        refine stable_bind getStatus_stable fun status => ?_
        refine stable_ite ?_ (stable_pure _)
        refine stable_bind (controlMsg_stable answers) fun _ => ?_
        exact stable_bind (putStatus_stable status) fun _ => stable_pure _
      · refine triple_ite (fun _ => triple_of_stable follows (stable_pure _)) (fun data => ?_)
        rw [follows.comes data, ← add_zero srb.pdata]
        refine triple_bind (usOneTransfer_sent answers follows fuel 0 srb.datalen (by omega))
          fun result => ?_
        refine triple_bind getStatus_stable fun status => ?_
        exact triple_ite (fun _ => inductive_hypothesis result) (fun _ => stable_pure _)

theorem bbbData_stable (follows : Follows us srb keep) :
    Triple (Sent srb keep 0) (bbbData us answers srb) (fun _ host => keep 0 (view host)) := by
  refine triple_ite (fun _ => triple_of_stable follows (stable_pure _)) (fun data => ?_)
  rw [follows.comes data, ← add_zero srb.pdata]
  refine triple_bind (bulkIn_sent answers follows 0 srb.datalen (by omega)) ?_
  rintro ⟨result, dataActlen⟩
  refine triple_fact fun _ => triple_of_stable follows ?_
  refine stable_bind getStatus_stable fun status => ?_
  refine stable_ite ?_ (stable_ite (stable_pure _) (stable_pure _))
  refine stable_bind (controlMsg_stable answers) fun cleared => ?_
  exact stable_ite (stable_pure _) (stable_pure _)

theorem usbStorBBBTransport_stable (follows : Follows us srb keep) :
    Stable (keep 0) (usbStorBBBTransport us answers srb) := by
  refine triple_bind takeTag_stable fun tag => ?_
  refine triple_bind (sendCommand_sent answers) fun result => ?_
  refine triple_ite (fun _ => triple_of_stable follows (failAfterReset_stable answers))
    (fun _ => ?_)
  refine triple_bind (bbbData_stable answers follows) fun data => ?_
  cases data with
  | none => exact failAfterReset_stable answers
  | some dataActlen =>
      refine triple_bind (bbbStatus_stable answers) fun status => ?_
      cases status with
      | none => exact failAfterReset_stable answers
      | some wrapper =>
          have fail : Stable (keep 0) (failAfterReset answers) := failAfterReset_stable answers
          refine stable_ite fail (stable_ite fail (stable_ite fail (stable_ite fail ?_)))
          exact stable_ite (stable_pure _) (stable_ite (stable_pure _) (stable_pure _))

theorem requestSense_comes : usDirection SCSI_REQ_SENSE = true := by decide

/-- The sense data goes to a place of its own. -/
theorem sense_follows (all : View → Prop) : Follows us (senseCcb us) (fun _ => all) where
  comes := fun _ => requestSense_comes
  stored := fun _ _ _ _ _ _ _ holds => holds
  started := fun _ _ holds => holds

theorem ready_stored (all : View → Prop) (host : Host) (k n : Nat) (sense : Nat → UInt8)
    (fits : k + n ≤ (readyCcb us).datalen) (holds : all (view host)) :
    all (view (host.store us ((readyCcb us).pdata.add k) n sense)) := by
  have nothing : k + n = 0 := Nat.le_zero.mp fits
  obtain ⟨rfl, rfl⟩ := Nat.add_eq_zero_iff.mp nothing
  have same : view (host.store us ((readyCcb us).pdata.add 0) 0 sense) = view host := by
    simp [view, Host.store, readyCcb, Pointer.add]
  rw [same]
  exact holds

theorem ready_follows (all : View → Prop) : Follows us (readyCcb us) (fun _ => all) where
  comes := fun data => absurd rfl data
  stored := fun host k n sense _ _ fits holds => ready_stored all host k n sense fits holds
  started := fun _ _ holds => holds

theorem autoRequest_stable {all : View → Prop} (fuel : Nat) :
    Stable all (autoRequest us answers fuel) := by
  refine stable_bind (usbStorCBComdat_stable answers (sense_follows all) fuel 5 0) fun result => ?_
  refine stable_bind (autoInterrupt_stable answers us) fun _ => ?_
  refine stable_bind getStatus_stable fun status => ?_
  refine stable_ite (stable_pure _) ?_
  refine stable_bind (getSense_stable _) fun key => ?_
  refine stable_bind (getSense_stable _) fun asc => ?_
  refine stable_bind (getSense_stable _) fun ascq => ?_
  refine stable_ite (stable_pure _) (stable_ite (stable_pure _) ?_)
  exact stable_ite (stable_pure _) (stable_pure _)

theorem usbStorCBTransport_stable (follows : Follows us srb keep) (fuel : Nat) :
    ∀ retry notready, Stable (keep 0) (usbStorCBTransport us answers srb fuel retry notready) := by
  induction fuel with
  | zero => exact fun _ _ => stable_none
  | succ fuel inductive_hypothesis =>
      intro retry notready
      refine stable_bind (usbStorCBComdat_stable answers follows fuel 5 0) fun result => ?_
      refine stable_bind (interruptResult_stable answers us srb) fun interrupt => ?_
      cases interrupt with
      | some status => exact stable_pure _
      | none =>
          refine stable_bind getStatus_stable fun status => ?_
          refine stable_ite ?_ (stable_ite (stable_pure _) ?_)
          · exact stable_bind (usbStorCBReset_stable answers) fun _ => stable_pure _
          · refine stable_bind (autoRequest_stable answers fuel) fun sense => ?_
            cases sense with
            | result status => exact stable_pure _
            | notReady => exact stable_ite (stable_pure _) (inductive_hypothesis _ _)
            | unknown => exact stable_ite (stable_pure _) (inductive_hypothesis _ _)

theorem transport_stable (follows : Follows us srb keep) (fuel : Nat) :
    Stable (keep 0) (transport us answers fuel srb) := by
  unfold transport
  cases us.protocol with
  | bulk => exact usbStorBBBTransport_stable answers follows
  | cb => exact usbStorCBTransport_stable answers follows fuel 0 0
  | cbi => exact usbStorCBTransport_stable answers follows fuel 0 0

end UBoot.Usb.UsbTransport
