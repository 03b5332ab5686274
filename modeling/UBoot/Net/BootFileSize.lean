import UBoot.Net.BootpOptions

/-!
What BootpVendorProcess makes of NetBootFileSize. Each field that is processed sets it
anew, and it is a ushort; so it depends on the last field of the vendor area alone.
-/

namespace UBoot.Net.BootFileSize

open Library.OptionArea NetReceive BootpOptions

/-- The value of a boot file size field, in either of its encodings. -/
def statedSize (pkt : Buffer) (option : OptionAt) : Option Nat :=
  if option.code = 13 then
    if option.length = 2 then some (be16 pkt (option.at_ + 2))
    else if option.length = 4 then some (be32 pkt (option.at_ + 2))
    else none
  else none

/-- The value of the last boot file size field; without one, what was there before. -/
def expectedSize (pkt : Buffer) (fields : List OptionAt) (before : Nat) : Nat :=
  (fields.filterMap (statedSize pkt)).getLast?.getD before

/-- The last field is a boot file size that a ushort holds; or the expected size is 0. -/
def KeepsSize (pkt : Buffer) (fields : List OptionAt) (before : Nat) : Prop :=
  match fields.getLast? with
  | none => True
  | some last =>
      match statedSize pkt last with
      | some value => value < 2 ^ 16
      | none => expectedSize pkt fields before = 0

/-- What one field leaves does not depend on what was there before. -/
theorem field_size (pkt : Buffer) (ext : Nat) (before : NetParams) :
    (bootpVendorFieldProcess pkt ext before).netBootFileSize =
      ((statedSize pkt (optionAt pkt ext)).getD 0) % 2 ^ 16 := by
  by_cases size : pkt ext = 13
  · have code : (pkt ext).toNat = 13 := by rw [size]; rfl
    unfold bootpVendorFieldProcess statedSize optionAt
    dsimp only
    rw [code, if_pos size]
    by_cases two : (pkt (ext + 1)).toNat = 2
    · rw [if_pos two, if_pos two]
      exact (Nat.mod_eq_of_lt (be16_lt pkt _)).symm
    · rw [if_neg two, if_neg two]
      by_cases four : (pkt (ext + 1)).toNat = 4
      · rw [if_pos four, if_pos four]
        rfl
      · rw [if_neg four, if_neg four]
        rfl
  · have code : (pkt ext).toNat ≠ 13 := fun same => size (UInt8.toNat.inj same)
    have nothing : statedSize pkt (optionAt pkt ext) = none := if_neg size
    rw [nothing]
    unfold bootpVendorFieldProcess
    dsimp only
    split
    · split <;> rfl
    · split <;> rfl
    · split <;> rfl
    · split <;> rfl
    · next same => exact absurd same code
    · split <;> rfl
    · split <;> rfl
    · rfl

theorem walk_read (pkt : Buffer) (end_ fuel : Nat) : ∀ ext, ∀ option ∈ walk pkt end_ fuel ext,
    option = optionAt pkt option.at_ := by
  induction fuel with
  | zero => exact fun _ _ member => absurd member List.not_mem_nil
  | succ fuel inductive_hypothesis =>
      intro ext option member
      rw [walk] at member
      split at member
      · exact absurd member List.not_mem_nil
      split at member
      · exact absurd member List.not_mem_nil
      split at member
      · exact inductive_hypothesis _ option member
      split at member
      · rcases List.mem_cons.mp member with rfl | later
        · rfl
        · exact inductive_hypothesis _ option later
      · exact absurd member List.not_mem_nil

/-- The fields that are processed, one after the other. -/
theorem process_walk (pkt : Buffer) (end_ fuel : Nat) : ∀ ext params,
    bootpVendorProcess pkt end_ fuel ext params =
      (walk pkt end_ fuel ext).foldl
        (fun params option => bootpVendorFieldProcess pkt option.at_ params) params := by
  induction fuel with
  | zero => exact fun _ _ => rfl
  | succ fuel inductive_hypothesis =>
      intro ext params
      rw [bootpVendorProcess, walk]
      by_cases past : end_ ≤ ext
      · rw [if_pos past, if_neg (fun both => absurd both.1 (Nat.not_lt.mpr past))]
        rfl
      rw [if_neg past]
      by_cases closes : pkt ext = 255
      · rw [if_pos closes, if_neg (fun both => both.2 closes)]
        rfl
      rw [if_neg closes, if_pos ⟨Nat.not_le.mp past, closes⟩]
      by_cases pad : pkt ext = 0
      · rw [if_pos pad, if_pos pad, inductive_hypothesis]
      rw [if_neg pad, if_neg pad]
      by_cases inside : (optionAt pkt ext).next ≤ end_
      · rw [if_pos inside, if_pos inside, inductive_hypothesis]
        rfl
      · -- behind a field that is cut off the loop ends
        rw [if_neg inside, if_neg inside, inductive_hypothesis,
          walk_past fuel (Nat.le_of_not_le inside)]

theorem fold_size (pkt : Buffer) (fields : List OptionAt)
    (there : ∀ option ∈ fields, option = optionAt pkt option.at_) (params : NetParams) :
    (fields.foldl (fun params option => bootpVendorFieldProcess pkt option.at_ params)
      params).netBootFileSize =
        match fields.getLast? with
        | none => params.netBootFileSize
        | some last => (statedSize pkt last).getD 0 % 2 ^ 16 := by
  rcases fields.eq_nil_or_concat with rfl | ⟨front, last, rfl⟩
  · rfl
  · rw [List.concat_eq_append] at there ⊢
    rw [List.foldl_concat, List.getLast?_concat, field_size,
      ← there last (List.mem_append_right _ List.mem_cons_self)]

theorem expected_last {pkt : Buffer} {fields : List OptionAt} {last : OptionAt} {value : Nat}
    (final : fields.getLast? = some last) (stated : statedSize pkt last = some value) (before : Nat) :
    expectedSize pkt fields before = value := by
  obtain ⟨front, rfl⟩ := List.getLast?_eq_some_iff.mp final
  unfold expectedSize
  rw [List.filterMap_append, List.filterMap_cons_some stated, List.filterMap_nil,
    List.getLast?_concat, Option.getD_some]

/-- NetBootFileSize is the last boot file size of the vendor area exactly when no field behind it,
and no upper half of it, was there to be lost. -/
theorem boot_file_size_iff (pkt : Buffer) (ext size : Nat) (params : NetParams) :
    (bootpVendorProcess pkt (ext + size) size ext params).netBootFileSize =
        expectedSize pkt (options pkt (ext + size) ext) params.netBootFileSize ↔
      KeepsSize pkt (options pkt (ext + size) ext) params.netBootFileSize := by
  have same : walk pkt (ext + size) size ext = options pkt (ext + size) ext :=
    walk_fuel size (by omega)
  have there := walk_read pkt (ext + size) size ext
  rw [same] at there
  rw [process_walk, same, fold_size pkt _ there]
  unfold KeepsSize
  cases final : (options pkt (ext + size) ext).getLast? with
  | none =>
      have nothing : options pkt (ext + size) ext = [] := List.getLast?_eq_none_iff.mp final
      rw [nothing]
      exact iff_true_intro rfl
  | some last =>
      dsimp only
      cases stated : statedSize pkt last with
      | some value =>
          rw [expected_last final stated, Option.getD_some]
          exact Nat.mod_eq_iff_lt (by decide)
      | none =>
          rw [Option.getD_none, Nat.zero_mod]
          exact eq_comm

/-- A size of 1024 blocks with a subnet mask behind it. -/
def sizeThenMask : Buffer := fun i => [13, 2, 4, 0, 1, 4, 255, 255, 255, 0, 255].getD i 0

def clearParams : NetParams where
  netOurSubnetMask := 0
  netOurGatewayIP := 0
  netOurDNSIP := 0
  netOurHostName := fun _ => 0
  netOurRootPath := fun _ => 0
  netOurNISDomain := fun _ => 0
  netBootFileSize := 0
  dhcpLeasetime := 0
  netDHCPServerIP := 0
  bpFile := fun _ => 0

/-- The mask takes the size away. -/
theorem mask_clears_size :
    expectedSize sizeThenMask (options sizeThenMask 11 0) 0 = 1024 ∧
      (bootpVendorProcess sizeThenMask 11 11 0 clearParams).netBootFileSize = 0 := by
  decide +kernel

end UBoot.Net.BootFileSize
