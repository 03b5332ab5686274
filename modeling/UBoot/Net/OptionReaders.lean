import UBoot.Net.BootpOptions

/-!
What the three readers of the vendor area take, against the options that the
area holds. A reader is exact when it takes the options of the area in order,
copies no byte that is not in the option, looks at no byte behind the packet,
and leaves the same behind whatever the receive buffer holds there.
-/

namespace UBoot.Net.OptionReaders

open Library.Memory Library.OptionArea NetReceive BootpOptions

structure Exact (reading : Reading) (len : Nat) (area : List OptionAt) : Prop where
  taken : reading.taken.map Prod.fst = area
  inside : ∀ entry ∈ reading.taken, entry.2 ≤ entry.1.length
  received : ∀ i ∈ reading.examined, i < len

structure ReadsExactly {Result : Type} (len : Nat) (area : List OptionAt)
    (reader : Buffer → Result × Reading) (pkt : Buffer) : Prop where
  exact_ : Exact (reader pkt).2 len area
  alone : ∀ other, (∀ i, i < len → other i = pkt i) → reader other = reader pkt

/-- The vendor area of a packet that BootpCheckPkt lets through: `inner` behind the cookie. -/
def vendorRead {Result : Type} (len : Nat) (start : Result) (inner : Buffer → Result × Reading)
    (pkt : Buffer) : Result × Reading :=
  if len < bpVend then (start, ⟨[], []⟩)
  else if be32 pkt bpVend = bootpVendorMagic then
    ((inner pkt).1, ⟨(inner pkt).2.taken, List.range' bpVend 4 ++ (inner pkt).2.examined⟩)
  else (start, ⟨[], List.range' bpVend 4⟩)

def dhcpInner (params : NetParams) (pkt : Buffer) : NetParams × Reading :=
  (dhcpOptionsProcess pkt bootpHdrSize (bpVend + 4) params,
    dhcpReading pkt bootpHdrSize (bpVend + 4) params)

def messageInner (ram : Nat) (pkt : Buffer) : Option Int × Reading :=
  (messageScan ram pkt ram (bpVend + 4), messageReading ram pkt ram (bpVend + 4))

/-- BootpVendorProcess gets the length of the whole packet for the length of the area. -/
def bootpInner (len : Nat) (params : NetParams) (pkt : Buffer) : NetParams × Reading :=
  (bootpVendorProcess pkt (bpVend + 4 + len) len (bpVend + 4) params,
    bootpReading pkt (bpVend + 4 + len) len (bpVend + 4) params)

/-- The options of the received vendor area. -/
def vendorOptions (pkt : Buffer) (len : Nat) : List OptionAt :=
  if bpVend + 4 ≤ len ∧ be32 pkt bpVend = bootpVendorMagic then options pkt len (bpVend + 4) else []

/-- The options up to the message type. -/
def upToType : List OptionAt → List OptionAt
  | [] => []
  | option :: rest => if option.code = 53 then [option] else option :: upToType rest

/-- The shortest option that dhcpOption can read. -/
def dhcpMinimum (code : UInt8) : Nat :=
  match code.toNat with
  | 1 | 3 | 6 | 51 | 54 => 4
  | _ => 0

/-- No padding, and a received end behind whole options, or nothing more behind the 548th byte. -/
inductive DhcpPlain (pkt : Buffer) (len : Nat) : Nat → Prop where
  | beyond {popt : Nat} (past : dhcpEnd ≤ popt) (rest : options pkt len popt = []) :
      DhcpPlain pkt len popt
  | closes {popt : Nat} (before : popt < dhcpEnd) (received : popt < len) (code : pkt popt = 255) :
      DhcpPlain pkt len popt
  | option {popt : Nat} (before : popt < dhcpEnd) (code : pkt popt ≠ 255 ∧ pkt popt ≠ 0)
      (whole : (optionAt pkt popt).next ≤ len)
      (long : dhcpMinimum (pkt popt) ≤ (optionAt pkt popt).length)
      (rest : DhcpPlain pkt len (optionAt pkt popt).next) : DhcpPlain pkt len popt

/-- No padding, and a received end or a whole message type behind whole options. -/
inductive MessagePlain (pkt : Buffer) (len : Nat) : Nat → Prop where
  | closes {popt : Nat} (received : popt < len) (code : pkt popt = 255) : MessagePlain pkt len popt
  | type {popt : Nat} (code : pkt popt = 53) (whole : (optionAt pkt popt).next ≤ len)
      (long : 1 ≤ (optionAt pkt popt).length) : MessagePlain pkt len popt
  | option {popt : Nat} (code : pkt popt ≠ 255 ∧ pkt popt ≠ 0) (other : pkt popt ≠ 53)
      (whole : (optionAt pkt popt).next ≤ len)
      (rest : MessagePlain pkt len (optionAt pkt popt).next) : MessagePlain pkt len popt

/-- A received end behind whole options, or a last option that is cut off and claims to run past
the end that the reader was given. -/
inductive BootpPlain (pkt : Buffer) (len : Nat) : Nat → NetParams → Prop where
  | beyond {ext : Nat} {params : NetParams} (past : bpVend + 4 + len ≤ ext) :
      BootpPlain pkt len ext params
  | closes {ext : Nat} {params : NetParams} (received : ext < len) (code : pkt ext = 255) :
      BootpPlain pkt len ext params
  | pad {ext : Nat} {params : NetParams} (received : ext < len) (code : pkt ext = 0)
      (rest : BootpPlain pkt len (ext + 1) params) : BootpPlain pkt len ext params
  | option {ext : Nat} {params : NetParams} (code : pkt ext ≠ 255 ∧ pkt ext ≠ 0)
      (whole : (optionAt pkt ext).next ≤ len)
      (long : bootpCopied pkt ext params ≤ (optionAt pkt ext).length)
      (rest : BootpPlain pkt len (optionAt pkt ext).next (bootpVendorFieldProcess pkt ext params)) :
      BootpPlain pkt len ext params
  | cut {ext : Nat} {params : NetParams} (code : pkt ext ≠ 255 ∧ pkt ext ≠ 0)
      (received : ext + 1 < len) (far : bpVend + 4 + len < (optionAt pkt ext).next) :
      BootpPlain pkt len ext params

/-- A packet whose vendor area is plain, or one without options, or one that is dropped. -/
def Readable (pkt : Buffer) (len : Nat) (plain : Prop) : Prop :=
  len < bpVend ∨ bpVend + 4 ≤ len ∧ (be32 pkt bpVend = bootpVendorMagic → plain)

section Area
variable {pkt : Buffer} {len : Nat}

/-- An option that starts the area is no padding and whole. -/
theorem head_option {popt : Nat} (code : pkt popt ≠ 255)
    (head : (options pkt len popt).head? = some (optionAt pkt popt)) :
    pkt popt ≠ 0 ∧ (optionAt pkt popt).next ≤ len := by
  by_cases past : len ≤ popt
  · rw [options_past past] at head
    cases head
  have inside := Nat.lt_of_not_le past
  have filled : pkt popt ≠ 0 := by
    intro pad
    rw [options_pad inside pad] at head
    have later := options_forward (List.mem_of_mem_head? head)
    exact Nat.not_succ_le_self popt later
  refine ⟨filled, ?_⟩
  by_contra cut
  rw [options_cut ⟨code, filled⟩ cut] at head
  cases head

theorem exact_option {option : OptionAt} {copied : Nat} {rest : Reading} {area : List OptionAt}
    (whole : option.next ≤ len) (long : copied ≤ option.length) (exact_ : Exact rest len area) :
    Exact ⟨(option, copied) :: rest.taken,
      option.at_ :: (option.at_ + 1) :: (List.range' (option.at_ + 2) copied ++ rest.examined)⟩ len
      (option :: area) := by
  unfold OptionAt.next at whole
  refine ⟨congrArg _ exact_.taken, ?_, ?_⟩
  · intro entry member
    rcases List.mem_cons.mp member with here | later
    · rw [here]
      exact long
    · exact exact_.inside entry later
  · intro i member
    rcases List.mem_cons.mp member with type | member
    · omega
    rcases List.mem_cons.mp member with length | member
    · omega
    rcases List.mem_append.mp member with data | later
    · have bounds := List.mem_range'_1.mp data
      omega
    · exact exact_.received i later

theorem exact_tail {option : OptionAt} {copied : Nat} {rest : Reading} {area : List OptionAt}
    {first second : Nat} {data : List Nat}
    (exact_ : Exact ⟨(option, copied) :: rest.taken,
      first :: second :: (data ++ rest.examined)⟩ len (option :: area)) : Exact rest len area := by
  refine ⟨List.tail_eq_of_cons_eq exact_.taken, ?_, ?_⟩
  · intro entry member
    exact exact_.inside entry (List.mem_cons_of_mem _ member)
  · intro i member
    apply exact_.received i
    exact List.mem_cons_of_mem _ (List.mem_cons_of_mem _ (List.mem_append_right _ member))

/-- An option that is taken is one of the area. -/
theorem exact_option_inv {popt copied : Nat} {rest : Reading} {data : List Nat}
    (code : pkt popt ≠ 255)
    (exact_ : Exact ⟨(optionAt pkt popt, copied) :: rest.taken,
      popt :: (popt + 1) :: (data ++ rest.examined)⟩ len (options pkt len popt)) :
    pkt popt ≠ 0 ∧ (optionAt pkt popt).next ≤ len ∧ copied ≤ (optionAt pkt popt).length ∧
      Exact rest len (options pkt len (optionAt pkt popt).next) := by
  have head := congrArg List.head? exact_.taken
  obtain ⟨filled, whole⟩ := head_option code head.symm
  have copiedInside := exact_.inside _ List.mem_cons_self
  rw [options_whole ⟨code, filled⟩ whole] at exact_
  exact ⟨filled, whole, copiedInside, exact_tail exact_⟩

/-- The bytes of a whole option are the same in every buffer with the same packet. -/
theorem option_congr {other : Buffer} {popt : Nat} (same : ∀ i, i < len → other i = pkt i)
    (whole : (optionAt pkt popt).next ≤ len) :
    optionAt other popt = optionAt pkt popt ∧ other popt = pkt popt ∧
      other (popt + 1) = pkt (popt + 1) := by
  have above := next_above pkt popt
  have type := same popt (by omega)
  have length := same (popt + 1) (by omega)
  refine ⟨?_, type, length⟩
  rw [optionAt, type, length]
  rfl

theorem word_congr {other : Buffer} {popt : Nat} (same : ∀ i, i < len → other i = pkt i)
    (whole : (optionAt pkt popt).next ≤ len) (long : 4 ≤ (optionAt pkt popt).length) :
    be32 other (popt + 2) = be32 pkt (popt + 2) := by
  have extent : popt + 2 + (optionAt pkt popt).length ≤ len := whole
  apply be32_congr
  intro i bound
  exact same _ (by omega)

theorem truncate_le (maxlen curlen : Nat) : truncateSz maxlen curlen ≤ curlen := by
  unfold truncateSz
  split
  · omega
  · exact Nat.le_refl curlen

theorem string_congr {other : Buffer} {popt : Nat} (same : ∀ i, i < len → other i = pkt i)
    (whole : (optionAt pkt popt).next ≤ len) (field : Buffer) (maxlen : Nat) :
    copyString field other (popt + 2) (truncateSz maxlen (pkt (popt + 1)).toNat) =
      copyString field pkt (popt + 2) (truncateSz maxlen (pkt (popt + 1)).toNat) := by
  have extent : popt + 2 + (pkt (popt + 1)).toNat ≤ len := whole
  have short := truncate_le maxlen (pkt (popt + 1)).toNat
  unfold copyString
  rw [slice_congr other pkt]
  intro i bound
  exact same _ (by omega)

end Area

section Dhcp
variable {pkt other : Buffer} {len : Nat}

theorem dhcp_copied_le_iff (popt : Nat) (params : NetParams) :
    dhcpCopied pkt popt params ≤ (optionAt pkt popt).length ↔
      dhcpMinimum (pkt popt) ≤ (optionAt pkt popt).length := by
  have short := fun maxlen => truncate_le maxlen (pkt (popt + 1)).toNat
  have length : (optionAt pkt popt).length = (pkt (popt + 1)).toNat := rfl
  rw [length]
  unfold dhcpCopied dhcpMinimum
  generalize (pkt popt).toNat = code
  split
  · rfl
  · rfl
  · rfl
  · rfl
  · rfl
  · exact iff_of_true (short 32) (Nat.zero_le _)
  · exact iff_of_true (short 64) (Nat.zero_le _)
  · refine iff_of_true ?_ (Nat.zero_le _)
    by_cases used : params.bpFile 0 = 0 ∧ 0 < truncateSz 128 (pkt (popt + 1)).toNat
    · rw [if_pos used]
      exact short 128
    · rw [if_neg used]
      exact Nat.zero_le _
  · rename_i no1 no3 no6 no51 no54 _ _ _
    split
    · contradiction
    · contradiction
    · contradiction
    · contradiction
    · contradiction
    · rfl

/-- A turn of DhcpOptionsProcess reads nothing but its option. -/
theorem dhcp_option_congr {popt : Nat} (same : ∀ i, i < len → other i = pkt i)
    (whole : (optionAt pkt popt).next ≤ len)
    (long : dhcpMinimum (pkt popt) ≤ (optionAt pkt popt).length) (params : NetParams) :
    dhcpOption other popt params = dhcpOption pkt popt params := by
  obtain ⟨_, type, length⟩ := option_congr same whole
  have word : 4 ≤ dhcpMinimum (pkt popt) → be32 other (popt + 2) = be32 pkt (popt + 2) :=
    fun fixed => word_congr same whole (Nat.le_trans fixed long)
  have text := string_congr same whole
  unfold dhcpMinimum at word
  unfold dhcpOption
  simp only [type, length]
  generalize (pkt popt).toNat = code at word
  split
  · rw [word (Nat.le_refl 4)]
  · rw [word (Nat.le_refl 4)]
  · rw [word (Nat.le_refl 4)]
  · rw [text]
  · rw [text]
  · rw [word (Nat.le_refl 4)]
  · rw [word (Nat.le_refl 4)]
  · rw [text]
  · rfl

theorem dhcp_copied_congr {popt : Nat} (same : ∀ i, i < len → other i = pkt i)
    (whole : (optionAt pkt popt).next ≤ len) (params : NetParams) :
    dhcpCopied other popt params = dhcpCopied pkt popt params := by
  obtain ⟨_, type, length⟩ := option_congr same whole
  unfold dhcpCopied
  rw [type, length]

theorem dhcp_plain_exact {popt : Nat} (plain : DhcpPlain pkt len popt) :
    ∀ fuel params, dhcpEnd - popt ≤ fuel →
      Exact (dhcpReading pkt fuel popt params) len (options pkt len popt) := by
  induction plain with
  | @beyond popt past rest =>
      intro fuel params _
      have none : dhcpReading pkt fuel popt params = ⟨[], []⟩ := by
        cases fuel with
        | zero => rfl
        | succ fuel => rw [dhcpReading, if_neg (Nat.not_lt_of_le past)]
      rw [none, rest]
      exact ⟨rfl, fun _ member => absurd member List.not_mem_nil,
        fun _ member => absurd member List.not_mem_nil⟩
  | @closes popt before received code =>
      intro fuel params enough
      cases fuel with
      | zero => omega
      | succ fuel =>
          rw [dhcpReading, if_pos before, if_pos code, options_end received code]
          refine ⟨rfl, fun _ member => absurd member List.not_mem_nil, ?_⟩
          intro i member
          rw [List.mem_singleton.mp member]
          exact received
  | @option popt before code whole long _ ih =>
      intro fuel params enough
      cases fuel with
      | zero => omega
      | succ fuel =>
          rw [dhcpReading, if_pos before, if_neg code.1, options_whole code whole]
          have copied := (dhcp_copied_le_iff popt params).mpr long
          have above := next_above pkt popt
          exact exact_option whole copied (ih fuel (dhcpOption pkt popt params) (by omega))

theorem dhcp_plain_alone {popt : Nat} (same : ∀ i, i < len → other i = pkt i)
    (plain : DhcpPlain pkt len popt) : ∀ fuel params,
      dhcpOptionsProcess other fuel popt params = dhcpOptionsProcess pkt fuel popt params ∧
      dhcpReading other fuel popt params = dhcpReading pkt fuel popt params := by
  -- By the shape of the area: every byte that a turn looks at has been received.
  induction plain with
  | @beyond popt past _ =>
      intro fuel params
      have outside : ¬ popt < dhcpEnd := Nat.not_lt_of_le past
      cases fuel with
      | zero => exact ⟨rfl, rfl⟩
      | succ fuel =>
          rw [dhcpOptionsProcess, dhcpOptionsProcess, dhcpReading, dhcpReading, if_neg outside,
            if_neg outside, if_neg (fun both => outside both.1), if_neg (fun both => outside both.1)]
          exact ⟨rfl, rfl⟩
  | @closes popt before received code =>
      intro fuel params
      have closed : other popt = 255 := (same popt received).trans code
      cases fuel with
      | zero => exact ⟨rfl, rfl⟩
      | succ fuel =>
          rw [dhcpOptionsProcess, dhcpOptionsProcess, dhcpReading, dhcpReading, if_pos before,
            if_pos before, if_pos code, if_pos closed, if_neg (fun both => both.2 closed),
            if_neg (fun both => both.2 code)]
          exact ⟨rfl, rfl⟩
  | @option popt before code whole long _ ih =>
      intro fuel params
      obtain ⟨place, type, _⟩ := option_congr same whole
      have open_ : other popt ≠ 255 := fun closed => code.1 (type.symm.trans closed)
      cases fuel with
      | zero => exact ⟨rfl, rfl⟩
      | succ fuel =>
          rw [dhcpOptionsProcess, dhcpOptionsProcess, dhcpReading, dhcpReading, if_pos before,
            if_pos before, if_neg code.1, if_neg open_, if_pos ⟨before, open_⟩,
            if_pos ⟨before, code.1⟩, place, dhcp_option_congr same whole long,
            dhcp_copied_congr same whole]
          obtain ⟨process, reading⟩ := ih fuel (dhcpOption pkt popt params)
          rw [reading]
          exact ⟨process, rfl⟩

/-- Only a plain area is read exactly. -/
theorem dhcp_exact_plain (fuel : Nat) : ∀ popt params, dhcpEnd - popt ≤ fuel →
    Exact (dhcpReading pkt fuel popt params) len (options pkt len popt) → DhcpPlain pkt len popt := by
  induction fuel with
  | zero =>
      intro popt params enough exact_
      exact DhcpPlain.beyond (by omega) exact_.taken.symm
  | succ fuel ih =>
      intro popt params enough exact_
      rw [dhcpReading] at exact_
      by_cases before : popt < dhcpEnd
      · rw [if_pos before] at exact_
        by_cases closes : pkt popt = 255
        · rw [if_pos closes] at exact_
          exact DhcpPlain.closes before (exact_.received popt List.mem_cons_self) closes
        · rw [if_neg closes] at exact_
          obtain ⟨filled, whole, copied, tail⟩ := exact_option_inv closes exact_
          have above := next_above pkt popt
          exact DhcpPlain.option before ⟨closes, filled⟩ whole
            ((dhcp_copied_le_iff popt params).mp copied) (ih _ _ (by omega) tail)
      · rw [if_neg before] at exact_
        exact DhcpPlain.beyond (Nat.le_of_not_lt before) exact_.taken.symm

end Dhcp

section Message
variable {pkt other : Buffer} {len : Nat}

theorem up_to_type_head (area : List OptionAt) : (upToType area).head? = area.head? := by
  cases area with
  | nil => rfl
  | cons option rest =>
      rw [upToType]
      split
      · rfl
      · rfl

theorem up_to_type_whole {popt : Nat} (code : pkt popt ≠ 255 ∧ pkt popt ≠ 0) (other : pkt popt ≠ 53)
    (whole : (optionAt pkt popt).next ≤ len) : upToType (options pkt len popt) =
      optionAt pkt popt :: upToType (options pkt len (optionAt pkt popt).next) := by
  have notType : ¬ (optionAt pkt popt).code = 53 := other
  rw [options_whole code whole, upToType, if_neg notType]

theorem message_plain_exact {popt : Nat} (plain : MessagePlain pkt len popt) :
    ∀ ram fuel, len ≤ ram → len - popt ≤ fuel →
      Exact (messageReading ram pkt fuel popt) len (upToType (options pkt len popt)) := by
  -- The fuel covers the received bytes, and each turn moves on by at least two of them.
  induction plain with
  | @closes popt received code =>
      intro ram fuel held enough
      cases fuel with
      | zero => omega
      | succ fuel =>
          rw [messageReading, if_neg (by omega), if_pos code, options_end received code]
          refine ⟨rfl, fun _ member => absurd member List.not_mem_nil, ?_⟩
          intro i member
          rw [List.mem_singleton.mp member]
          exact received
  | @type popt code whole long =>
      intro ram fuel held enough
      have extent : popt + 2 + (optionAt pkt popt).length ≤ len := whole
      have open_ : pkt popt ≠ 255 ∧ pkt popt ≠ 0 := by
        rw [code]
        decide
      have type : (optionAt pkt popt).code = 53 := code
      cases fuel with
      | zero => omega
      | succ fuel =>
          rw [messageReading, if_neg (by omega), if_neg open_.1, if_pos code,
            options_whole open_ whole, upToType, if_pos type]
          refine ⟨rfl, ?_, ?_⟩
          · intro entry member
            rw [List.mem_singleton.mp member]
            exact long
          · intro i member
            rcases List.mem_cons.mp member with first | second
            · omega
            · have value := List.mem_singleton.mp second
              omega
  | @option popt code other whole _ ih =>
      intro ram fuel held enough
      have extent : popt + 2 + (optionAt pkt popt).length ≤ len := whole
      have above := next_above pkt popt
      cases fuel with
      | zero => omega
      | succ fuel =>
          rw [messageReading, if_neg (by omega), if_neg code.1, if_neg other, if_neg (by omega),
            up_to_type_whole code other whole]
          exact exact_option whole (Nat.zero_le _) (ih ram fuel held (by omega))

theorem message_plain_alone {popt : Nat} (same : ∀ i, i < len → other i = pkt i)
    (plain : MessagePlain pkt len popt) : ∀ ram fuel,
      messageScan ram other fuel popt = messageScan ram pkt fuel popt ∧
      messageReading ram other fuel popt = messageReading ram pkt fuel popt := by
  induction plain with
  | @closes popt received code =>
      intro ram fuel
      have closed : other popt = pkt popt := same popt received
      cases fuel with
      | zero => exact ⟨rfl, rfl⟩
      | succ fuel =>
          rw [messageScan, messageScan, messageReading, messageReading, closed, if_pos code,
            if_pos code, if_pos code, if_pos code]
          exact ⟨rfl, rfl⟩
  | @type popt code whole long =>
      intro ram fuel
      have extent : popt + 2 + (optionAt pkt popt).length ≤ len := whole
      obtain ⟨place, type, _⟩ := option_congr same whole
      have value : other (popt + 2) = pkt (popt + 2) := same _ (by omega)
      have open_ : pkt popt ≠ 255 := by
        rw [code]
        decide
      cases fuel with
      | zero => exact ⟨rfl, rfl⟩
      | succ fuel =>
          rw [messageScan, messageScan, messageReading, messageReading, type, place, value,
            if_neg open_, if_neg open_, if_neg open_, if_neg open_, if_pos code, if_pos code,
            if_pos code, if_pos code]
          exact ⟨rfl, rfl⟩
  | @option popt code notType whole _ ih =>
      intro ram fuel
      obtain ⟨place, type, _⟩ := option_congr same whole
      cases fuel with
      | zero => exact ⟨rfl, rfl⟩
      | succ fuel =>
          obtain ⟨scan, reading⟩ := ih ram fuel
          rw [messageScan, messageScan, messageReading, messageReading, type, place, scan, reading,
            if_neg notType, if_neg notType]
          exact ⟨rfl, rfl⟩

theorem message_exact_plain (ram fuel : Nat) (held : len ≤ ram) : ∀ popt, len - popt < fuel →
    Exact (messageReading ram pkt fuel popt) len (upToType (options pkt len popt)) →
    MessagePlain pkt len popt := by
  induction fuel with
  | zero =>
      intro popt enough
      exact absurd enough (Nat.not_lt_zero _)
  | succ fuel ih =>
      intro popt enough exact_
      rw [messageReading] at exact_
      -- Behind the memory the scan would look at a byte that was not received.
      by_cases past : ram ≤ popt
      · rw [if_pos past] at exact_
        have received := exact_.received popt List.mem_cons_self
        omega
      rw [if_neg past] at exact_
      by_cases closes : pkt popt = 255
      · rw [if_pos closes] at exact_
        exact MessagePlain.closes (exact_.received popt List.mem_cons_self) closes
      rw [if_neg closes] at exact_
      by_cases type : pkt popt = 53
      · rw [if_pos type] at exact_
        -- The first option taken is the first one of the area.
        have head := congrArg List.head? exact_.taken
        rw [up_to_type_head] at head
        obtain ⟨_, whole⟩ := head_option closes head.symm
        exact MessagePlain.type type whole (exact_.inside _ List.mem_cons_self)
      rw [if_neg type] at exact_
      by_cases last : ram ≤ popt + 1
      · rw [if_pos last] at exact_
        have received := exact_.received (popt + 1) (List.mem_cons_of_mem _ List.mem_cons_self)
        omega
      · rw [if_neg last] at exact_
        have head := congrArg List.head? exact_.taken
        rw [up_to_type_head] at head
        obtain ⟨filled, whole⟩ := head_option closes head.symm
        have above := next_above pkt popt
        rw [up_to_type_whole ⟨closes, filled⟩ type whole] at exact_
        have tail := @exact_tail len (optionAt pkt popt) 0
          (messageReading ram pkt fuel (optionAt pkt popt).next) _ popt (popt + 1) [] exact_
        exact MessagePlain.option ⟨closes, filled⟩ type whole (ih _ (by omega) tail)

end Message

section Bootp
variable {pkt other : Buffer} {len : Nat}

theorem bootp_copied_congr {ext : Nat} (same : ∀ i, i < len → other i = pkt i)
    (whole : (optionAt pkt ext).next ≤ len) (params : NetParams) :
    bootpCopied other ext params = bootpCopied pkt ext params := by
  obtain ⟨_, type, length⟩ := option_congr same whole
  unfold bootpCopied
  rw [type, length]

/-- BootpVendorFieldProcess reads nothing but its option. -/
theorem bootp_field_congr {ext : Nat} (same : ∀ i, i < len → other i = pkt i)
    (whole : (optionAt pkt ext).next ≤ len) (params : NetParams)
    (long : bootpCopied pkt ext params ≤ (optionAt pkt ext).length) :
    bootpVendorFieldProcess other ext params = bootpVendorFieldProcess pkt ext params := by
  obtain ⟨_, type, length⟩ := option_congr same whole
  have extent : ext + 2 + (optionAt pkt ext).length ≤ len := whole
  have half : 2 ≤ (optionAt pkt ext).length → be16 other (ext + 2) = be16 pkt (ext + 2) :=
    fun two => be16_congr (same _ (by omega)) (same _ (by omega))
  have word : 4 ≤ (optionAt pkt ext).length → be32 other (ext + 2) = be32 pkt (ext + 2) :=
    word_congr same whole
  have text := string_congr same whole
  have size : (optionAt pkt ext).length = (pkt (ext + 1)).toNat := rfl
  rw [size] at long half word
  unfold bootpCopied at long
  unfold bootpVendorFieldProcess
  simp only [type, length]
  generalize (pkt ext).toNat = code at long
  -- What is copied comes out of the received bytes of the option.
  split
  · by_cases unset : params.netOurSubnetMask = 0
    · simp only [unset, if_true] at long
      rw [word long]
    · rw [if_neg unset, if_neg unset]
  · by_cases unset : params.netOurGatewayIP = 0
    · simp only [unset, if_true] at long
      rw [word long]
    · rw [if_neg unset, if_neg unset]
  · by_cases unset : params.netOurDNSIP = 0
    · simp only [unset, if_true] at long
      rw [word long]
    · rw [if_neg unset, if_neg unset]
  · rw [text]
  · by_cases two : (pkt (ext + 1)).toNat = 2
    · rw [if_pos two, if_pos two, half (by omega)]
    by_cases four : (pkt (ext + 1)).toNat = 4
    · rw [if_neg two, if_neg two, if_pos four, if_pos four, word (by omega)]
    · rw [if_neg two, if_neg two, if_neg four, if_neg four]
  · rw [text]
  · rw [text]
  · rfl

theorem bootp_reading_past {end_ fuel ext : Nat} {params : NetParams} (past : end_ ≤ ext) :
    bootpReading pkt end_ fuel ext params = ⟨[], []⟩ ∧
      bootpVendorProcess pkt end_ fuel ext params = params := by
  have outside : ¬ ext < end_ := Nat.not_lt_of_le past
  cases fuel with
  | zero => exact ⟨rfl, rfl⟩
  | succ fuel =>
      rw [bootpReading, bootpVendorProcess, if_neg outside, if_neg (fun both => outside both.1)]
      exact ⟨rfl, rfl⟩

theorem bootp_plain_exact {ext : Nat} {params : NetParams} (plain : BootpPlain pkt len ext params) :
    ∀ fuel, len - ext ≤ fuel →
      Exact (bootpReading pkt (bpVend + 4 + len) fuel ext params) len (options pkt len ext) := by
  -- Pads are skipped; an option that is cut off ends the walk where it ends the area.
  induction plain with
  | @beyond ext params past =>
      intro fuel _
      rw [(bootp_reading_past past).1, options_past (Nat.le_trans (Nat.le_add_left len _) past)]
      exact ⟨rfl, fun _ member => absurd member List.not_mem_nil,
        fun _ member => absurd member List.not_mem_nil⟩
  | @closes ext params received code =>
      intro fuel enough
      have before : ext < bpVend + 4 + len := Nat.lt_of_lt_of_le received (Nat.le_add_left len _)
      cases fuel with
      | zero => omega
      | succ fuel =>
          rw [bootpReading, if_pos before, if_pos code, options_end received code]
          refine ⟨rfl, fun _ member => absurd member List.not_mem_nil, ?_⟩
          intro i member
          rw [List.mem_singleton.mp member]
          exact received
  | @pad ext params received code _ ih =>
      intro fuel enough
      have before : ext < bpVend + 4 + len := Nat.lt_of_lt_of_le received (Nat.le_add_left len _)
      have open_ : pkt ext ≠ 255 := by
        rw [code]
        decide
      cases fuel with
      | zero => omega
      | succ fuel =>
          rw [bootpReading, if_pos before, if_neg open_, if_pos code, options_pad received code]
          have rest := ih fuel (by omega)
          refine ⟨rest.taken, rest.inside, ?_⟩
          intro i member
          rcases List.mem_cons.mp member with here | later
          · rw [here]
            exact received
          · exact rest.received i later
  | @option ext params code whole long _ ih =>
      intro fuel enough
      have above := next_above pkt ext
      have before : ext < bpVend + 4 + len := by omega
      have inside : (optionAt pkt ext).next ≤ bpVend + 4 + len :=
        Nat.le_trans whole (Nat.le_add_left len _)
      cases fuel with
      | zero => omega
      | succ fuel =>
          rw [bootpReading, if_pos before, if_neg code.1, if_neg code.2, if_pos inside,
            options_whole code whole]
          exact exact_option whole long (ih fuel (by omega))
  | @cut ext params code received far =>
      intro fuel enough
      have before : ext < bpVend + 4 + len := by omega
      have outside : ¬ (optionAt pkt ext).next ≤ len := by omega
      cases fuel with
      | zero => omega
      | succ fuel =>
          rw [bootpReading, if_pos before, if_neg code.1, if_neg code.2, if_neg (by omega),
            (bootp_reading_past (Nat.le_of_lt far)).1, options_cut code outside]
          refine ⟨rfl, fun _ member => absurd member List.not_mem_nil, ?_⟩
          intro i member
          rcases List.mem_cons.mp member with first | second
          · omega
          · have length := List.mem_singleton.mp second
            omega

theorem bootp_plain_alone {ext : Nat} {params : NetParams}
    (same : ∀ i, i < len → other i = pkt i) (plain : BootpPlain pkt len ext params) : ∀ fuel,
      bootpVendorProcess other (bpVend + 4 + len) fuel ext params =
        bootpVendorProcess pkt (bpVend + 4 + len) fuel ext params ∧
      bootpReading other (bpVend + 4 + len) fuel ext params =
        bootpReading pkt (bpVend + 4 + len) fuel ext params := by
  induction plain with
  | @beyond ext params past =>
      intro fuel
      rw [(bootp_reading_past past).1, (bootp_reading_past past).1, (bootp_reading_past past).2,
        (bootp_reading_past past).2]
      exact ⟨rfl, rfl⟩
  | @closes ext params received code =>
      intro fuel
      have closed : other ext = pkt ext := same ext received
      cases fuel with
      | zero => exact ⟨rfl, rfl⟩
      | succ fuel =>
          rw [bootpVendorProcess, bootpVendorProcess, bootpReading, bootpReading, closed,
            if_neg (fun both => both.2 code), if_neg (fun both => both.2 code), if_pos code, if_pos code]
          exact ⟨rfl, rfl⟩
  | @pad ext params received code _ ih =>
      intro fuel
      have padded : other ext = pkt ext := same ext received
      cases fuel with
      | zero => exact ⟨rfl, rfl⟩
      | succ fuel =>
          obtain ⟨process, reading⟩ := ih fuel
          rw [bootpVendorProcess, bootpVendorProcess, bootpReading, bootpReading, padded, process,
            reading, if_pos code, if_pos code, if_pos code, if_pos code]
          exact ⟨rfl, rfl⟩
  | @option ext params code whole long _ ih =>
      intro fuel
      obtain ⟨place, type, _⟩ := option_congr same whole
      have inside : (optionAt pkt ext).next ≤ bpVend + 4 + len :=
        Nat.le_trans whole (Nat.le_add_left len _)
      cases fuel with
      | zero => exact ⟨rfl, rfl⟩
      | succ fuel =>
          obtain ⟨process, reading⟩ := ih fuel
          rw [bootpVendorProcess, bootpVendorProcess, bootpReading, bootpReading, type, place,
            bootp_field_congr same whole params long,
            bootp_copied_congr same whole, process, reading,
            if_pos inside, if_pos inside, if_pos inside, if_pos inside, if_neg code.2, if_neg code.2,
            if_neg code.2, if_neg code.2]
          exact ⟨rfl, rfl⟩
  | @cut ext params code received far =>
      intro fuel
      have type : other ext = pkt ext := same ext (by omega)
      have length : other (ext + 1) = pkt (ext + 1) := same (ext + 1) received
      have place : optionAt other ext = optionAt pkt ext := by
        rw [optionAt, type, length]
        rfl
      have outside : ¬ (optionAt pkt ext).next ≤ bpVend + 4 + len := Nat.not_le_of_lt far
      cases fuel with
      | zero => exact ⟨rfl, rfl⟩
      | succ fuel =>
          -- Both walks end, since the length leads behind the end that BootpVendorProcess was given.
          obtain ⟨ended, process⟩ := @bootp_reading_past other _ fuel _ params (Nat.le_of_lt far)
          obtain ⟨ended', process'⟩ := @bootp_reading_past pkt _ fuel _ params (Nat.le_of_lt far)
          rw [bootpVendorProcess, bootpVendorProcess, bootpReading, bootpReading, type, place,
            if_neg code.2, if_neg code.2, if_neg code.2, if_neg code.2, if_neg outside,
            if_neg outside, if_neg outside, if_neg outside, ended, process, ended', process']
          exact ⟨rfl, rfl⟩

/-- Only a plain area is read exactly. -/
theorem bootp_exact_plain (fuel : Nat) : ∀ ext params, bpVend + 4 ≤ ext → bpVend + 4 ≤ len →
    bpVend + 4 + len - ext ≤ fuel →
    Exact (bootpReading pkt (bpVend + 4 + len) fuel ext params) len (options pkt len ext) →
    BootpPlain pkt len ext params := by
  induction fuel with
  | zero =>
      intro ext params _ _ enough _
      exact BootpPlain.beyond (by omega)
  | succ fuel ih =>
      intro ext params start area enough exact_
      rw [bootpReading] at exact_
      by_cases before : ext < bpVend + 4 + len
      · rw [if_pos before] at exact_
        by_cases closes : pkt ext = 255
        · rw [if_pos closes] at exact_
          exact BootpPlain.closes (exact_.received ext List.mem_cons_self) closes
        rw [if_neg closes] at exact_
        by_cases pad : pkt ext = 0
        · rw [if_pos pad] at exact_
          have received := exact_.received ext List.mem_cons_self
          rw [options_pad received pad] at exact_
          have rest : Exact (bootpReading pkt (bpVend + 4 + len) fuel (ext + 1) params) len
              (options pkt len (ext + 1)) :=
            ⟨exact_.taken, exact_.inside, fun i member =>
              exact_.received i (List.mem_cons_of_mem _ member)⟩
          exact BootpPlain.pad received pad (ih _ _ (by omega) area (by omega) rest)
        rw [if_neg pad] at exact_
        have above := next_above pkt ext
        by_cases inside : (optionAt pkt ext).next ≤ bpVend + 4 + len
        · rw [if_pos inside] at exact_
          obtain ⟨_, whole, copied, tail⟩ := exact_option_inv closes exact_
          exact BootpPlain.option ⟨closes, pad⟩ whole copied
            (ih _ _ (by omega) area (by omega) tail)
        · rw [if_neg inside] at exact_
          have received := exact_.received (ext + 1) (List.mem_cons_of_mem _ List.mem_cons_self)
          exact BootpPlain.cut ⟨closes, pad⟩ received (Nat.lt_of_not_le inside)
      · exact BootpPlain.beyond (Nat.le_of_not_lt before)

end Bootp

section Taken
variable {pkt : Buffer}

/-- The variables are what the taken options leave, one after the other. -/
theorem dhcp_process_taken (fuel : Nat) : ∀ popt params,
    dhcpOptionsProcess pkt fuel popt params = (dhcpReading pkt fuel popt params).taken.foldl
      (fun params entry => dhcpOption pkt entry.1.at_ params) params := by
  induction fuel with
  | zero => exact fun _ _ => rfl
  | succ fuel ih =>
      intro popt params
      rw [dhcpOptionsProcess, dhcpReading]
      by_cases before : popt < dhcpEnd
      · by_cases closes : pkt popt = 255
        · rw [if_pos before, if_pos closes, if_neg (fun both => both.2 closes)]
          rfl
        · rw [if_pos before, if_neg closes, if_pos ⟨before, closes⟩, ih]
          rfl
      · rw [if_neg before, if_neg (fun both => before both.1)]
        rfl

theorem bootp_process_taken (end_ fuel : Nat) : ∀ ext params,
    bootpVendorProcess pkt end_ fuel ext params = (bootpReading pkt end_ fuel ext params).taken.foldl
      (fun params entry => bootpVendorFieldProcess pkt entry.1.at_ params) params := by
  induction fuel with
  | zero => exact fun _ _ => rfl
  | succ fuel ih =>
      intro ext params
      rw [bootpVendorProcess, bootpReading]
      by_cases before : ext < end_
      · by_cases closes : pkt ext = 255
        · rw [if_pos before, if_pos closes, if_neg (fun both => both.2 closes)]
          rfl
        rw [if_pos before, if_neg closes, if_pos ⟨before, closes⟩]
        by_cases pad : pkt ext = 0
        · rw [if_pos pad, if_pos pad, ih]
        rw [if_neg pad, if_neg pad]
        by_cases inside : (optionAt pkt ext).next ≤ end_
        · rw [if_pos inside, if_pos inside, ih]
          rfl
        · rw [if_neg inside, if_neg inside, ih]
      · rw [if_neg before, if_neg (fun both => before both.1)]
        rfl

/-- The type that a list of options gives. -/
def typeOf (pkt : Buffer) (area : List OptionAt) : Int :=
  match area.find? (fun option => option.code == 53) with
  | some option => (pkt (option.at_ + 2)).toNat
  | none => -1

theorem type_of_other {option : OptionAt} (other : option.code ≠ 53) (area : List OptionAt) :
    typeOf pkt (option :: area) = typeOf pkt area := by
  have skips : (option.code == 53) = false := beq_false_of_ne other
  unfold typeOf
  rw [List.find?_cons, skips]

/-- In a plain area DhcpMessageType finds the message type. -/
theorem message_plain_type {len popt : Nat} (plain : MessagePlain pkt len popt) :
    ∀ ram fuel, len ≤ ram → len - popt ≤ fuel →
      messageScan ram pkt fuel popt = some (typeOf pkt (options pkt len popt)) := by
  induction plain with
  | @closes popt received code =>
      intro ram fuel held enough
      cases fuel with
      | zero => omega
      | succ fuel =>
          rw [messageScan, if_neg (by omega), if_pos code, options_end received code]
          rfl
  | @type popt code whole long =>
      intro ram fuel held enough
      have extent : popt + 2 + (optionAt pkt popt).length ≤ len := whole
      have open_ : pkt popt ≠ 255 ∧ pkt popt ≠ 0 := by
        rw [code]
        decide
      have type : ((optionAt pkt popt).code == 53) = true := beq_of_eq code
      cases fuel with
      | zero => omega
      | succ fuel =>
          rw [messageScan, if_neg (by omega), if_neg open_.1, if_pos code, if_neg (by omega),
            options_whole open_ whole, typeOf, List.find?_cons, type]
          rfl
  | @option popt code other whole _ ih =>
      intro ram fuel held enough
      have extent : popt + 2 + (optionAt pkt popt).length ≤ len := whole
      have above := next_above pkt popt
      have notType : (optionAt pkt popt).code ≠ 53 := other
      cases fuel with
      | zero => omega
      | succ fuel =>
          rw [messageScan, if_neg (by omega), if_neg code.1, if_neg other, if_neg (by omega),
            options_whole code whole, type_of_other notType]
          exact ih ram fuel held (by omega)

end Taken

section Vendor
variable {pkt : Buffer} {len : Nat}

theorem cookie_congr {other : Buffer} (area : bpVend + 4 ≤ len) (same : ∀ i, i < len → other i = pkt i) :
    be32 other bpVend = be32 pkt bpVend := by
  apply be32_congr
  intro i bound
  exact same _ (by omega)

/-- The cookie and the length stand before each of the readers. -/
theorem vendor_read_iff {Result : Type} {start : Result} {inner : Buffer → Result × Reading}
    {area : List OptionAt} {plain : Prop}
    (sound : bpVend + 4 ≤ len → plain → Exact (inner pkt).2 len area ∧
      ∀ other, (∀ i, i < len → other i = pkt i) → inner other = inner pkt)
    (complete : bpVend + 4 ≤ len → Exact (inner pkt).2 len area → plain) :
    ReadsExactly len (if bpVend + 4 ≤ len ∧ be32 pkt bpVend = bootpVendorMagic then area else [])
      (vendorRead len start inner) pkt ↔ Readable pkt len plain := by
  have empty : ∀ examined, (∀ i ∈ examined, i < len) → Exact ⟨[], examined⟩ len [] :=
    fun examined received => ⟨rfl, fun _ member => absurd member List.not_mem_nil, received⟩
  -- BootpCheckPkt drops the packet.
  by_cases short : len < bpVend
  · have dropped : ∀ pkt, vendorRead len start inner pkt = (start, ⟨[], []⟩) := by
      intro pkt
      rw [vendorRead, if_pos short]
    rw [if_neg (by omega)]
    refine iff_of_true ⟨?_, fun other _ => (dropped other).trans (dropped pkt).symm⟩ (Or.inl short)
    rw [dropped]
    exact empty [] fun _ member => absurd member List.not_mem_nil
  by_cases room : bpVend + 4 ≤ len
  · have cookieIn : ∀ i ∈ List.range' bpVend 4, i < len := by
      intro i member
      have bounds := List.mem_range'_1.mp member
      omega
    by_cases cookie : be32 pkt bpVend = bootpVendorMagic
    · rw [if_pos ⟨room, cookie⟩]
      have read : ∀ other, (∀ i, i < len → other i = pkt i) → vendorRead len start inner other =
          ((inner other).1, ⟨(inner other).2.taken,
            List.range' bpVend 4 ++ (inner other).2.examined⟩) := by
        intro other same
        rw [vendorRead, if_neg short, cookie_congr room same, if_pos cookie]
      have here := read pkt fun _ _ => rfl
      constructor
      · rintro ⟨exact_, _⟩
        rw [here] at exact_
        refine Or.inr ⟨room, fun _ => complete room ⟨exact_.taken, exact_.inside, ?_⟩⟩
        intro i member
        exact exact_.received i (List.mem_append_right _ member)
      · rintro (dropped | ⟨_, plain⟩)
        · exact absurd dropped short
        obtain ⟨exact_, alone⟩ := sound room (plain cookie)
        refine ⟨?_, ?_⟩
        · rw [here]
          refine ⟨exact_.taken, exact_.inside, ?_⟩
          intro i member
          rcases List.mem_append.mp member with first | later
          · exact cookieIn i first
          · exact exact_.received i later
        · intro other same
          rw [read other same, here, alone other same]
    -- Without the cookie nothing is taken; the place of the cookie was received.
    · rw [if_neg fun both => cookie both.2]
      have read : ∀ other, (∀ i, i < len → other i = pkt i) →
          vendorRead len start inner other = (start, ⟨[], List.range' bpVend 4⟩) := by
        intro other same
        rw [vendorRead, if_neg short, cookie_congr room same, if_neg cookie]
      have here := read pkt fun _ _ => rfl
      refine iff_of_true ⟨?_, ?_⟩ (Or.inr ⟨room, fun magic => absurd magic cookie⟩)
      · rw [here]
        exact empty _ cookieIn
      · intro other same
        rw [read other same, here]
  · -- The cookie itself is not in the packet.
    refine iff_of_false ?_ ?_
    · rintro ⟨exact_, _⟩
      have last : bpVend + 3 ∈ (vendorRead len start inner pkt).2.examined := by
        have cookieAt : bpVend + 3 ∈ List.range' bpVend 4 := by decide
        rw [vendorRead, if_neg short]
        split
        · exact List.mem_append_left _ cookieAt
        · exact cookieAt
      have received := exact_.received _ last
      omega
    · rintro (dropped | ⟨held, _⟩)
      · exact short dropped
      · exact room held

theorem up_to_type_vendor (pkt : Buffer) (len : Nat) : upToType (vendorOptions pkt len) =
    if bpVend + 4 ≤ len ∧ be32 pkt bpVend = bootpVendorMagic
    then upToType (options pkt len (bpVend + 4)) else [] := by
  unfold vendorOptions
  split
  · rfl
  · rfl

/-- Each reader takes exactly the options that were received, for exactly the areas that are plain
for it. -/
theorem option_readers_exact_iff (pkt : Buffer) (len behind : Nat) (params : NetParams) :
    (ReadsExactly len (vendorOptions pkt len) (vendorRead len params (dhcpInner params)) pkt ↔
      Readable pkt len (DhcpPlain pkt len (bpVend + 4))) ∧
    (ReadsExactly len (upToType (vendorOptions pkt len))
        (vendorRead len (some (-1)) (messageInner (len + behind))) pkt ↔
      Readable pkt len (MessagePlain pkt len (bpVend + 4))) ∧
    (ReadsExactly len (vendorOptions pkt len) (vendorRead len params (bootpInner len params)) pkt ↔
      Readable pkt len (BootpPlain pkt len (bpVend + 4) params)) := by
  refine ⟨?_, ?_, ?_⟩
  · apply vendor_read_iff
    · intro _ plain
      refine ⟨dhcp_plain_exact plain _ params (Nat.le_of_eq rfl), ?_⟩
      intro other same
      obtain ⟨process, reading⟩ := dhcp_plain_alone same plain bootpHdrSize params
      rw [dhcpInner, process, reading]
      rfl
    · intro _ exact_
      exact dhcp_exact_plain _ _ params (Nat.le_of_eq rfl) exact_
  · rw [up_to_type_vendor]
    apply vendor_read_iff
    · intro _ plain
      refine ⟨message_plain_exact plain _ _ (Nat.le_add_right len behind) (by omega), ?_⟩
      intro other same
      obtain ⟨scan, reading⟩ := message_plain_alone same plain (len + behind) (len + behind)
      rw [messageInner, scan, reading]
      rfl
    · intro room exact_
      have held := Nat.le_add_right len behind
      exact message_exact_plain _ _ held _ (by omega) exact_
  · apply vendor_read_iff
    · intro _ plain
      refine ⟨bootp_plain_exact plain len (by omega), ?_⟩
      intro other same
      obtain ⟨process, reading⟩ := bootp_plain_alone same plain len
      rw [bootpInner, process, reading]
      rfl
    · intro room exact_
      exact bootp_exact_plain len _ params (Nat.le_refl _) room (by omega) exact_

end Vendor

def noParams : NetParams where
  netOurSubnetMask := 0
  netOurGatewayIP := 0
  netOurDNSIP := 0
  netOurHostName := fun _ => 0
  netOurRootPath := fun _ => 0
  netOurNISDomain := fun _ => 0
  netBootFileSize := 0
  dhcpLeasetime := 0
  netDHCPServerIP := 0
  bpFile := fun _ => 0

/-- A pad byte, then the message type of a DHCPACK and the end. -/
def paddedAck : Buffer := fun i =>
  ([0x63, 0x82, 0x53, 0x63, 0, 53, 1, 5, 255] : List UInt8).getD (i - bpVend) 0

/-- DhcpOptionsProcess takes the pad byte for an option of 53 bytes. -/
theorem padded_ack_misread : ¬ ∀ (pkt : Buffer) (len behind : Nat) (params : NetParams),
    ReadsExactly len (vendorOptions pkt len) (vendorRead len params (dhcpInner params)) pkt ∧
    ReadsExactly len (upToType (vendorOptions pkt len))
      (vendorRead len (some (-1)) (messageInner (len + behind))) pkt ∧
    ReadsExactly len (vendorOptions pkt len) (vendorRead len params (bootpInner len params)) pkt := by
  intro readers
  have taken := (readers paddedAck 300 0 noParams).1.exact_.taken
  have place : (vendorOptions paddedAck 300).map OptionAt.at_ = [bpVend + 5] := by decide +kernel
  have misread : (vendorRead 300 noParams (dhcpInner noParams) paddedAck).2.taken.head?.map
      (fun entry => entry.1.at_) = some (bpVend + 4) := by decide +kernel
  rw [← taken, List.map_map] at place
  generalize (vendorRead 300 noParams (dhcpInner noParams) paddedAck).2.taken = entries
    at place misread
  cases entries with
  | nil => cases misread
  | cons entry rest =>
      injection place with first _
      injection misread with second
      exact absurd (second.symm.trans first) (by decide)

end UBoot.Net.OptionReaders
