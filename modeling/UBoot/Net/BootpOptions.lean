import UBoot.Library.OptionArea
import UBoot.Net.NetReceive

/-!
The three readers of the vendor area in net/bootp.c: DhcpOptionsProcess and
DhcpMessageType of the DHCP client and BootpVendorProcess of the BOOTP client.
A place counts from the start of the packet; bp_vend begins at 236 and its
options behind the cookie. The options that the mask of CONFIG_BOOTP_MASK leaves
out (second DNS server, time offset, NTP server, vendor extensions) are left out
here too. A reading says which options a reader takes, with the number of bytes
that it copies out of each, and every byte that it looks at.
-/

namespace UBoot.Net.BootpOptions

open Library.Memory Library.OptionArea NetReceive

def bootpVendorMagic : Nat := 0x63825363

def bpVend : Nat := 236

def bootpHdrSize : Nat := 548

/-- The variables that the options set; bpFile is the bp_file of the packet. -/
structure NetParams where
  netOurSubnetMask : Nat
  netOurGatewayIP : Nat
  netOurDNSIP : Nat
  netOurHostName : Buffer
  netOurRootPath : Buffer
  netOurNISDomain : Buffer
  netBootFileSize : Nat
  dhcpLeasetime : Nat
  netDHCPServerIP : Nat
  bpFile : Buffer

structure Reading where
  taken : List (OptionAt × Nat)
  examined : List Nat
  deriving DecidableEq

def truncateSz (maxlen curlen : Nat) : Nat := if maxlen ≤ curlen then maxlen - 1 else curlen

/-- memcpy of `size` bytes and the zero behind them. -/
def copyString (field pkt : Buffer) (place size : Nat) : Buffer :=
  splice (splice field 0 (slice pkt place size)) size [0]

/-- One turn of DhcpOptionsProcess. -/
def dhcpOption (pkt : Buffer) (popt : Nat) (params : NetParams) : NetParams :=
  let oplen := (pkt (popt + 1)).toNat
  match (pkt popt).toNat with
  | 1 => { params with netOurSubnetMask := be32 pkt (popt + 2) }
  | 3 => { params with netOurGatewayIP := be32 pkt (popt + 2) }
  | 6 => { params with netOurDNSIP := be32 pkt (popt + 2) }
  | 12 => { params with
      netOurHostName := copyString params.netOurHostName pkt (popt + 2) (truncateSz 32 oplen) }
  | 17 => { params with
      netOurRootPath := copyString params.netOurRootPath pkt (popt + 2) (truncateSz 64 oplen) }
  | 51 => { params with dhcpLeasetime := be32 pkt (popt + 2) }
  | 54 => { params with netDHCPServerIP := be32 pkt (popt + 2) }
  | 67 =>
      -- only where the packet has no boot file of its own
      if params.bpFile 0 = 0 ∧ 0 < truncateSz 128 oplen then
        { params with bpFile := copyString params.bpFile pkt (popt + 2) (truncateSz 128 oplen) }
      else params
  | _ => params

def dhcpEnd : Nat := bpVend + 4 + bootpHdrSize

def dhcpOptionsProcess (pkt : Buffer) : Nat → Nat → NetParams → NetParams
  | 0, _, params => params
  | fuel + 1, popt, params =>
      if popt < dhcpEnd ∧ pkt popt ≠ 255 then
        dhcpOptionsProcess pkt fuel (optionAt pkt popt).next (dhcpOption pkt popt params)
      else params

/-- The bytes that dhcpOption copies. -/
def dhcpCopied (pkt : Buffer) (popt : Nat) (params : NetParams) : Nat :=
  let oplen := (pkt (popt + 1)).toNat
  match (pkt popt).toNat with
  | 1 | 3 | 6 | 51 | 54 => 4
  | 12 => truncateSz 32 oplen
  | 17 => truncateSz 64 oplen
  | 67 => if params.bpFile 0 = 0 ∧ 0 < truncateSz 128 oplen then truncateSz 128 oplen else 0
  | _ => 0

def dhcpReading (pkt : Buffer) : Nat → Nat → NetParams → Reading
  | 0, _, _ => ⟨[], []⟩
  | fuel + 1, popt, params =>
      if popt < dhcpEnd then
        if pkt popt = 255 then ⟨[], [popt]⟩
        else
          let rest := dhcpReading pkt fuel (optionAt pkt popt).next (dhcpOption pkt popt params)
          let copied := dhcpCopied pkt popt params
          ⟨(optionAt pkt popt, copied) :: rest.taken,
            popt :: (popt + 1) :: (List.range' (popt + 2) copied ++ rest.examined)⟩
      else ⟨[], []⟩

/-- The scan of DhcpMessageType has no end but 255; `none` is an access behind the memory, of
which `ram` bytes can be read from the start of the packet on. -/
def messageScan (ram : Nat) (pkt : Buffer) : Nat → Nat → Option Int
  | 0, _ => none
  | fuel + 1, popt =>
      if ram ≤ popt then none
      else if pkt popt = 255 then some (-1)
      -- the type is taken whatever the length of the option
      else if pkt popt = 53 then
        if ram ≤ popt + 2 then none else some (pkt (popt + 2)).toNat
      else if ram ≤ popt + 1 then none
      else messageScan ram pkt fuel (optionAt pkt popt).next

def dhcpMessageType (ram : Nat) (pkt : Buffer) : Option Int :=
  if be32 pkt bpVend ≠ bootpVendorMagic then some (-1) else messageScan ram pkt ram (bpVend + 4)

def messageReading (ram : Nat) (pkt : Buffer) : Nat → Nat → Reading
  | 0, _ => ⟨[], []⟩
  | fuel + 1, popt =>
      if ram ≤ popt then ⟨[], [popt]⟩
      else if pkt popt = 255 then ⟨[], [popt]⟩
      else if pkt popt = 53 then ⟨[(optionAt pkt popt, 1)], [popt, popt + 2]⟩
      else if ram ≤ popt + 1 then ⟨[], [popt, popt + 1]⟩
      else
        let rest := messageReading ram pkt fuel (optionAt pkt popt).next
        ⟨(optionAt pkt popt, 0) :: rest.taken, popt :: (popt + 1) :: rest.examined⟩

def bootpVendorFieldProcess (pkt : Buffer) (ext : Nat) (before : NetParams) : NetParams :=
  let size := (pkt (ext + 1)).toNat
  let params := { before with netBootFileSize := 0 }
  match (pkt ext).toNat with
  | 1 =>
      if params.netOurSubnetMask = 0 then { params with netOurSubnetMask := be32 pkt (ext + 2) }
      else params
  | 3 =>
      if params.netOurGatewayIP = 0 then { params with netOurGatewayIP := be32 pkt (ext + 2) }
      else params
  | 6 =>
      if params.netOurDNSIP = 0 then { params with netOurDNSIP := be32 pkt (ext + 2) }
      else params
  | 12 =>
      if params.netOurHostName 0 = 0 then
        { params with
          netOurHostName := copyString params.netOurHostName pkt (ext + 2) (truncateSz 32 size) }
      else params
  | 13 =>
      if size = 2 then { params with netBootFileSize := be16 pkt (ext + 2) }
      -- ushort takes the low half
      else if size = 4 then { params with netBootFileSize := be32 pkt (ext + 2) % 2 ^ 16 }
      else params
  | 17 =>
      if params.netOurRootPath 0 = 0 then
        { params with
          netOurRootPath := copyString params.netOurRootPath pkt (ext + 2) (truncateSz 64 size) }
      else params
  | 40 =>
      if params.netOurNISDomain 0 = 0 then
        { params with
          netOurNISDomain := copyString params.netOurNISDomain pkt (ext + 2) (truncateSz 32 size) }
      else params
  | _ => params

def bootpVendorProcess (pkt : Buffer) (end_ : Nat) : Nat → Nat → NetParams → NetParams
  | 0, _, params => params
  | fuel + 1, ext, params =>
      if ext < end_ ∧ pkt ext ≠ 255 then
        if pkt ext = 0 then bootpVendorProcess pkt end_ fuel (ext + 1) params
        -- an option that reaches over the end is not processed
        else if (optionAt pkt ext).next ≤ end_ then
          bootpVendorProcess pkt end_ fuel (optionAt pkt ext).next
            (bootpVendorFieldProcess pkt ext params)
        else bootpVendorProcess pkt end_ fuel (optionAt pkt ext).next params
      else params

/-- The bytes that bootpVendorFieldProcess copies. -/
def bootpCopied (pkt : Buffer) (ext : Nat) (params : NetParams) : Nat :=
  let size := (pkt (ext + 1)).toNat
  match (pkt ext).toNat with
  | 1 => if params.netOurSubnetMask = 0 then 4 else 0
  | 3 => if params.netOurGatewayIP = 0 then 4 else 0
  | 6 => if params.netOurDNSIP = 0 then 4 else 0
  | 12 => if params.netOurHostName 0 = 0 then truncateSz 32 size else 0
  | 13 => if size = 2 then 2 else if size = 4 then 4 else 0
  | 17 => if params.netOurRootPath 0 = 0 then truncateSz 64 size else 0
  | 40 => if params.netOurNISDomain 0 = 0 then truncateSz 32 size else 0
  | _ => 0

def bootpReading (pkt : Buffer) (end_ : Nat) : Nat → Nat → NetParams → Reading
  | 0, _, _ => ⟨[], []⟩
  | fuel + 1, ext, params =>
      if ext < end_ then
        if pkt ext = 255 then ⟨[], [ext]⟩
        else if pkt ext = 0 then
          let rest := bootpReading pkt end_ fuel (ext + 1) params
          ⟨rest.taken, ext :: rest.examined⟩
        else if (optionAt pkt ext).next ≤ end_ then
          let rest := bootpReading pkt end_ fuel (optionAt pkt ext).next
            (bootpVendorFieldProcess pkt ext params)
          let copied := bootpCopied pkt ext params
          ⟨(optionAt pkt ext, copied) :: rest.taken,
            ext :: (ext + 1) :: (List.range' (ext + 2) copied ++ rest.examined)⟩
        else
          let rest := bootpReading pkt end_ fuel (optionAt pkt ext).next params
          ⟨rest.taken, ext :: (ext + 1) :: rest.examined⟩
      else ⟨[], []⟩

end UBoot.Net.BootpOptions
