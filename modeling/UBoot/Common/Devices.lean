import UBoot.Common.Lists

/-!
common/devices.c and the assignments of common/console.c. The devices are the items of
a list, and each console points to one of them. Addresses count bytes, and NULL is
0; what memory holds outside of the list is a parameter of what reads it.
-/

namespace UBoot.Common.Devices

open Lists

/-- sizeof (device_t), and the places of its fields. -/
def sizeofDevice : Nat := 52
def offsetofName : Nat := 8
def sizeofName : Nat := 16
def offsetofStart : Nat := 24

def DEV_FLAGS_INPUT : UInt32 := 1
def DEV_FLAGS_OUTPUT : UInt32 := 2

def MAX_FILES : Nat := 3

/-- A device_t whose name ends within its field. -/
structure Device where
  bytes : Nat → UInt8
  named : ∃ i < sizeofName, bytes (offsetofName + i) = 0

/-- A string, by what stands before its end. -/
structure CString where
  chars : List UInt8
  proper : 0 ∉ chars

structure Consoles where
  devlist : ListStruct
  stdioDevices : Nat → Nat
  /-- The name that was assigned last to each console, which the code does not keep. -/
  assigned : Nat → Option (List UInt8)

def memory (devlist : ListStruct) (other : Nat → UInt8) (address : Nat) : UInt8 :=
  if devlist.ptr + 24 ≤ address ∧ address < devlist.ptr + devlist.size then
    devlist.itemList ((address - (devlist.ptr + 24) : Nat) : Int)
  else other address

/-- ListGetPtrToItem for the item behind `k` others. -/
def devicePtr (devlist : ListStruct) (k : Nat) : Nat :=
  devlist.ptr + 24 + (itemPtr devlist k).toNat

def numDevices (devlist : ListStruct) : Nat := devlist.numItems.toNat

/-- Whether strcmp of a string with the one at an address is 0. -/
def strcmpEqual : List UInt8 → (Nat → UInt8) → Nat → Bool
  | [], bytes, place => bytes place = 0
  | char :: rest, bytes, place => bytes place = char && strcmpEqual rest bytes (place + 1)

/-- The string at an address, within a field of `limit` bytes. -/
def stringAt (bytes : Nat → UInt8) : (limit place : Nat) → List UInt8
  | 0, _ => []
  | limit + 1, place =>
      if bytes place = 0 then [] else bytes place :: stringAt bytes limit (place + 1)

def wordAt (bytes : Nat → UInt8) (place : Nat) : UInt32 :=
  ((bytes place).toUInt32 <<< 24) ||| ((bytes (place + 1)).toUInt32 <<< 16) |||
    ((bytes (place + 2)).toUInt32 <<< 8) ||| (bytes (place + 3)).toUInt32

/-- device_register. The block comes to `newPtr` if realloc moves it. -/
def deviceRegister (consoles : Consoles) (dev : Device) (newPtr : Nat) : Consoles :=
  { consoles with devlist := (listInsertItem consoles.devlist newPtr (some dev.bytes) LIST_END).2 }

section Memory

variable (consoles : Consoles) (other : Nat → UInt8)

/-- The first device of a name. -/
def findDevice (devname : CString) : Option Nat :=
  (List.range (numDevices consoles.devlist)).find? fun k =>
    strcmpEqual devname.chars (memory consoles.devlist other)
      (devicePtr consoles.devlist k + offsetofName)

/-- console_setfile, and the record of the name. `error` is what the start function of the device
returns. -/
def consoleSetfile (file dev : Nat) (name : List UInt8) (error : Int) : Int × Consoles :=
  if dev = 0 then (-1, consoles)
  else if file < MAX_FILES then
    let started := wordAt (memory consoles.devlist other) (dev + offsetofStart) ≠ 0
    if started ∧ error < 0 then (error, consoles)
    else
      (if started then error else 0, { consoles with
        stdioDevices := Function.update consoles.stdioDevices file dev
        assigned := Function.update consoles.assigned file (some name) })
  else (-1, consoles)

def fileFlag (file : Nat) : Option UInt32 :=
  if file = 0 then some DEV_FLAGS_INPUT
  else if file = 1 ∨ file = 2 then some DEV_FLAGS_OUTPUT
  else none

def consoleAssign (file : Nat) (devname : CString) (error : Int) : Int × Consoles :=
  match fileFlag file with
  | none => (-1, consoles)
  | some flag =>
      match findDevice consoles other devname with
      | none => (-1, consoles)
      | some k =>
          if wordAt (memory consoles.devlist other) (devicePtr consoles.devlist k) &&& flag ≠ 0 then
            consoleSetfile consoles other file (devicePtr consoles.devlist k) devname.chars error
          else (-1, consoles)

/-- The devices that search_device stops at. -/
def searched (flags : UInt32) (name : CString) : Option Nat :=
  (List.range (numDevices consoles.devlist)).find? fun k =>
    wordAt (memory consoles.devlist other) (devicePtr consoles.devlist k) &&& flags ≠ 0 ∧
      strcmpEqual name.chars (memory consoles.devlist other)
        (devicePtr consoles.devlist k + offsetofName)

/-- search_device: without a match it ends at the last device. -/
def searchDevice (flags : UInt32) : Option CString → Nat
  | none => 0
  | some name =>
      match searched consoles other flags name with
      | some k => devicePtr consoles.devlist k
      | none =>
          if numDevices consoles.devlist = 0 then 0
          else devicePtr consoles.devlist (numDevices consoles.devlist - 1)

theorem serial_proper : (0 : UInt8) ∉ [115, 101, 114, 105, 97, 108] := by decide

/-- "serial" -/
def serial : CString where
  chars := [115, 101, 114, 105, 97, 108]
  proper := serial_proper

/-- What console_init_r does for one console with its variable of the environment. -/
def consoleInitR (file : Nat) (stdname : Option CString) (error : Int) : Consoles :=
  match fileFlag file with
  | none => consoles
  | some flag =>
      let dev := searchDevice consoles other flag stdname
      let dev := if dev = 0 then searchDevice consoles other flag (some serial) else dev
      if dev ≠ 0 then
        (consoleSetfile consoles other file dev (stdname.getD serial).chars error).2
      else consoles

/-- The memcpy of a name to temp_names[l], which is as long as two of its rows. -/
def copyName (temp : Nat → UInt8) (l : Nat) : Nat → UInt8 := fun place =>
  if 8 * l ≤ place ∧ place < 8 * l + sizeofName then
    memory consoles.devlist other (consoles.stdioDevices l + offsetofName + (place - 8 * l))
  else temp place

/-- temp_names behind the loop over the consoles, or none if the device is assigned. The copy of the
last name goes 8 bytes past the array, to bytes that nothing else is taken to use. -/
def tempNames (dev : Nat) : Option (Nat → UInt8) :=
  (List.range MAX_FILES).foldlM
    (fun temp l =>
      if consoles.stdioDevices l = dev then none else some (copyName consoles other temp l))
    fun _ => 0

/-- The loops that find the devices of the consoles again. -/
def reassign (temp : Nat → UInt8) : Nat → Nat :=
  (List.range (numDevices consoles.devlist)).foldl
    (fun stdioDevices k => fun l =>
      if l < MAX_FILES ∧
          strcmpEqual (stringAt (memory consoles.devlist other) sizeofName
            (devicePtr consoles.devlist k + offsetofName)) temp (8 * l)
      then devicePtr consoles.devlist k else stdioDevices l)
    consoles.stdioDevices

def deviceDeregister (devname : CString) : Int × Consoles :=
  match findDevice consoles other devname with
  | none => (0, consoles)
  | some k =>
      match tempNames consoles other (devicePtr consoles.devlist k) with
      | none => (-1, consoles)
      | some temp =>
          let removed := { consoles with devlist := (listRemoveItem consoles.devlist (k + 1)).2 }
          (0, { removed with stdioDevices := reassign removed other temp })

end Memory

inductive Operation where
  | register (dev : Device) (newPtr : Nat)
  | assign (file : Nat) (devname : CString) (error : Int)
  | initR (file : Nat) (stdname : Option CString) (error : Int)
  | deregister (devname : CString)

/-- An operation, while memory outside of the list holds `other`. -/
def perform (consoles : Consoles) (operation : Operation × (Nat → UInt8)) : Consoles :=
  match operation.1 with
  | .register dev newPtr => deviceRegister consoles dev newPtr
  | .assign file devname error => (consoleAssign consoles operation.2 file devname error).2
  | .initR file stdname error => consoleInitR consoles operation.2 file stdname error
  | .deregister devname => (deviceDeregister consoles operation.2 devname).2

/-- devices_init: no device yet, and no console has one. -/
def devicesInit (ptr : Nat) (fresh : Int → UInt8) : Consoles where
  devlist := listCreate ptr fresh sizeofDevice
  stdioDevices := fun _ => 0
  assigned := fun _ => none

end UBoot.Common.Devices
