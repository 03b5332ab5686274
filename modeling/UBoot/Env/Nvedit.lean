import Mathlib.Data.UInt
import UBoot.Lib.Crc32
import UBoot.Lib.Strings
import UBoot.Library.Memory
import UBoot.Library.StringTable

/-!
getenv and _do_setenv of common/cmd_nvedit.c on the copy of the environment in
RAM. The loops of the source run until they meet a NUL byte; here each carries
CFG_ENV_SIZE turns as fuel. CONFIG_ENV_OVERWRITE, CONFIG_OVERWRITE_ETHADDR_ONCE
and CONFIG_SERIAL_MULTI are not defined for the board, CONFIG_NET_MULTI is.
-/

namespace UBoot.Env.Nvedit

open Lib.Crc32 Lib.Strings Library.Memory Library.StringTable

/-- What the configuration and the console driver decide: `consoleAssign` is the result of
console_assign for stdin, stdout or stderr and a device name. -/
structure EnvConfig where
  cfgEnvSize : Nat
  redundant : Bool
  baudrateTable : List Nat
  consoleAssign : Nat → Option CString → Int

def EnvConfig.envSize (cfg : EnvConfig) : Nat :=
  cfg.cfgEnvSize - if cfg.redundant then 5 else 4

/-- What setenv changes besides the environment. -/
structure Globals where
  baudrate : Nat
  enetaddr : List UInt8
  ipAddr : Nat
  loadAddr : Nat
  bootFile : List UInt8
  ethSetEnetaddr : List (Int × Option CString)

structure EnvState where
  data : Buffer UInt8
  crc : Nat
  globals : Globals

/-- The words of a command from `argv[2]` on, or the NULL value of the C function setenv. -/
inductive Values where
  | words (list : List CString)
  | null

def Values.argv2 : Values → Option CString
  | .words list => list.head?
  | .null => none

/-- The index behind the `=` of a matching entry. `name` may be `name=value` itself. -/
def envmatch (mem : Nat → UInt8) : List UInt8 → Nat → Option Nat
  | [], i => if mem i = 61 then some (i + 1) else none
  | c :: rest, i =>
      if c = mem i then if c = 61 then some (i + 1) else envmatch mem rest (i + 1) else none

/-- The entry that holds a name, the NUL behind it and the start of its value. -/
structure OldDef where
  env : Nat
  nxt : Nat
  oldval : Nat

def findOld (mem : Nat → UInt8) (size : Nat) (name : List UInt8) : Nat → Nat → Option OldDef
  | 0, _ => none
  | fuel + 1, env =>
      if mem env = 0 then none
      else
        let nxt := stringEnd mem size env
        match envmatch mem name env with
        | some oldval => some ⟨env, nxt, oldval⟩
        | none => findOld mem size name fuel (nxt + 1)

/-- `for (nxt=i; env_get_char(nxt) != '\0'; ++nxt) if (nxt >= CFG_ENV_SIZE) return NULL`. -/
def boundedEnd (mem : Nat → UInt8) (size : Nat) : Nat → Nat → Option Nat
  | 0, _ => none
  | fuel + 1, nxt =>
      if mem nxt = 0 then some nxt
      else if size ≤ nxt then none
      else boundedEnd mem size fuel (nxt + 1)

def getenvLoop (mem : Nat → UInt8) (size : Nat) (name : List UInt8) : Nat → Nat → Option Nat
  | 0, _ => none
  | fuel + 1, i =>
      if mem i = 0 then none
      else
        match boundedEnd mem size (size + 1) i with
        | none => none
        | some nxt =>
            match envmatch mem name i with
            | some val => some val
            | none => getenvLoop mem size name fuel (nxt + 1)

/-- The address of the value of a variable. -/
def getenv (cfg : EnvConfig) (state : EnvState) (name : CString) : Option Nat :=
  getenvLoop state.data.mem cfg.cfgEnvSize name.bytes cfg.cfgEnvSize 0

/-- The value of a variable, as the string at that address. -/
def getenvString (cfg : EnvConfig) (state : EnvState) (name : CString) : Option (List UInt8) :=
  (getenv cfg state name).map (stringAt state.data.mem cfg.cfgEnvSize)

/-- The checks before an existing definition is deleted; `fault` reads a NULL string. -/
inductive OldCheck where
  | refuse
  | fault
  | proceed (globals : Globals)

def consoleOf (name : List UInt8) : Option Nat :=
  if name = ascii "stdin" then some 0
  else if name = ascii "stdout" then some 1
  else if name = ascii "stderr" then some 2
  else none

def writeProtected (name : List UInt8) : Bool := name == ascii "serial#" || name == ascii "ethaddr"

def checkBaudrate (cfg : EnvConfig) (globals : Globals) (name : List UInt8) (values : Values) :
    OldCheck :=
  if name = ascii "baudrate" then
    match values.argv2 with
    | none => .fault
    | some text =>
        let baudrate := (simpleStrtoul text.bytes 10).value
        if baudrate ∈ cfg.baudrateTable then .proceed { globals with baudrate := baudrate }
        else .refuse
  else .proceed globals

def checkOld (cfg : EnvConfig) (globals : Globals) (name : List UInt8) (values : Values) :
    OldCheck :=
  if writeProtected name then .refuse
  else
    match consoleOf name, values with
    | some _, .words [] => .refuse
    | some console, values =>
        if cfg.consoleAssign console values.argv2 < 0 then .refuse
        else checkBaudrate cfg globals name values
    | none, values => checkBaudrate cfg globals name values

/-- `*env = *nxt++` until two NULs follow each other. -/
def slide (buffer : Buffer UInt8) : Nat → Nat → Nat → Buffer UInt8 × Nat
  | 0, env, _ => (buffer, env)
  | fuel + 1, env, nxt =>
      let moved := buffer.store env (buffer.mem nxt)
      if moved.mem env = 0 ∧ moved.mem (nxt + 1) = 0 then (moved, env)
      else slide moved fuel (env + 1) (nxt + 1)

def deleteOld (size : Nat) (buffer : Buffer UInt8) (old : OldDef) : Buffer UInt8 :=
  let kept :=
    if buffer.mem (old.nxt + 1) = 0 then
      if 0 < old.env then (buffer, old.env - 1) else (buffer.store old.env 0, old.env)
    else slide buffer size old.env (old.nxt + 1)
  kept.1.store (kept.2 + 1) 0

/-- Copies a string with its NUL; the result points at the NUL. -/
def copyString (buffer : Buffer UInt8) : Nat → List UInt8 → Buffer UInt8 × Nat
  | env, [] => (buffer.store env 0, env)
  | env, c :: rest => copyString (buffer.store env c) (env + 1) rest

/-- The words, each after the separator that overwrites the NUL before it. -/
def copyWords (buffer : Buffer UInt8) : Nat → UInt8 → List CString → Buffer UInt8 × Nat
  | env, _, [] => (buffer, env)
  | env, separator, word :: rest =>
      let copied := copyString (buffer.store env separator) (env + 1) word.bytes
      copyWords copied.1 copied.2 32 rest

def newLength (name : List UInt8) (words : List CString) : Nat :=
  name.length + 2 + (words.map fun word => word.bytes.length + 1).sum

/-- Where a new definition goes. -/
def appendAt (cfg : EnvConfig) (buffer : Buffer UInt8) : Nat :=
  let last := tableEnd buffer.mem cfg.cfgEnvSize 0
  if 0 < last then last + 1 else last

/-- `none` when the environment overflows. -/
def appendNew (cfg : EnvConfig) (buffer : Buffer UInt8) (name : List UInt8) (words : List CString) :
    Option (Buffer UInt8) :=
  let env := appendAt cfg buffer
  if cfg.envSize < env + newLength name words then none
  else
    let named := copyString buffer env name
    let valued := copyWords named.1 named.2 61 words
    some (valued.1.store (valued.2 + 1) 0)

def envCrcUpdate (cfg : EnvConfig) (state : EnvState) : EnvState :=
  { state with crc := crc32 0 (slice state.data.mem 0 cfg.envSize) }

/-- Numbers with one byte between them. -/
def parseFields (base : Nat) : Nat → List UInt8 → List Nat
  | 0, _ => []
  | count + 1, s =>
      let field := simpleStrtoul s base
      field.value :: parseFields base count field.rest.tail

def copyFilename (src : List UInt8) (size : Nat) : List UInt8 :=
  let quoted := src.head? == some 34
  let text := if quoted then src.tail else src
  let room := if quoted then size - 1 else size
  (text.takeWhile (· != 34)).take (room - 1)

/-- `strncmp (name, "eth", 3) == 0` and `addr` behind the number. -/
def ethNumber (name : List UInt8) : Option Int :=
  if name.take 3 = ascii "eth" then
    let num := simpleStrtoul (name.drop 3) 10
    if num.rest = ascii "addr" then some (toInt num.value) else none
  else none

def noteEthAddr (globals : Globals) (name : List UInt8) (value : Option CString) : Globals :=
  match ethNumber name with
  | some num => { globals with ethSetEnetaddr := globals.ethSetEnetaddr ++ [(num, value)] }
  | none => globals

/-- The variables that are kept elsewhere as well. -/
def updateGlobals (globals : Globals) (name : List UInt8) (value : CString) : Globals :=
  if name = ascii "ethaddr" then
    { globals with
      enetaddr := (parseFields 16 6 value.bytes).map UInt8.ofNat
      ethSetEnetaddr := globals.ethSetEnetaddr ++ [(0, some value)] }
  else if name = ascii "ipaddr" then
    { globals with
      ipAddr := (parseFields 10 4 value.bytes).foldl (fun addr val => addr * 256 + val % 256) 0 }
  else if name = ascii "loadaddr" then
    { globals with loadAddr := (simpleStrtoul value.bytes 16).value }
  else if name = ascii "bootfile" then
    { globals with bootFile := copyFilename value.bytes 128 }
  else globals

structure SetenvResult where
  rcode : Nat
  state : EnvState

/-- _do_setenv after an existing definition has been deleted. -/
def setenvTail (cfg : EnvConfig) (state : EnvState) (name : CString) (values : Values) :
    SetenvResult :=
  let noted := { state with globals := noteEthAddr state.globals name.bytes values.argv2 }
  match values with
  | .null => ⟨0, envCrcUpdate cfg noted⟩
  | .words [] => ⟨0, envCrcUpdate cfg noted⟩
  | .words (value :: more) =>
      match appendNew cfg noted.data name.bytes (value :: more) with
      | none => ⟨1, noted⟩
      | some data =>
          let updated := envCrcUpdate cfg { noted with data := data }
          ⟨0, { updated with globals := updateGlobals updated.globals name.bytes value }⟩

/-- `none` when a NULL string is read. -/
def doSetenv (cfg : EnvConfig) (state : EnvState) (name : CString) (values : Values) :
    Option SetenvResult :=
  match findOld state.data.mem cfg.cfgEnvSize name.bytes cfg.cfgEnvSize 0 with
  | none => some (setenvTail cfg state name values)
  | some old =>
      match checkOld cfg state.globals name.bytes values with
      | .refuse => some ⟨1, state⟩
      | .fault => none
      | .proceed globals =>
          let deleted := { state with
            data := deleteOld cfg.cfgEnvSize state.data old
            globals := globals }
          some (setenvTail cfg deleted name values)

end UBoot.Env.Nvedit
