import UBoot.Lib.Strings
import UBoot.Net.NetSend
import UBoot.Net.Tftp

/-!
The NFS client of net/nfs.c: the RPC calls that it sends, the parsers of the
replies and NfsHandler. `int` and `unsigned` have 32 bits, and the machine is big
endian. Every parser copies the packet into a local struct rpc_t first; `stack`
is what that struct held before, and a copy that runs past it ends the model of
the client (`smashed`). `copies` and `stored` note the copies into the local
reply and the blocks that store_block got. nfs_path_buff begins at address 2 of
`nfsPathMem`, behind the bytes that dirname can reach.
-/

namespace UBoot.Net.Nfs

open Lib.Strings Library.Memory NetReceive
open NetSend (StartAgain)
open Tftp (NetState)

def sunrpcPort : Nat := 111

def progPortmap : Nat := 100000

def progNfs : Nat := 100003

def progMount : Nat := 100005

def nfsFhsize : Nat := 32

def nfsReadSize : Nat := 1024

def nfserrIsdir : Int := 21

def nfserrInval : Int := 22

/-- sizeof (struct rpc_t). -/
def rpcSize : Nat := 2048

/-- sizeof (rpc_pkt.u.reply). -/
def replySize : Nat := 100

inductive NfsState where
  | prclookupProgMountReq
  | prclookupProgNfsReq
  | mountReq
  | umountReq
  | lookupReq
  | readReq
  | readlinkReq
  deriving DecidableEq

inductive NfsRx where
  | nfsHandler
  | startAgainHandler
  deriving DecidableEq

inductive NfsTimer where
  | nfsTimeout
  | startAgainTimeout

structure RpcCall where
  id : Nat
  prog : Nat
  proc : Nat
  port : Nat
  data : List UInt8

/-- A block for store_block, out of a packet of `received` bytes. -/
structure StoredData where
  offset : Nat
  len : Nat
  received : Nat

structure NfsClient where
  netState : NetState
  packetHandler : NfsRx
  timer : Option NfsTimer
  fsMounted : Bool
  rpcId : Nat
  nfsOffset : Int
  nfsLen : Nat
  dirfh : List UInt8
  filefh : List UInt8
  nfsDownloadState : NetState
  nfsServerIP : Nat
  nfsSrvMountPort : Nat
  nfsSrvNfsPort : Nat
  nfsOurPort : Nat
  nfsState : NfsState
  nfsPathMem : Buffer
  nfsFilename : Nat
  loadAddr : Nat
  mem : Buffer
  netBootFileXferSize : Nat
  sent : List RpcCall
  copies : List Nat
  stored : List StoredData
  smashed : Bool

def nfsPath : Nat := 2

/-- The length of the string at `start`, which ends in `fuel` bytes. -/
def strlen (mem : Buffer) : Nat → Nat → Nat
  | 0, _ => 0
  | fuel + 1, start => if mem start = 0 then 0 else strlen mem fuel (start + 1) + 1

def pathBuffSize : Nat := 2048

def stringAt (mem : Buffer) (start : Nat) : List UInt8 :=
  slice mem start (strlen mem pathBuffSize start)

/-- The last '/' among the first `count` bytes of the path. -/
def basenameFrom (mem : Buffer) : Nat → Nat
  | 0 => nfsPath - 1
  | count + 1 => if mem (nfsPath + count) = 47 then nfsPath + count + 1 else basenameFrom mem count

def basename (mem : Buffer) : Nat := basenameFrom mem (strlen mem pathBuffSize nfsPath)

def dirname (mem : Buffer) : Buffer := splice mem (basename mem - 1) [0]

def storeBlock (client : NfsClient) (src : Buffer) (offset len received : Nat) : NfsClient :=
  let newsize := (offset + len) % 2 ^ 32
  { client with
    mem := copy (2 ^ 32) client.mem (client.loadAddr + offset) src len
    stored := client.stored ++ [⟨offset, len, received⟩]
    netBootFileXferSize :=
      if client.netBootFileXferSize < newsize then newsize else client.netBootFileXferSize }

section Calls

/-- AUTH_UNIX with an empty host name, and the AUTH_NONE verifier. -/
def rpcAddCredentials : List UInt8 :=
  bytes32 1 ++ bytes32 20 ++ bytes32 0 ++ bytes32 0 ++ bytes32 0 ++ bytes32 0 ++ bytes32 0 ++
    bytes32 0 ++ bytes32 0

def rpcReq (client : NfsClient) (prog proc : Nat) (data : List UInt8) : NfsClient :=
  let id := (client.rpcId + 1) % 2 ^ 32
  let port :=
    if prog = progPortmap then sunrpcPort
    else if prog = progMount then client.nfsSrvMountPort
    else client.nfsSrvNfsPort
  { client with
    rpcId := id
    sent := client.sent ++ [⟨id, prog, proc, port, data⟩] }

def rpcLookupReq (client : NfsClient) (prog ver : Nat) : NfsClient :=
  rpcReq client progPortmap 3
    (bytes32 0 ++ bytes32 0 ++ bytes32 0 ++ bytes32 0 ++ bytes32 prog ++ bytes32 ver ++ bytes32 17 ++
      bytes32 0)

/-- A string with its length, filled up to a whole number of words. -/
def rpcString (text : List UInt8) : List UInt8 :=
  bytes32 text.length ++ text ++ List.replicate ((4 - text.length % 4) % 4) 0

def nfsMountReq (client : NfsClient) : NfsClient :=
  rpcReq client progMount 1 (rpcAddCredentials ++ rpcString (stringAt client.nfsPathMem nfsPath))

def nfsUmountallReq (client : NfsClient) : NfsClient :=
  if client.nfsSrvMountPort = 0xffffffff ∨ client.fsMounted = false then client
  else rpcReq client progMount 4 rpcAddCredentials

def nfsReadlinkReq (client : NfsClient) : NfsClient :=
  rpcReq client progNfs 5 (rpcAddCredentials ++ client.filefh)

def nfsLookupReq (client : NfsClient) : NfsClient :=
  rpcReq client progNfs 4
    (rpcAddCredentials ++ client.dirfh ++ rpcString (stringAt client.nfsPathMem client.nfsFilename))

def nfsReadReq (client : NfsClient) : NfsClient :=
  rpcReq client progNfs 6
    (rpcAddCredentials ++ client.filefh ++ bytes32 (toUlong client.nfsOffset) ++
      bytes32 client.nfsLen ++ bytes32 0)

def nfsSend (client : NfsClient) : NfsClient :=
  match client.nfsState with
  | .prclookupProgMountReq => rpcLookupReq client progMount 1
  | .prclookupProgNfsReq => rpcLookupReq client progNfs 2
  | .mountReq => nfsMountReq client
  | .umountReq => nfsUmountallReq client
  | .lookupReq => nfsLookupReq client
  | .readReq => nfsReadReq client
  | .readlinkReq => nfsReadlinkReq client

end Calls

section Replies

/-- `reply.data[k]`. -/
def replyData (rpc : Buffer) (k : Nat) : Nat := be32 rpc (24 + 4 * k)

def statusError (rpc : Buffer) : Prop := be32 rpc 8 ≠ 0 ∨ be32 rpc 12 ≠ 0 ∨ be32 rpc 20 ≠ 0

instance (rpc : Buffer) : Decidable (statusError rpc) :=
  inferInstanceAs (Decidable (be32 rpc 8 ≠ 0 ∨ be32 rpc 12 ≠ 0 ∨ be32 rpc 20 ≠ 0))

def rpcLookupReply (client : NfsClient) (prog : Nat) (rpc : Buffer) : NfsClient × Int :=
  if be32 rpc 0 ≠ client.rpcId then (client, -1)
  else if statusError rpc then (client, -1)
  else if prog = progMount then ({ client with nfsSrvMountPort := replyData rpc 0 }, 0)
  else ({ client with nfsSrvNfsPort := replyData rpc 0 }, 0)

def nfsMountReply (client : NfsClient) (rpc : Buffer) : NfsClient × Int :=
  if be32 rpc 0 ≠ client.rpcId then (client, -1)
  -- the file handle stands behind the status word
  else if statusError rpc ∨ replyData rpc 0 ≠ 0 then (client, -1)
  else ({ client with fsMounted := true, dirfh := slice rpc 28 nfsFhsize }, 0)

def nfsUmountallReply (client : NfsClient) (rpc : Buffer) : NfsClient × Int :=
  if be32 rpc 0 ≠ client.rpcId then (client, -1)
  else if statusError rpc then (client, -1)
  else ({ client with fsMounted := false, dirfh := List.replicate nfsFhsize 0 }, 0)

def nfsLookupReply (client : NfsClient) (rpc : Buffer) : NfsClient × Int :=
  if be32 rpc 0 ≠ client.rpcId then (client, -1)
  else if statusError rpc ∨ replyData rpc 0 ≠ 0 then (client, -1)
  else ({ client with filefh := slice rpc 28 nfsFhsize }, 0)

/-- The path behind a reply of nfs_readlink_reply; the NUL stands one byte too far where the link
is a relative one. -/
def linkedPath (mem rpc : Buffer) : Buffer :=
  let rlen := replyData rpc 1
  -- a relative link: behind the directory and a slash
  if rpc 32 ≠ 47 then
    let pathlen := strlen mem pathBuffSize nfsPath + 1
    let slashed := splice mem (nfsPath + pathlen - 1) [47, 0]
    splice (splice slashed (nfsPath + pathlen) (slice rpc 32 rlen)) (nfsPath + pathlen + rlen + 1) [0]
  else splice (splice mem nfsPath (slice rpc 32 rlen)) (nfsPath + rlen) [0]

def nfsReadlinkReply (client : NfsClient) (rpc : Buffer) : NfsClient × Int :=
  if be32 rpc 0 ≠ client.rpcId then (client, -1)
  else if statusError rpc ∨ replyData rpc 0 ≠ 0 then (client, -1)
  else ({ client with nfsPathMem := linkedPath client.nfsPathMem rpc }, 0)

/-- `pkt` and `len` are the packet; the data lies behind the reply header. -/
def nfsReadReply (client : NfsClient) (pkt : Buffer) (len : Nat) (rpc : Buffer) : NfsClient × Int :=
  if be32 rpc 0 ≠ client.rpcId then (client, -1)
  else if statusError rpc ∨ replyData rpc 0 ≠ 0 then
    -- an error of the RPC layer has no NFS status
    if be32 rpc 8 ≠ 0 then (client, -9999)
    else if be32 rpc 20 ≠ 0 then (client, -9999)
    else (client, toInt (toUlong (-(replyData rpc 0 : Int))))
  else
    -- the count is not compared with len
    let rlen := replyData rpc 18
    (storeBlock client (fun i => pkt (replySize + i)) (toUlong client.nfsOffset) rlen len, toInt rlen)

/-- The bytes that the parser of a state copies into its local reply. -/
def copyCount (state : NfsState) (len : Nat) : Nat :=
  match state with
  | .readReq => replySize
  | _ => len

/-- The local reply behind the copy. -/
def rpcPkt (pkt stack : Buffer) (count : Nat) : Buffer := fun i => if i < count then pkt i else stack i

end Replies

section Handler

def mountAnswered (reply : NfsClient × Int) : NfsClient :=
  if reply.2 ≠ 0 then nfsSend { reply.1 with nfsState := .umountReq }
  else nfsSend { reply.1 with nfsState := .lookupReq }

def umountAnswered (reply : NfsClient × Int) : NfsClient :=
  if reply.2 ≠ 0 then { reply.1 with netState := .fail }
  else { reply.1 with netState := reply.1.nfsDownloadState }

def lookupAnswered (reply : NfsClient × Int) : NfsClient :=
  if reply.2 ≠ 0 then nfsSend { reply.1 with nfsState := .umountReq }
  else nfsSend { reply.1 with nfsState := .readReq, nfsOffset := 0, nfsLen := nfsReadSize }

def readlinkAnswered (reply : NfsClient × Int) : NfsClient :=
  if reply.2 ≠ 0 then nfsSend { reply.1 with nfsState := .umountReq }
  else nfsSend { reply.1 with
    nfsFilename := basename reply.1.nfsPathMem
    nfsPathMem := dirname reply.1.nfsPathMem
    nfsState := .mountReq }

def readAnswered (reply : NfsClient × Int) : NfsClient :=
  let timed := { reply.1 with timer := some .nfsTimeout }
  -- more data may follow
  if 0 < reply.2 then nfsSend { timed with nfsOffset := toInt (toUlong (timed.nfsOffset + reply.2)) }
  else if reply.2 = -nfserrIsdir ∨ reply.2 = -nfserrInval then
    nfsSend { timed with nfsState := .readlinkReq }
  else
    nfsSend { timed with
      nfsDownloadState := if reply.2 = 0 then .success else timed.nfsDownloadState
      nfsState := .umountReq }

/-- The cases of NfsHandler, behind the copy of the packet. -/
def nfsAnswer (client : NfsClient) (pkt : Buffer) (len : Nat) (rpc : Buffer) : NfsClient :=
  match client.nfsState with
  -- what rpc_lookup_reply returns is not looked at
  | .prclookupProgMountReq =>
      nfsSend { (rpcLookupReply client progMount rpc).1 with nfsState := .prclookupProgNfsReq }
  | .prclookupProgNfsReq => nfsSend { (rpcLookupReply client progNfs rpc).1 with nfsState := .mountReq }
  | .mountReq => mountAnswered (nfsMountReply client rpc)
  | .umountReq => umountAnswered (nfsUmountallReply client rpc)
  | .lookupReq => lookupAnswered (nfsLookupReply client rpc)
  | .readlinkReq => readlinkAnswered (nfsReadlinkReply client rpc)
  | .readReq => readAnswered (nfsReadReply client pkt len rpc)

def nfsHandler (client : NfsClient) (pkt : Buffer) (dest len : Nat) (stack : Buffer) : NfsClient :=
  if dest ≠ client.nfsOurPort then client
  else
    let count := copyCount client.nfsState len
    let copied := { client with copies := client.copies ++ [count] }
    -- memcpy runs over the local struct
    if rpcSize < count then { copied with smashed := true }
    else nfsAnswer copied pkt len (rpcPkt pkt stack count)

end Handler

/-- What NfsStart reads: BootFile up to its NUL, and two addresses. -/
structure NfsSettings where
  bootFile : List UInt8
  netOurIP : Nat
  netServerIP : Nat

def stringToIp : Nat → List UInt8 → Nat → Nat
  | 0, _, addr => addr
  | count + 1, s, addr =>
      let parsed := simpleStrtoul s 10
      stringToIp count (parsed.rest.drop 1) ((addr * 256 + parsed.value % 256) % 2 ^ 32)

/-- "%02lX". -/
def hexByte (value : Nat) : List UInt8 :=
  let digit := fun d => UInt8.ofNat (if d < 10 then 48 + d else 55 + d)
  [digit (value / 16), digit (value % 16)]

def defaultFilename (ip : Nat) : List UInt8 :=
  ascii "/nfsroot/" ++ hexByte (ip % 256) ++ hexByte (ip / 256 % 256) ++ hexByte (ip / 65536 % 256) ++
    hexByte (ip / 16777216 % 256) ++ ascii ".img"

/-- The server and the path that NfsStart takes from BootFile. -/
def bootPath (settings : NfsSettings) : Nat × List UInt8 :=
  if settings.bootFile = [] then (settings.netServerIP, defaultFilename settings.netOurIP)
  else
    match cutAt 58 settings.bootFile with
    -- "server:path"
    | some cut => (stringToIp 4 settings.bootFile 0, cut.2)
    | none => (settings.netServerIP, settings.bootFile)

/-- NfsStart, and NetLoop's reset of the size behind it. -/
def nfsStart (client : NfsClient) (settings : NfsSettings) : NfsClient :=
  let path := splice client.nfsPathMem nfsPath ((bootPath settings).2 ++ [0])
  let started := { client with
    nfsDownloadState := .fail
    nfsServerIP := (bootPath settings).1
    nfsFilename := basename path
    nfsPathMem := dirname path
    timer := some .nfsTimeout
    packetHandler := .nfsHandler
    nfsState := .prclookupProgMountReq
    nfsOurPort := 1000 }
  { nfsSend started with netBootFileXferSize := 0 }

def netStartAgain (client : NfsClient) : StartAgain → NfsClient
  | .returns => client
  | .fails => { client with netState := .fail }
  | .waits => { client with packetHandler := .startAgainHandler, timer := some .startAgainTimeout }
  | .restarts => { client with netState := .restart }

def timeHandler (client : NfsClient) : NfsClient :=
  match client.timer with
  | none => client
  | some .nfsTimeout => { client with timer := none, netState := .fail }
  | some .startAgainTimeout => { client with timer := none, netState := .restart }

def restart (client : NfsClient) (settings : NfsSettings) : NfsClient :=
  if client.netState = .restart then nfsStart { client with netState := .continue } settings
  else client

def rxHandler (client : NfsClient) (pkt : Buffer) (dest len : Nat) (stack : Buffer) : NfsClient :=
  match client.packetHandler with
  | .nfsHandler => nfsHandler client pkt dest len stack
  | .startAgainHandler => client

inductive NfsEvent where
  | receive (pkt : Buffer) (dest len : Nat) (stack : Buffer)
  | timeout
  | arpTimeout (again : StartAgain)
  | restart (settings : NfsSettings)

def loopStep (client : NfsClient) : NfsEvent → NfsClient
  | .receive pkt dest len stack => rxHandler client pkt dest len stack
  | .timeout => timeHandler client
  | .arpTimeout again => netStartAgain client again
  | .restart settings => restart client settings

def nfsStep (client : NfsClient) (event : NfsEvent) : NfsClient :=
  if client.smashed then client else loopStep client event

end UBoot.Net.Nfs
