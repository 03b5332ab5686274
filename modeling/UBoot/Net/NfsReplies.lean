import UBoot.Library.Runs
import UBoot.Net.Nfs

/-!
Replies that the NFS client did not ask for, and replies that are shorter than
they say, over every run of the client.
-/

namespace UBoot.Net.NfsReplies

open Lib.Strings Library.Memory Library.Runs NetReceive Nfs
open NetSend (StartAgain)

/-- Nothing that the download depends on has changed. -/
structure Unchanged (before after : NfsClient) : Prop where
  nfsState : after.nfsState = before.nfsState
  nfsOffset : after.nfsOffset = before.nfsOffset
  mountPort : after.nfsSrvMountPort = before.nfsSrvMountPort
  nfsPort : after.nfsSrvNfsPort = before.nfsSrvNfsPort
  dirfh : after.dirfh = before.dirfh
  filefh : after.filefh = before.filefh
  mem : after.mem = before.mem
  size : after.netBootFileXferSize = before.netBootFileXferSize
  smashed : after.smashed = before.smashed

/-- A reply to another request than the last one. -/
structure Stale (client : NfsClient) (pkt : Buffer) (len : Nat) : Prop where
  running : client.smashed = false
  header : 4 ≤ len
  id : be32 pkt 0 ≠ client.rpcId

def Harmless (client : NfsClient) (dest len : Nat) : Prop :=
  client.packetHandler = .startAgainHandler ∨ dest ≠ 1000 ∨
    client.nfsState = .umountReq ∧ len ≤ rpcSize

/-- A READ reply that is taken. -/
def Accepted (client : NfsClient) (pkt : Buffer) : Prop :=
  be32 pkt 0 = client.rpcId ∧ ¬ statusError pkt ∧ replyData pkt 0 = 0

/-- The copies fit the local reply, and the image was stored out of the packets. -/
structure Safe (client : NfsClient) : Prop where
  copied : ∀ count ∈ client.copies, count ≤ rpcSize
  stored : ∀ block ∈ client.stored, block.len ≤ block.received - replySize

/-- The packet is no longer than a struct rpc_t, and a READ reply that is taken has as many data
bytes as it says. -/
def Fits (client : NfsClient) : NfsEvent → Prop
  | .receive pkt dest len _ =>
      client.smashed = false → client.packetHandler = .nfsHandler → dest = client.nfsOurPort →
      (client.nfsState ≠ .readReq → len ≤ rpcSize) ∧
      (client.nfsState = .readReq → Accepted client pkt → replyData pkt 18 ≤ len - replySize)
  | .timeout => True
  | .arpTimeout _ => True
  | .restart _ => True

section Frames
variable {client : NfsClient}

/-- Sending changes nothing but rpc_id. -/
theorem nfs_send_eq (client : NfsClient) :
    ∃ id sent, nfsSend client = { client with rpcId := id, sent := sent } := by
  unfold nfsSend
  split
  · exact ⟨_, _, rfl⟩
  · exact ⟨_, _, rfl⟩
  · exact ⟨_, _, rfl⟩
  · unfold nfsUmountallReq
    split
    · exact ⟨client.rpcId, client.sent, rfl⟩
    · exact ⟨_, _, rfl⟩
  · exact ⟨_, _, rfl⟩
  · exact ⟨_, _, rfl⟩
  · exact ⟨_, _, rfl⟩

/-- The logs, the port and the flag are the same. -/
structure SameLogs (before after : NfsClient) : Prop where
  copies : after.copies = before.copies
  stored : after.stored = before.stored
  port : after.nfsOurPort = before.nfsOurPort
  smashed : after.smashed = before.smashed

theorem same_logs_refl (client : NfsClient) : SameLogs client client := ⟨rfl, rfl, rfl, rfl⟩

theorem same_logs_trans {first second third : NfsClient} (front : SameLogs first second)
    (back : SameLogs second third) : SameLogs first third :=
  ⟨back.copies.trans front.copies, back.stored.trans front.stored, back.port.trans front.port,
    back.smashed.trans front.smashed⟩

theorem nfs_send_logs (client : NfsClient) :
    SameLogs client (nfsSend client) ∧ (nfsSend client).nfsState = client.nfsState := by
  obtain ⟨id, sent, same⟩ := nfs_send_eq client
  rw [same]
  exact ⟨⟨rfl, rfl, rfl, rfl⟩, rfl⟩

theorem send_logs {next : NfsClient} (same : SameLogs client next) : SameLogs client (nfsSend next) :=
  same_logs_trans same (nfs_send_logs next).1

theorem lookup_reply_logs (prog : Nat) (rpc : Buffer) :
    SameLogs client (rpcLookupReply client prog rpc).1 := by
  unfold rpcLookupReply
  split
  · exact same_logs_refl client
  split
  · exact same_logs_refl client
  split
  · exact ⟨rfl, rfl, rfl, rfl⟩
  · exact ⟨rfl, rfl, rfl, rfl⟩

theorem mount_reply_logs (rpc : Buffer) : SameLogs client (nfsMountReply client rpc).1 := by
  unfold nfsMountReply
  split
  · exact same_logs_refl client
  split
  · exact same_logs_refl client
  · exact ⟨rfl, rfl, rfl, rfl⟩

theorem umountall_reply_logs (rpc : Buffer) : SameLogs client (nfsUmountallReply client rpc).1 := by
  unfold nfsUmountallReply
  split
  · exact same_logs_refl client
  split
  · exact same_logs_refl client
  · exact ⟨rfl, rfl, rfl, rfl⟩

theorem file_reply_logs (rpc : Buffer) : SameLogs client (nfsLookupReply client rpc).1 := by
  unfold nfsLookupReply
  split
  · exact same_logs_refl client
  split
  · exact same_logs_refl client
  · exact ⟨rfl, rfl, rfl, rfl⟩

theorem readlink_reply_logs (rpc : Buffer) : SameLogs client (nfsReadlinkReply client rpc).1 := by
  unfold nfsReadlinkReply
  split
  · exact same_logs_refl client
  split
  · exact same_logs_refl client
  · exact ⟨rfl, rfl, rfl, rfl⟩

/-- nfs_read_reply stores the block of an accepted reply and nothing else. -/
theorem read_reply_refused {pkt rpc : Buffer} {len : Nat} (refused : ¬ Accepted client rpc) :
    (nfsReadReply client pkt len rpc).1 = client := by
  unfold nfsReadReply
  by_cases other : be32 rpc 0 ≠ client.rpcId
  · rw [if_pos other]
  by_cases error : statusError rpc ∨ replyData rpc 0 ≠ 0
  · rw [if_neg other, if_pos error]
    split
    · rfl
    split
    · rfl
    · rfl
  · obtain ⟨status, data⟩ := not_or.mp error
    exact absurd ⟨not_not.mp other, status, not_not.mp data⟩ refused

theorem read_reply_accepted {pkt rpc : Buffer} {len : Nat} (accepted : Accepted client rpc) :
    nfsReadReply client pkt len rpc =
      (storeBlock client (fun i => pkt (replySize + i)) (toUlong client.nfsOffset) (replyData rpc 18) len,
        toInt (replyData rpc 18)) := by
  obtain ⟨id, status, data⟩ := accepted
  rw [nfsReadReply, if_neg (not_not.mpr id), if_neg (not_or.mpr ⟨status, not_not.mpr data⟩)]

theorem mount_answered_logs (reply : NfsClient × Int) : SameLogs reply.1 (mountAnswered reply) := by
  unfold mountAnswered
  split
  · exact send_logs ⟨rfl, rfl, rfl, rfl⟩
  · exact send_logs ⟨rfl, rfl, rfl, rfl⟩

theorem umount_answered_logs (reply : NfsClient × Int) : SameLogs reply.1 (umountAnswered reply) := by
  unfold umountAnswered
  split
  · exact ⟨rfl, rfl, rfl, rfl⟩
  · exact ⟨rfl, rfl, rfl, rfl⟩

theorem lookup_answered_logs (reply : NfsClient × Int) : SameLogs reply.1 (lookupAnswered reply) := by
  unfold lookupAnswered
  split
  · exact send_logs ⟨rfl, rfl, rfl, rfl⟩
  · exact send_logs ⟨rfl, rfl, rfl, rfl⟩

theorem readlink_answered_logs (reply : NfsClient × Int) :
    SameLogs reply.1 (readlinkAnswered reply) := by
  unfold readlinkAnswered
  split
  · exact send_logs ⟨rfl, rfl, rfl, rfl⟩
  · exact send_logs ⟨rfl, rfl, rfl, rfl⟩

theorem read_answered_logs (reply : NfsClient × Int) : SameLogs reply.1 (readAnswered reply) := by
  unfold readAnswered
  simp only
  split
  · exact send_logs ⟨rfl, rfl, rfl, rfl⟩
  split
  · exact send_logs ⟨rfl, rfl, rfl, rfl⟩
  · exact send_logs ⟨rfl, rfl, rfl, rfl⟩

/-- The block that an answer stores. -/
def newStored (client : NfsClient) (len : Nat) (rpc : Buffer) (blocks : List StoredData) : Prop :=
  (client.nfsState = .readReq ∧ Accepted client rpc ∧
    blocks = [⟨toUlong client.nfsOffset, replyData rpc 18, len⟩]) ∨
  ¬ (client.nfsState = .readReq ∧ Accepted client rpc) ∧ blocks = []

/-- What an answer does to the logs. -/
theorem nfs_answer_logs (pkt : Buffer) (len : Nat) (rpc : Buffer) : ∃ blocks,
    newStored client len rpc blocks ∧
      SameLogs { client with stored := client.stored ++ blocks } (nfsAnswer client pkt len rpc) := by
  -- All states but one store nothing.
  have quiet : ∀ {after : NfsClient}, ¬ (client.nfsState = .readReq ∧ Accepted client rpc) →
      SameLogs client after → ∃ blocks, newStored client len rpc blocks ∧
        SameLogs { client with stored := client.stored ++ blocks } after := by
    intro after calm same
    refine ⟨[], Or.inr ⟨calm, rfl⟩, same.copies, ?_, same.port, same.smashed⟩
    exact same.stored.trans (List.append_nil _).symm
  unfold nfsAnswer
  -- The states in the order of the source; their parsers and answers leave the logs alone.
  split
  · rename_i state
    apply quiet fun both => by rw [state] at both; cases both.1
    have reply := @lookup_reply_logs client progMount rpc
    exact send_logs ⟨reply.copies, reply.stored, reply.port, reply.smashed⟩
  · rename_i state
    apply quiet fun both => by rw [state] at both; cases both.1
    have reply := @lookup_reply_logs client progNfs rpc
    exact send_logs ⟨reply.copies, reply.stored, reply.port, reply.smashed⟩
  · rename_i state
    apply quiet fun both => by rw [state] at both; cases both.1
    exact same_logs_trans (mount_reply_logs rpc) (mount_answered_logs _)
  · rename_i state
    apply quiet fun both => by rw [state] at both; cases both.1
    exact same_logs_trans (umountall_reply_logs rpc) (umount_answered_logs _)
  · rename_i state
    apply quiet fun both => by rw [state] at both; cases both.1
    exact same_logs_trans (file_reply_logs rpc) (lookup_answered_logs _)
  · rename_i state
    apply quiet fun both => by rw [state] at both; cases both.1
    exact same_logs_trans (readlink_reply_logs rpc) (readlink_answered_logs _)
  -- STATE_READ_REQ stores a block where it takes the reply.
  · rename_i state
    have answered := read_answered_logs (nfsReadReply client pkt len rpc)
    by_cases accepted : Accepted client rpc
    · rw [read_reply_accepted accepted] at answered ⊢
      refine ⟨_, Or.inl ⟨state, accepted, rfl⟩, ?_⟩
      exact ⟨answered.copies, answered.stored, answered.port, answered.smashed⟩
    · rw [read_reply_refused accepted] at answered
      exact quiet (fun both => accepted both.2) answered

end Frames

section Logs
variable {client : NfsClient}

/-- The fields of a READ reply lie in the bytes that are always copied. -/
theorem read_reply_word (pkt stack : Buffer) {place : Nat} (inside : place + 4 ≤ replySize) :
    be32 (rpcPkt pkt stack replySize) place = be32 pkt place := by
  apply be32_congr
  intro i bound
  have below : place + i < replySize := by omega
  rw [rpcPkt, if_pos below]

theorem read_reply_accepted_iff (pkt stack : Buffer) :
    (Accepted client (rpcPkt pkt stack replySize) ↔ Accepted client pkt) ∧
      replyData (rpcPkt pkt stack replySize) 18 = replyData pkt 18 := by
  have word := @read_reply_word pkt stack
  have header : be32 (rpcPkt pkt stack replySize) 0 = be32 pkt 0 := word (by decide)
  have rstatus : be32 (rpcPkt pkt stack replySize) 8 = be32 pkt 8 := word (by decide)
  have verifier : be32 (rpcPkt pkt stack replySize) 12 = be32 pkt 12 := word (by decide)
  have astatus : be32 (rpcPkt pkt stack replySize) 20 = be32 pkt 20 := word (by decide)
  have data : replyData (rpcPkt pkt stack replySize) 0 = replyData pkt 0 := word (by decide)
  refine ⟨?_, word (by decide)⟩
  unfold Accepted statusError
  rw [header, rstatus, verifier, astatus, data]

/-- What one event adds to the logs. -/
structure Adds (before after : NfsClient) (counts : List Nat) (blocks : List StoredData) : Prop where
  copies : after.copies = before.copies ++ counts
  stored : after.stored = before.stored ++ blocks

/-- What is added fits. -/
def AddsFit (counts : List Nat) (blocks : List StoredData) : Prop :=
  (∀ count ∈ counts, count ≤ rpcSize) ∧ ∀ block ∈ blocks, block.len ≤ block.received - replySize

theorem adds_nothing {after : NfsClient} {event : NfsEvent} (copies : after.copies = client.copies)
    (stored : after.stored = client.stored) (fits : Fits client event) :
    ∃ counts blocks, Adds client after counts blocks ∧ (AddsFit counts blocks ↔ Fits client event) := by
  refine ⟨[], [], ⟨?_, ?_⟩, iff_of_true ⟨?_, ?_⟩ fits⟩
  · rw [copies, List.append_nil]
  · rw [stored, List.append_nil]
  · exact fun _ member => absurd member List.not_mem_nil
  · exact fun _ member => absurd member List.not_mem_nil

theorem handler_adds {pkt : Buffer} {dest len : Nat} {stack : Buffer} (running : client.smashed = false)
    (listens : client.packetHandler = .nfsHandler) (ours : dest = client.nfsOurPort) :
    ∃ counts blocks, Adds client (nfsHandler client pkt dest len stack) counts blocks ∧
      (AddsFit counts blocks ↔ Fits client (.receive pkt dest len stack)) := by
  have called : Fits client (.receive pkt dest len stack) ↔
      (client.nfsState ≠ .readReq → len ≤ rpcSize) ∧
      (client.nfsState = .readReq → Accepted client pkt → replyData pkt 18 ≤ len - replySize) :=
    ⟨fun fits => fits running listens ours, fun fits _ _ _ => fits⟩
  -- The read parser copies the header of a reply only, the others the whole packet.
  have counted : copyCount client.nfsState len ≤ rpcSize ↔
      (client.nfsState ≠ .readReq → len ≤ rpcSize) := by
    by_cases reads : client.nfsState = .readReq
    · have header : replySize ≤ rpcSize := by decide
      rw [reads]
      exact iff_of_true header fun other => absurd rfl other
    · have whole : copyCount client.nfsState len = len := by
        unfold copyCount
        split
        · rename_i same
          exact absurd same reads
        · rfl
      rw [whole]
      exact ⟨fun short _ => short, fun short => short reads⟩
  rw [called, nfsHandler, if_neg (not_not.mpr ours)]
  simp only
  -- A packet that is too long ends the client before it is parsed.
  by_cases large : rpcSize < copyCount client.nfsState len
  · rw [if_pos large]
    refine ⟨[copyCount client.nfsState len], [], ⟨rfl, (List.append_nil _).symm⟩, ?_⟩
    refine iff_of_false ?_ ?_
    · intro fits
      exact absurd (fits.1 _ List.mem_cons_self) (Nat.not_le_of_lt large)
    · intro fits
      exact absurd (counted.mpr fits.1) (Nat.not_le_of_lt large)
  · rw [if_neg large]
    have short := Nat.le_of_not_lt large
    obtain ⟨blocks, new, logs⟩ := @nfs_answer_logs
      { client with copies := client.copies ++ [copyCount client.nfsState len] } pkt len
      (rpcPkt pkt stack (copyCount client.nfsState len))
    refine ⟨[copyCount client.nfsState len], blocks, ⟨logs.copies, logs.stored⟩, ?_⟩
    have copied : ∀ count ∈ [copyCount client.nfsState len], count ≤ rpcSize := by
      intro count member
      rw [List.mem_singleton.mp member]
      exact short
    -- The parser saw the packet itself, as far as it was copied; the count of the reply is in there.
    rcases new with ⟨reads, accepted, block⟩ | ⟨calm, none⟩
    · have state : client.nfsState = .readReq := reads
      obtain ⟨same, data⟩ := @read_reply_accepted_iff client pkt stack
      have taken : Accepted client pkt := by
        apply same.mp
        rw [state] at accepted
        exact accepted
      subst block
      have length : replyData (rpcPkt pkt stack (copyCount client.nfsState len)) 18 =
          replyData pkt 18 := by
        rw [state]
        exact data
      constructor
      · intro fits
        have inside := fits.2 _ List.mem_cons_self
        rw [length] at inside
        exact ⟨fun other => absurd state other, fun _ _ => inside⟩
      · intro fits
        refine ⟨copied, ?_⟩
        intro block member
        rw [List.mem_singleton.mp member]
        show replyData (rpcPkt pkt stack (copyCount client.nfsState len)) 18 ≤ len - replySize
        rw [length]
        exact fits.2 state taken
    · subst none
      refine iff_of_true ⟨copied, fun _ member => absurd member List.not_mem_nil⟩ ?_
      refine ⟨counted.mp short, ?_⟩
      intro state accepted
      have same := (@read_reply_accepted_iff client pkt stack).1
      refine absurd ⟨state, ?_⟩ calm
      rw [state]
      exact same.mpr accepted

theorem nfs_step_adds (client : NfsClient) (event : NfsEvent) :
    ∃ counts blocks, Adds client (nfsStep client event) counts blocks ∧
      (AddsFit counts blocks ↔ Fits client event) := by
  -- Nothing happens behind a copy over the stack.
  by_cases smashed : client.smashed = true
  · rw [nfsStep, if_pos smashed]
    apply adds_nothing rfl rfl
    cases event with
    | receive pkt dest len stack =>
        intro running
        rw [smashed] at running
        cases running
    | timeout => trivial
    | arpTimeout again => trivial
    | restart settings => trivial
  rw [nfsStep, if_neg smashed]
  have running := (Bool.not_eq_true _).mp smashed
  cases event with
  | receive pkt dest len stack =>
      show ∃ counts blocks, Adds client (rxHandler client pkt dest len stack) counts blocks ∧ _
      unfold rxHandler
      -- The handler that NetStartAgain leaves drops every packet.
      split
      · rename_i listens
        by_cases ours : dest = client.nfsOurPort
        · exact handler_adds running listens ours
        · rw [nfsHandler, if_pos ours]
          exact adds_nothing rfl rfl fun _ _ same => absurd same ours
      · rename_i deaf
        apply adds_nothing rfl rfl
        intro _ listens
        rw [deaf] at listens
        cases listens
  | timeout =>
      show ∃ counts blocks, Adds client (timeHandler client) counts blocks ∧ _
      unfold timeHandler
      split
      · exact adds_nothing rfl rfl trivial
      · exact adds_nothing rfl rfl trivial
      · exact adds_nothing rfl rfl trivial
  | arpTimeout again =>
      cases again with
      | returns => exact adds_nothing rfl rfl trivial
      | fails => exact adds_nothing rfl rfl trivial
      | waits => exact adds_nothing rfl rfl trivial
      | restarts => exact adds_nothing rfl rfl trivial
  | restart settings =>
      show ∃ counts blocks, Adds client (restart client settings) counts blocks ∧ _
      unfold restart
      split
      · exact adds_nothing rfl rfl trivial
      · exact adds_nothing rfl rfl trivial

theorem safe_step_iff (client : NfsClient) (event : NfsEvent) :
    Safe (nfsStep client event) ↔ Safe client ∧ Fits client event := by
  obtain ⟨counts, blocks, adds, fits⟩ := nfs_step_adds client event
  rw [← fits]
  constructor
  · rintro ⟨copied, stored⟩
    rw [adds.copies] at copied
    rw [adds.stored] at stored
    refine ⟨⟨?_, ?_⟩, ?_, ?_⟩
    · exact fun count member => copied count (List.mem_append_left _ member)
    · exact fun block member => stored block (List.mem_append_left _ member)
    · exact fun count member => copied count (List.mem_append_right _ member)
    · exact fun block member => stored block (List.mem_append_right _ member)
  · rintro ⟨safe, copied, stored⟩
    refine ⟨?_, ?_⟩
    · intro count member
      rw [adds.copies] at member
      rcases List.mem_append.mp member with before | now
      · exact safe.copied count before
      · exact copied count now
    · intro block member
      rw [adds.stored] at member
      rcases List.mem_append.mp member with before | now
      · exact safe.stored block before
      · exact stored block now

/-- A run from a safe client is safe exactly when every packet fits. -/
theorem safe_run_iff (events : List NfsEvent) (client : NfsClient) :
    Safe (events.foldl nfsStep client) ↔ Safe client ∧
      Run (Guarded Fits (stepOf nfsStep)) client events (events.foldl nfsStep client) := by
  induction events generalizing client with
  | nil => exact ⟨fun safe => ⟨safe, Run.refl client⟩, fun both => both.1⟩
  | cons event rest ih =>
      rw [List.foldl_cons, ih, safe_step_iff]
      constructor
      · rintro ⟨⟨safe, fits⟩, run⟩
        exact ⟨safe, Run.next ⟨fits, rfl⟩ run⟩
      · rintro ⟨safe, run⟩
        cases run with
        | next step tail =>
            obtain ⟨fits, same⟩ := step
            rw [show _ = nfsStep client event from same] at tail
            exact ⟨⟨safe, fits⟩, tail⟩

end Logs

/-- A client that begins to load a file. -/
def nfsBegin (client : NfsClient) (settings : NfsSettings) : NfsClient :=
  nfsStart { client with copies := [], stored := [] } settings

/-- Over every run of the client, no reply overruns its copy and no byte of the image comes from
behind a packet, exactly when every packet fits. -/
theorem replies_inside_iff (client : NfsClient) (settings : NfsSettings) (events : List NfsEvent) :
    Safe (events.foldl nfsStep (nfsBegin client settings)) ↔
      Run (Guarded Fits (stepOf nfsStep)) (nfsBegin client settings) events
        (events.foldl nfsStep (nfsBegin client settings)) := by
  rw [safe_run_iff]
  have begun : Safe (nfsBegin client settings) :=
    ⟨fun _ member => absurd member List.not_mem_nil, fun _ member => absurd member List.not_mem_nil⟩
  exact ⟨fun both => both.2, fun run => ⟨begun, run⟩⟩

section StaleReplies
variable {client : NfsClient}

/-- A stale reply is refused by every parser, and leaves the client as it was. -/
theorem stale_refused {pkt stack rpc : Buffer} {len count : Nat} (stale : Stale client pkt len)
    (header : 4 ≤ count) (copy : rpc = rpcPkt pkt stack count) : be32 rpc 0 ≠ client.rpcId := by
  have same : be32 rpc 0 = be32 pkt 0 := by
    apply be32_congr
    intro i bound
    have below : 0 + i < count := by omega
    rw [copy, rpcPkt, if_pos below]
  rw [same]
  exact stale.id

/-- The state behind a stale reply. -/
def staleState : NfsState → NfsState
  | .prclookupProgMountReq => .prclookupProgNfsReq
  | .prclookupProgNfsReq => .mountReq
  | .mountReq => .umountReq
  | .umountReq => .umountReq
  | .lookupReq => .umountReq
  | .readReq => .umountReq
  | .readlinkReq => .umountReq

theorem stale_answer {pkt rpc : Buffer} {len : Nat} (refused : be32 rpc 0 ≠ client.rpcId) :
    (nfsAnswer client pkt len rpc).nfsState = staleState client.nfsState ∧
      (client.nfsState = .umountReq → nfsAnswer client pkt len rpc = { client with netState := .fail }) := by
  have failed : (-1 : Int) ≠ 0 := by decide
  unfold nfsAnswer
  split
  · rename_i state
    refine ⟨?_, fun umount => by rw [state] at umount; cases umount⟩
    rw [(nfs_send_logs _).2, state]
    rfl
  · rename_i state
    refine ⟨?_, fun umount => by rw [state] at umount; cases umount⟩
    rw [(nfs_send_logs _).2, state]
    rfl
  · rename_i state
    refine ⟨?_, fun umount => by rw [state] at umount; cases umount⟩
    rw [nfsMountReply, if_pos refused, mountAnswered, if_pos failed, (nfs_send_logs _).2, state]
    rfl
  · rename_i state
    rw [nfsUmountallReply, if_pos refused, umountAnswered, if_pos failed]
    exact ⟨by rw [state]; rfl, fun _ => rfl⟩
  · rename_i state
    refine ⟨?_, fun umount => by rw [state] at umount; cases umount⟩
    rw [nfsLookupReply, if_pos refused, lookupAnswered, if_pos failed, (nfs_send_logs _).2, state]
    rfl
  · rename_i state
    refine ⟨?_, fun umount => by rw [state] at umount; cases umount⟩
    rw [nfsReadlinkReply, if_pos refused, readlinkAnswered, if_pos failed, (nfs_send_logs _).2, state]
    rfl
  · rename_i state
    refine ⟨?_, fun umount => by rw [state] at umount; cases umount⟩
    have negative : ¬ (0 : Int) < -1 := by decide
    have link : ¬ ((-1 : Int) = -nfserrIsdir ∨ (-1 : Int) = -nfserrInval) := by decide
    rw [nfsReadReply, if_pos refused, readAnswered]
    simp only
    rw [if_neg negative, if_neg link, (nfs_send_logs _).2, state]
    rfl

theorem stale_state_ne {state : NfsState} (other : state ≠ .umountReq) : staleState state ≠ state := by
  cases state with
  | umountReq => exact absurd rfl other
  | prclookupProgMountReq => intro same; cases same
  | prclookupProgNfsReq => intro same; cases same
  | mountReq => intro same; cases same
  | lookupReq => intro same; cases same
  | readReq => intro same; cases same
  | readlinkReq => intro same; cases same

theorem unchanged_refl (client : NfsClient) : Unchanged client client :=
  ⟨rfl, rfl, rfl, rfl, rfl, rfl, rfl, rfl, rfl⟩

/-- A stale reply that NfsHandler gets. -/
theorem stale_handler_iff {pkt : Buffer} {len : Nat} (dest : Nat) (stack : Buffer)
    (stale : Stale client pkt len) (ours : client.nfsOurPort = 1000) :
    Unchanged client (nfsHandler client pkt dest len stack) ↔
      dest ≠ 1000 ∨ client.nfsState = .umountReq ∧ len ≤ rpcSize := by
  by_cases foreign : dest ≠ client.nfsOurPort
  · rw [nfsHandler, if_pos foreign]
    rw [ours] at foreign
    exact iff_of_true (unchanged_refl client) (Or.inl foreign)
  rw [nfsHandler, if_neg foreign]
  simp only
  have addressed : ¬ dest ≠ 1000 := by
    rw [ours] at foreign
    exact foreign
  -- The id is inside the bytes that are copied, in every state.
  have header : 4 ≤ copyCount client.nfsState len := by
    unfold copyCount
    split
    · exact (by decide : 4 ≤ replySize)
    · exact stale.header
  -- A copy over the stack is a change of the client.
  by_cases large : rpcSize < copyCount client.nfsState len
  · rw [if_pos large]
    refine iff_of_false ?_ ?_
    · intro same
      have running := same.smashed.symm.trans rfl
      rw [stale.running] at running
      cases running
    · rintro (other | ⟨umount, short⟩)
      · exact addressed other
      · rw [umount] at large
        exact Nat.not_le_of_lt large short
  · rw [if_neg large]
    obtain ⟨state, umounts⟩ := @stale_answer
      { client with copies := client.copies ++ [copyCount client.nfsState len] } pkt
      (rpcPkt pkt stack (copyCount client.nfsState len)) len
      (@stale_refused client pkt stack _ len _ stale header rfl)
    constructor
    · intro same
      -- Only STATE_UMOUNT_REQ stays behind a refused reply.
      by_cases umount : client.nfsState = .umountReq
      · refine Or.inr ⟨umount, ?_⟩
        rw [umount] at large
        exact Nat.le_of_not_lt large
      · exact absurd (state.symm.trans same.nfsState) (stale_state_ne umount)
    · rintro (other | ⟨umount, _⟩)
      · exact absurd other addressed
      · rw [umounts umount]
        exact ⟨rfl, rfl, rfl, rfl, rfl, rfl, rfl, rfl, rfl⟩

theorem nfs_step_port (event : NfsEvent) (ours : client.nfsOurPort = 1000) :
    (nfsStep client event).nfsOurPort = 1000 := by
  unfold nfsStep
  split
  · exact ours
  cases event with
  | receive pkt dest len stack =>
      show (rxHandler client pkt dest len stack).nfsOurPort = 1000
      unfold rxHandler
      split
      · unfold nfsHandler
        split
        · exact ours
        simp only
        split
        · exact ours
        · obtain ⟨blocks, _, logs⟩ := @nfs_answer_logs
            { client with copies := client.copies ++ [copyCount client.nfsState len] } pkt len
            (rpcPkt pkt stack (copyCount client.nfsState len))
          exact logs.port.trans ours
      · exact ours
  | timeout =>
      show (timeHandler client).nfsOurPort = 1000
      unfold timeHandler
      split
      · exact ours
      · exact ours
      · exact ours
  | arpTimeout again =>
      cases again with
      | returns => exact ours
      | fails => exact ours
      | waits => exact ours
      | restarts => exact ours
  | restart settings =>
      show (restart client settings).nfsOurPort = 1000
      unfold restart
      split
      · rfl
      · exact ours

/-- In every run of the client a stale reply leaves the download alone exactly when NfsHandler does
not get it, or has nothing left to do but to unmount. -/
theorem stale_reply_unchanged_iff {first before : NfsClient} {settings : NfsSettings}
    {events : List NfsEvent} {pkt : Buffer} {len : Nat} (dest : Nat) (stack : Buffer)
    (run : Run (stepOf nfsStep) (nfsStart first settings) events before)
    (stale : Stale before pkt len) :
    Unchanged before (nfsStep before (.receive pkt dest len stack)) ↔ Harmless before dest len := by
  have ours : before.nfsOurPort = 1000 := run_preserves _ (fun client => client.nfsOurPort = 1000)
    (fun before event after kept step => by rw [step]; exact nfs_step_port event kept) run rfl
  have running : ¬ before.smashed = true := by
    rw [stale.running]
    decide
  rw [nfsStep, if_neg running]
  show Unchanged before (rxHandler before pkt dest len stack) ↔ _
  unfold rxHandler
  split
  · rename_i listens
    rw [stale_handler_iff dest stack stale ours]
    constructor
    · exact Or.inr
    · rintro (deaf | harmless)
      · rw [listens] at deaf
        cases deaf
      · exact harmless
  · rename_i deaf
    exact iff_of_true (unchanged_refl before) (Or.inl deaf)

end StaleReplies

def nfsClient : NfsClient where
  netState := .continue
  packetHandler := .startAgainHandler
  timer := none
  fsMounted := false
  rpcId := 0
  nfsOffset := -1
  nfsLen := 0
  dirfh := List.replicate nfsFhsize 0
  filefh := List.replicate nfsFhsize 0
  nfsDownloadState := .fail
  nfsServerIP := 0
  nfsSrvMountPort := 0
  nfsSrvNfsPort := 0
  nfsOurPort := 0
  nfsState := .prclookupProgMountReq
  nfsPathMem := fun _ => 0
  nfsFilename := 0
  loadAddr := 0x80060000
  mem := fun _ => 0
  netBootFileXferSize := 0
  sent := []
  copies := []
  stored := []
  smashed := false

def nfsSettings : NfsSettings := ⟨ascii "/nfsroot/image", 0xc0a80101, 0xc0a8010a⟩

/-- A reply without error; a READ reply that says 1024 bytes. -/
def nfsReply (id : UInt8) : Buffer := fun i => if i = 3 then id else if i = 98 then 4 else 0

/-- A reply to request `id` with 4 bytes behind its header. -/
def nfsReplyEvent (id : UInt8) : NfsEvent := .receive (nfsReply id) 1000 104 fun _ => 0

/-- A MOUNT reply that refuses. -/
def refusedMount : NfsEvent :=
  .receive (fun i => if i = 3 then 3 else if i = 27 then 13 else 0) 1000 28 fun _ => 0

def refusedEvents : List NfsEvent := [nfsReplyEvent 1, nfsReplyEvent 2, refusedMount]

def refusedClient : NfsClient := refusedEvents.foldl nfsStep (nfsStart nfsClient nfsSettings)

/-- A duplicate of the first reply, while the client unmounts. -/
theorem stale_reply_unmounting :
    Unchanged refusedClient (nfsStep refusedClient (nfsReplyEvent 1)) := by
  have run := run_foldl nfsStep refusedEvents (nfsStart nfsClient nfsSettings)
  have stale : Stale refusedClient (nfsReply 1) 104 := ⟨by decide +kernel, by decide, by decide +kernel⟩
  exact (stale_reply_unchanged_iff 1000 (fun _ => 0) run stale).mpr
    (Or.inr (Or.inr ⟨by decide +kernel, by decide⟩))

/-- A stale reply to the first request is taken for the answer, and the client goes on without the
port of the mount server. -/
theorem stale_reply_moves_on : ¬ ∀ events before pkt dest len stack,
    Run (stepOf nfsStep) (nfsStart nfsClient nfsSettings) events before → Stale before pkt len →
      Unchanged before (nfsStep before (.receive pkt dest len stack)) := by
  intro ignored
  have stale : Stale (nfsStart nfsClient nfsSettings) (nfsReply 0) 104 :=
    ⟨by decide +kernel, by decide, by decide +kernel⟩
  have same := (ignored [] _ (nfsReply 0) 1000 104 (fun _ => 0) (Run.refl _) stale).nfsState
  have moved : (nfsStep (nfsStart nfsClient nfsSettings) (nfsReplyEvent 0)).nfsState ≠
      (nfsStart nfsClient nfsSettings).nfsState := by decide +kernel
  exact moved same

/-- A mount, a lookup and a READ reply that says 1024 bytes and brings 4. -/
def shortRead : List NfsEvent :=
  [nfsReplyEvent 1, nfsReplyEvent 2, nfsReplyEvent 3, nfsReplyEvent 4, nfsReplyEvent 5]

/-- The image gets 1020 bytes from behind the packet. -/
theorem short_read_stores_stale_bytes : ¬ ∀ (client : NfsClient) (settings : NfsSettings)
    (events : List NfsEvent), Safe (events.foldl nfsStep (nfsBegin client settings)) := by
  intro safe
  have inside := (safe nfsClient nfsSettings shortRead).stored
  have stored : (shortRead.foldl nfsStep (nfsBegin nfsClient nfsSettings)).stored.map
      (fun block => (block.len, block.received)) = [(1024, 104)] := by decide +kernel
  generalize (shortRead.foldl nfsStep (nfsBegin nfsClient nfsSettings)).stored = blocks
    at inside stored
  cases blocks with
  | nil => cases stored
  | cons block rest =>
      injection stored with first _
      injection first with len received
      have bound := inside block List.mem_cons_self
      rw [len, received] at bound
      exact absurd bound (by decide)

end UBoot.Net.NfsReplies
