import UBoot.Net.NfsReplies

/-!
The paths of net/nfs.c in nfs_path_buff: the split of basename and dirname, which cut one string in
place, and the links that nfs_readlink_reply follows.
-/

namespace UBoot.Net.NfsPaths

open Library.Memory Lib.Strings NetReceive Nfs NfsReplies

/-! ### Strings in the buffer -/

theorem strlen_nul (mem : Buffer) : ∀ (fuel start : Nat), strlen mem fuel start < fuel →
    mem (start + strlen mem fuel start) = 0 := by
  intro fuel
  induction fuel with
  | zero => exact fun _ none_left => absurd none_left (Nat.not_lt_zero _)
  | succ fuel inductive_hypothesis =>
      intro start ends
      rw [strlen] at ends ⊢
      split at ends
      · next nul => rw [if_pos nul, Nat.add_zero, nul]
      · next more =>
          have later := inductive_hypothesis (start + 1) (Nat.lt_of_succ_lt_succ ends)
          rw [if_neg more, Nat.add_comm (strlen _ _ _) 1, ← Nat.add_assoc]
          exact later

theorem strlen_before (mem : Buffer) : ∀ (fuel start i : Nat), i < strlen mem fuel start →
    mem (start + i) ≠ 0 := by
  intro fuel
  induction fuel with
  | zero => exact fun _ _ before => absurd before (Nat.not_lt_zero _)
  | succ fuel inductive_hypothesis =>
      intro start i before
      rw [strlen] at before
      split at before
      · exact absurd before (Nat.not_lt_zero _)
      · next more =>
          cases i with
          | zero => exact more
          | succ i =>
              have later := inductive_hypothesis (start + 1) i (Nat.lt_of_succ_lt_succ before)
              rw [Nat.add_comm i 1, ← Nat.add_assoc]
              exact later

/-- A string ends at the first NUL. -/
theorem strlen_eq {mem : Buffer} {start n : Nat} (nul : mem (start + n) = 0)
    (before : ∀ i, i < n → mem (start + i) ≠ 0) {fuel : Nat} (enough : n < fuel) :
    strlen mem fuel start = n := by
  induction n generalizing start fuel with
  | zero =>
      cases fuel with
      | zero => exact absurd enough (Nat.not_lt_zero _)
      | succ fuel => exact if_pos nul
  | succ n inductive_hypothesis =>
      cases fuel with
      | zero => exact absurd enough (Nat.not_lt_zero _)
      | succ fuel =>
          have shift (i : Nat) : start + 1 + i = start + (i + 1) := by omega
          have nul_later : mem (start + 1 + n) = 0 := by
            rw [shift]
            exact nul
          have rest := inductive_hypothesis nul_later
            (fun i below => by rw [shift]; exact before (i + 1) (Nat.succ_lt_succ below))
            (Nat.lt_of_succ_lt_succ enough)
          have first : mem start ≠ 0 := before 0 (Nat.succ_pos n)
          rw [strlen, if_neg first, rest]

theorem strlen_le {mem : Buffer} {start n fuel : Nat} (nul : mem (start + n) = 0) :
    strlen mem fuel start ≤ n := by
  by_contra longer
  exact strlen_before mem fuel start n (Nat.lt_of_not_le longer) nul

theorem string_at_eq {mem : Buffer} {start n : Nat} (nul : mem (start + n) = 0)
    (before : ∀ i, i < n → mem (start + i) ≠ 0) (enough : n < pathBuffSize) :
    stringAt mem start = slice mem start n := by
  rw [stringAt, strlen_eq nul before enough]

theorem mem_slice {mem : Buffer} {start count : Nat} {byte : UInt8} :
    byte ∈ slice mem start count ↔ ∃ i, i < count ∧ mem (start + i) = byte := by
  unfold slice
  rw [List.mem_map]
  constructor
  · rintro ⟨i, member, same⟩
    exact ⟨i, List.mem_range.mp member, same⟩
  · rintro ⟨i, below, same⟩
    exact ⟨i, List.mem_range.mpr below, same⟩

theorem slice_succ (mem : Buffer) (start count : Nat) :
    slice mem start (count + 1) = mem start :: slice mem (start + 1) count := by
  rw [Nat.add_comm, slice_add]
  rfl

/-! ### basename and dirname -/

/-- The bytes that basename looks at behind strlen. -/
def walkReads (mem : Buffer) : Nat → List Nat
  | 0 => []
  | count + 1 =>
      (nfsPath + count) :: if mem (nfsPath + count) = 47 then [] else walkReads mem count

def splitReads (mem : Buffer) : List Nat :=
  (List.range (strlen mem pathBuffSize nfsPath + 1)).map (fun i => nfsPath + i) ++
    walkReads mem (strlen mem pathBuffSize nfsPath)

/-- The NUL of dirname. -/
def splitWrites (mem : Buffer) : List Nat := [basename mem - 1]

/-- A path in two: a directory, cut in place, and a file name; nothing outside the path was
touched. -/
structure Splits (path : Buffer) (file : Nat) (cut : Buffer) : Prop where
  recombines : stringAt path nfsPath = stringAt cut nfsPath ++ 47 :: stringAt cut file
  last : 47 ∉ stringAt cut file
  reads : ∀ place ∈ splitReads path,
    nfsPath ≤ place ∧ place ≤ nfsPath + strlen path pathBuffSize nfsPath
  writes : ∀ place ∈ splitWrites path,
    nfsPath ≤ place ∧ place ≤ nfsPath + strlen path pathBuffSize nfsPath

theorem basename_from_last (mem : Buffer) (count : Nat)
    (has : ∃ i, i < count ∧ mem (nfsPath + i) = 47) :
    ∃ k, k < count ∧ mem (nfsPath + k) = 47 ∧ (∀ i, k < i → i < count → mem (nfsPath + i) ≠ 47) ∧
      basenameFrom mem count = nfsPath + k + 1 := by
  induction count with
  | zero =>
      obtain ⟨i, below, -⟩ := has
      exact absurd below (Nat.not_lt_zero i)
  | succ count inductive_hypothesis =>
      rw [basenameFrom]
      by_cases here : mem (nfsPath + count) = 47
      · rw [if_pos here]
        exact ⟨count, Nat.lt_succ_self count, here, fun i above below => by omega, rfl⟩
      · rw [if_neg here]
        obtain ⟨i, below, slash⟩ := has
        have earlier : i < count := by
          rcases Nat.lt_succ_iff_lt_or_eq.mp below with before | same
          · exact before
          · exact absurd (same ▸ slash) here
        obtain ⟨k, before, found, final, value⟩ := inductive_hypothesis ⟨i, earlier, slash⟩
        refine ⟨k, Nat.lt_succ_of_lt before, found, ?_, value⟩
        intro j above within'
        rcases Nat.lt_succ_iff_lt_or_eq.mp within' with before' | same
        · exact final j above before'
        · exact same ▸ here

theorem walk_reads_inside (mem : Buffer) (count : Nat) :
    ∀ place ∈ walkReads mem count, nfsPath ≤ place ∧ place < nfsPath + count := by
  induction count with
  | zero => exact fun place member => absurd member List.not_mem_nil
  | succ count inductive_hypothesis =>
      intro place member
      rw [walkReads] at member
      rcases List.mem_cons.mp member with rfl | later
      · omega
      · split at later
        · exact absurd later List.not_mem_nil
        · have earlier := inductive_hypothesis place later
          omega

theorem split_reads_inside (mem : Buffer) :
    ∀ place ∈ splitReads mem,
      nfsPath ≤ place ∧ place ≤ nfsPath + strlen mem pathBuffSize nfsPath := by
  intro place member
  rcases List.mem_append.mp member with measured | walked
  · obtain ⟨i, below, rfl⟩ := List.mem_map.mp measured
    have := List.mem_range.mp below
    omega
  · have := walk_reads_inside mem _ place walked
    omega

/-- What the cut of a path at its slash `k` leaves. -/
theorem cut_strings {mem : Buffer} {k len : Nat} (nul : mem (nfsPath + len) = 0)
    (before : ∀ i, i < len → mem (nfsPath + i) ≠ 0) (fits : len < pathBuffSize) (inside : k < len) :
    stringAt (splice mem (nfsPath + k) [0]) nfsPath = slice mem nfsPath k ∧
      stringAt (splice mem (nfsPath + k) [0]) (nfsPath + k + 1) =
        slice mem (nfsPath + k + 1) (len - k - 1) := by
  have outside (place : Nat) (apart : place ≠ nfsPath + k) :
      splice mem (nfsPath + k) [0] place = mem place :=
    splice_outside _ _ _ _ (by rw [List.length_singleton]; omega)
  have cut : splice mem (nfsPath + k) [0] (nfsPath + k) = 0 :=
    splice_inside mem (nfsPath + k) [0] 0 Nat.one_pos
  constructor
  · rw [string_at_eq cut (fun i below => by rw [outside _ (by omega)]; exact before i (by omega))
      (by omega)]
    exact slice_congr _ _ _ _ fun i below => outside _ (by omega)
  · have shift (i : Nat) : nfsPath + k + 1 + i = nfsPath + (k + 1 + i) := by omega
    have last : k + 1 + (len - k - 1) = len := by omega
    rw [string_at_eq (n := len - k - 1)
      (by rw [shift, last, outside _ (by omega)]; exact nul)
      (fun i below => by rw [shift, outside _ (by omega)]; exact before _ (by omega)) (by omega)]
    exact slice_congr _ _ _ _ fun i below => outside _ (by omega)

theorem splits_iff (path : Buffer) (terminated : strlen path pathBuffSize nfsPath < pathBuffSize) :
    Splits path (basename path) (dirname path) ↔ 47 ∈ stringAt path nfsPath := by
  have nul := strlen_nul path _ _ terminated
  have before := strlen_before path pathBuffSize nfsPath
  constructor
  · intro splits
    rw [splits.recombines]
    exact List.mem_append_right _ List.mem_cons_self
  · intro has
    obtain ⟨k, inside, slash, final, found⟩ :=
      basename_from_last path _ (mem_slice.mp has)
    obtain ⟨directory, name⟩ := cut_strings nul before terminated inside
    have cut : dirname path = splice path (nfsPath + k) [0] := by
      rw [dirname, basename, found, Nat.add_sub_cancel]
    have file : basename path = nfsPath + k + 1 := found
    refine ⟨?_, ?_, split_reads_inside path, ?_⟩
    · rw [cut, file, directory, name, stringAt]
      have parts : strlen path pathBuffSize nfsPath =
          k + ((strlen path pathBuffSize nfsPath - k - 1) + 1) := by omega
      rw [parts, slice_add, slice_succ, slash]
      congr 3
      omega
    · rw [cut, file, name, mem_slice]
      rintro ⟨i, below, other⟩
      exact final (k + 1 + i) (by omega) (by omega) (by rw [← other]; congr 1; omega)
    · intro place member
      rw [List.mem_singleton.mp member, file]
      omega

/-- NfsStart splits the paths with a slash. -/
theorem nfs_start_splits_iff (client : NfsClient) (settings : NfsSettings)
    (fits : (bootPath settings).2.length < pathBuffSize) :
    Splits (splice client.nfsPathMem nfsPath ((bootPath settings).2 ++ [0]))
        (nfsStart client settings).nfsFilename (nfsStart client settings).nfsPathMem ↔
      47 ∈ stringAt (splice client.nfsPathMem nfsPath ((bootPath settings).2 ++ [0])) nfsPath := by
  have nul : splice client.nfsPathMem nfsPath ((bootPath settings).2 ++ [0])
      (nfsPath + (bootPath settings).2.length) = 0 := by
    rw [splice_inside _ _ _ _ (by rw [List.length_append]; exact Nat.lt_succ_self _),
      List.getElem_append_right (Nat.le_refl _)]
    simp only [Nat.sub_self, List.getElem_cons_zero]
  exact splits_iff _ (Nat.lt_of_le_of_lt (strlen_le nul) fits)

def imageSettings : NfsSettings := { nfsSettings with bootFile := ascii "/uImage" }

/-- A path with a leading slash only: the directory is empty. -/
theorem leading_slash_splits :
    Splits (splice nfsClient.nfsPathMem nfsPath (ascii "/uImage" ++ [0]))
      (nfsStart nfsClient imageSettings).nfsFilename (nfsStart nfsClient imageSettings).nfsPathMem :=
  (nfs_start_splits_iff nfsClient imageSettings (by decide)).mpr (by decide +kernel)

/-- Without a slash the file name begins a byte before the path, and the NUL is written a byte
before that. -/
theorem no_slash_outside :
    basename (splice nfsClient.nfsPathMem nfsPath (ascii "uImage" ++ [0])) = nfsPath - 1 ∧
      splitWrites (splice nfsClient.nfsPathMem nfsPath (ascii "uImage" ++ [0])) = [nfsPath - 2] ∧
      ¬ Splits (splice nfsClient.nfsPathMem nfsPath (ascii "uImage" ++ [0]))
        (nfsStart nfsClient { nfsSettings with bootFile := ascii "uImage" }).nfsFilename
        (nfsStart nfsClient { nfsSettings with bootFile := ascii "uImage" }).nfsPathMem := by
  have file : basename (splice nfsClient.nfsPathMem nfsPath (ascii "uImage" ++ [0])) = nfsPath - 1 := by
    decide +kernel
  have written : splitWrites (splice nfsClient.nfsPathMem nfsPath (ascii "uImage" ++ [0])) =
      [nfsPath - 2] := by
    rw [splitWrites, file]
    rfl
  refine ⟨file, written, ?_⟩
  intro splits
  have inside := (splits.writes (nfsPath - 2) (by rw [written]; exact List.mem_cons_self)).1
  exact absurd inside (by decide)

/-! ### Links -/

section Links
variable (mem rpc : Buffer)

def linkTarget : List UInt8 := slice rpc 32 (replyData rpc 1)

/-- Where a link leads: an absolute target on its own, a relative one from the directory on. -/
def resolved : List UInt8 :=
  if (linkTarget rpc).head? = some 47 then linkTarget rpc
  else stringAt mem nfsPath ++ 47 :: linkTarget rpc

/-- The stores of nfs_readlink_reply into the path. -/
def linkWrites : List (Nat × List UInt8) :=
  let rlen := replyData rpc 1
  if rpc 32 ≠ 47 then
    let pathlen := strlen mem pathBuffSize nfsPath + 1
    [(nfsPath + pathlen - 1, [47, 0]), (nfsPath + pathlen, slice rpc 32 rlen),
      (nfsPath + pathlen + rlen + 1, [0])]
  else [(nfsPath, slice rpc 32 rlen), (nfsPath + rlen, [0])]

theorem linked_path_writes : linkedPath mem rpc =
    (linkWrites mem rpc).foldl (fun mem write => splice mem write.1 write.2) mem := by
  unfold linkedPath linkWrites
  dsimp only
  split <;> rfl

/-- The path where the link leads, with a NUL directly behind it, inside the buffer. -/
structure LinksRight (after : Buffer) : Prop where
  path : slice after nfsPath (resolved mem rpc).length = resolved mem rpc
  terminated : after (nfsPath + (resolved mem rpc).length) = 0
  inside : ∀ write ∈ linkWrites mem rpc,
    nfsPath ≤ write.1 ∧ write.1 + write.2.length ≤ nfsPath + pathBuffSize

/-- An absolute target, or a relative one that leaves room for two NULs and has one behind it
already. -/
def LinkFits : Prop :=
  if rpc 32 = 47 then 0 < replyData rpc 1
  else strlen mem pathBuffSize nfsPath + replyData rpc 1 + 3 ≤ pathBuffSize ∧
    (replyData rpc 1 = 0 ∨
      mem (nfsPath + (strlen mem pathBuffSize nfsPath + 1 + replyData rpc 1)) = 0)

variable {mem rpc}

theorem string_at_length : (stringAt mem nfsPath).length = strlen mem pathBuffSize nfsPath :=
  slice_length _ _ _

theorem target_head (absolute : rpc 32 = 47) (some_target : 0 < replyData rpc 1) :
    resolved mem rpc = linkTarget rpc := by
  obtain ⟨count, same⟩ := Nat.exists_eq_succ_of_ne_zero (Nat.pos_iff_ne_zero.mp some_target)
  rw [resolved, if_pos]
  rw [linkTarget, same, slice_succ, List.head?_cons, absolute]

theorem target_relative (relative : rpc 32 = 47 → replyData rpc 1 = 0) :
    resolved mem rpc = stringAt mem nfsPath ++ 47 :: linkTarget rpc := by
  rw [resolved, if_neg]
  rw [linkTarget]
  intro slash
  cases count : replyData rpc 1 with
  | zero =>
      rw [count] at slash
      cases slash
  | succ count' =>
      rw [count, slice_succ, List.head?_cons] at slash
      rw [relative (Option.some.inj slash)] at count
      cases count

theorem absolute_right (absolute : rpc 32 = 47) (contained : 32 + replyData rpc 1 ≤ rpcSize)
    (some_target : 0 < replyData rpc 1) : LinksRight mem rpc (linkedPath mem rpc) := by
  have whole : resolved mem rpc = linkTarget rpc := target_head absolute some_target
  have length : (linkTarget rpc).length = replyData rpc 1 := slice_length _ _ _
  have after : linkedPath mem rpc = splice mem nfsPath (linkTarget rpc ++ [0]) := by
    rw [← splice_append, length]
    exact if_neg (not_not.mpr absolute)
  refine ⟨?_, ?_, ?_⟩
  · rw [whole, after, ← splice_append,
      slice_splice_outside _ _ _ _ _ (.inl (Nat.le_refl _)), slice_splice_same]
  · rw [whole, after, ← splice_append]
    have ended := splice_inside (splice mem nfsPath (linkTarget rpc)) (nfsPath + (linkTarget rpc).length) [0] 0 Nat.one_pos
    rw [Nat.add_zero] at ended
    exact ended
  · intro write member
    unfold linkWrites at member
    rw [if_neg (not_not.mpr absolute)] at member
    have size : rpcSize = 2048 := rfl
    have room : pathBuffSize = 2048 := rfl
    rcases List.mem_pair.mp member with rfl | rfl
    · rw [slice_length]
      exact ⟨Nat.le_refl _, by omega⟩
    · rw [List.length_singleton]
      exact ⟨Nat.le_add_right _ _, by omega⟩

/-- The path behind a relative link: the NUL stands one byte behind where it belongs. -/
theorem relative_path (relative : rpc 32 ≠ 47) : linkedPath mem rpc =
    splice (splice (splice mem (nfsPath + strlen mem pathBuffSize nfsPath) [47, 0])
      (nfsPath + (strlen mem pathBuffSize nfsPath + 1)) (linkTarget rpc))
      (nfsPath + (strlen mem pathBuffSize nfsPath + 1) + replyData rpc 1 + 1) [0] :=
  if_pos relative

theorem relative_inside (relative : rpc 32 ≠ 47) :
    (∀ write ∈ linkWrites mem rpc,
      nfsPath ≤ write.1 ∧ write.1 + write.2.length ≤ nfsPath + pathBuffSize) ↔
      strlen mem pathBuffSize nfsPath + replyData rpc 1 + 3 ≤ pathBuffSize := by
  unfold linkWrites
  rw [if_pos relative]
  dsimp only
  simp only [List.forall_mem_cons, slice_length, List.length_cons, List.length_nil]
  constructor
  · rintro ⟨-, -, ⟨-, last⟩, -⟩
    omega
  · intro room
    exact ⟨by omega, by omega, by omega, fun _ member => absurd member List.not_mem_nil⟩

theorem relative_directory (relative : rpc 32 ≠ 47) :
    slice (linkedPath mem rpc) nfsPath (strlen mem pathBuffSize nfsPath + 1) =
      stringAt mem nfsPath ++ [47] := by
  have slash := splice_inside mem (nfsPath + strlen mem pathBuffSize nfsPath) [47, 0] 0 (by decide)
  rw [Nat.add_zero] at slash
  rw [relative_path relative, slice_splice_outside _ _ _ _ _ (.inl (by omega)),
    slice_splice_outside _ _ _ _ _ (.inl (by omega)), slice_add,
    slice_splice_outside _ _ _ _ _ (.inl (by omega)), slice_succ, slash]
  rfl

theorem relative_target (relative : rpc 32 ≠ 47) :
    slice (linkedPath mem rpc) (nfsPath + (strlen mem pathBuffSize nfsPath + 1)) (replyData rpc 1) =
      linkTarget rpc := by
  have length : (linkTarget rpc).length = replyData rpc 1 := slice_length _ _ _
  rw [relative_path relative, slice_splice_outside _ _ _ _ _ (.inl (by omega)), ← length,
    slice_splice_same]

theorem relative_bytes (relative : rpc 32 ≠ 47) :
    slice (linkedPath mem rpc) nfsPath (resolved mem rpc).length = resolved mem rpc := by
  have length : (linkTarget rpc).length = replyData rpc 1 := slice_length _ _ _
  have whole : strlen mem pathBuffSize nfsPath + (replyData rpc 1 + 1) =
      strlen mem pathBuffSize nfsPath + 1 + replyData rpc 1 := by omega
  rw [target_relative (fun absolute => absurd absolute relative), List.length_append,
    List.length_cons, string_at_length, length, whole, slice_add, relative_directory relative,
    relative_target relative, List.append_assoc]
  rfl

/-- Behind a relative target is what was there before, unless it is empty. -/
theorem relative_behind (relative : rpc 32 ≠ 47) :
    linkedPath mem rpc (nfsPath + (resolved mem rpc).length) = 0 ↔ replyData rpc 1 = 0 ∨
      mem (nfsPath + (strlen mem pathBuffSize nfsPath + 1 + replyData rpc 1)) = 0 := by
  have length : (linkTarget rpc).length = replyData rpc 1 := slice_length _ _ _
  rw [target_relative (fun absolute => absurd absolute relative), relative_path relative,
    List.length_append, List.length_cons, string_at_length, length,
    show strlen mem pathBuffSize nfsPath + (replyData rpc 1 + 1) =
      strlen mem pathBuffSize nfsPath + 1 + replyData rpc 1 by omega,
    splice_outside _ _ _ _ (.inl (by omega)),
    splice_outside _ _ _ _ (.inr (by omega))]
  by_cases empty : replyData rpc 1 = 0
  · have nul := splice_inside mem (nfsPath + strlen mem pathBuffSize nfsPath) [47, 0] 1 (by decide)
    rw [empty, Nat.add_zero, ← Nat.add_assoc, nul]
    exact ⟨fun _ => .inl rfl, fun _ => rfl⟩
  · rw [splice_outside _ _ _ _ (.inr (by simp only [List.length_cons, List.length_nil]; omega))]
    exact ⟨.inr, fun either => either.resolve_left empty⟩

/-- An empty target with a slash behind it is taken for an absolute one. -/
theorem empty_absolute_wrong (absolute : rpc 32 = 47) (empty : replyData rpc 1 = 0) :
    ¬ LinksRight mem rpc (linkedPath mem rpc) := by
  intro right
  have after : linkedPath mem rpc nfsPath = 0 := by
    have same : linkedPath mem rpc = splice mem nfsPath [0] := by
      unfold linkedPath
      rw [if_neg (not_not.mpr absolute), empty]
      exact congrArg (fun mem => splice mem nfsPath [0]) (splice_nil mem nfsPath)
    rw [same]
    exact splice_inside mem nfsPath [0] 0 Nat.one_pos
  have path := right.path
  rw [target_relative (fun _ => empty)] at path
  cases text : stringAt mem nfsPath with
  | nil =>
      rw [text, List.nil_append, List.length_cons, slice_succ, after] at path
      exact absurd (List.cons_eq_cons.mp path).1 (by decide)
  | cons byte more =>
      rw [text, List.cons_append, List.length_cons, slice_succ, after] at path
      have member : (0 : UInt8) ∈ stringAt mem nfsPath := by
        rw [text, (List.cons_eq_cons.mp path).1]
        exact List.mem_cons_self
      obtain ⟨i, below, nul⟩ := mem_slice.mp member
      exact strlen_before mem _ _ i below nul

theorem links_right_iff (contained : 32 + replyData rpc 1 ≤ rpcSize) :
    LinksRight mem rpc (linkedPath mem rpc) ↔ LinkFits mem rpc := by
  unfold LinkFits
  split
  · next absolute =>
      constructor
      · intro right
        by_contra none_left
        exact empty_absolute_wrong absolute (by omega) right
      · exact absolute_right absolute contained
  · next relative =>
      constructor
      · intro right
        exact ⟨(relative_inside relative).mp right.inside,
          (relative_behind relative).mp right.terminated⟩
      · rintro ⟨room, nul⟩
        exact ⟨relative_bytes relative, (relative_behind relative).mpr nul,
          (relative_inside relative).mpr room⟩

end Links

/-- A reply that nfs_readlink_reply takes, with its whole target in the packet. -/
structure LinkReply (client : NfsClient) (rpc : Buffer) : Prop where
  id : be32 rpc 0 = client.rpcId
  accepted : ¬ statusError rpc
  found : replyData rpc 0 = 0
  contained : 32 + replyData rpc 1 ≤ rpcSize

theorem readlink_reply_iff (client : NfsClient) (rpc : Buffer) (reply : LinkReply client rpc) :
    LinksRight client.nfsPathMem rpc (nfsReadlinkReply client rpc).1.nfsPathMem ↔
      LinkFits client.nfsPathMem rpc := by
  have taken : (nfsReadlinkReply client rpc).1.nfsPathMem = linkedPath client.nfsPathMem rpc := by
    rw [nfsReadlinkReply, if_neg (not_not.mpr reply.id),
      if_neg (by rintro (error | missing); exacts [reply.accepted error, missing reply.found])]
  rw [taken]
  exact links_right_iff reply.contained

/-- A client in the directory /srv; behind its NUL stands what dirname left of /srv/tftp. -/
def servingClient : NfsClient :=
  { nfsClient with
    rpcId := 4
    nfsState := .readlinkReq
    nfsPathMem := splice nfsClient.nfsPathMem nfsPath (ascii "/srv" ++ [0] ++ ascii "tftp" ++ [0]) }

/-- The reply to the fourth call, with a link. -/
def linkReply (target : List UInt8) : Buffer :=
  splice (fun _ => 0) 0
    (bytes32 4 ++ bytes32 1 ++ bytes32 0 ++ bytes32 0 ++ bytes32 0 ++ bytes32 0 ++ bytes32 0 ++
      bytes32 target.length ++ target)

theorem absolute_link_followed : LinksRight servingClient.nfsPathMem (linkReply (ascii "/boot/b"))
    (nfsReadlinkReply servingClient (linkReply (ascii "/boot/b"))).1.nfsPathMem :=
  (readlink_reply_iff servingClient (linkReply (ascii "/boot/b"))
    ⟨by decide +kernel, by decide +kernel, by decide +kernel, by decide +kernel⟩).mpr
    (by unfold LinkFits; decide +kernel)

/-- The relative link b in the directory /srv leads to /srv/bf. -/
theorem relative_link_mixed :
    stringAt (nfsReadlinkReply servingClient (linkReply (ascii "b"))).1.nfsPathMem nfsPath =
        ascii "/srv/bf" ∧
      resolved servingClient.nfsPathMem (linkReply (ascii "b")) = ascii "/srv/b" ∧
      ¬ LinksRight servingClient.nfsPathMem (linkReply (ascii "b"))
        (nfsReadlinkReply servingClient (linkReply (ascii "b"))).1.nfsPathMem := by
  have leads : resolved servingClient.nfsPathMem (linkReply (ascii "b")) = ascii "/srv/b" := by
    decide +kernel
  refine ⟨by decide +kernel, leads, ?_⟩
  intro right
  have nul := right.terminated
  rw [leads] at nul
  revert nul
  decide +kernel

end UBoot.Net.NfsPaths
