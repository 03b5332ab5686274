import UBoot.Env.EnvTable

/-!
What the loops of _do_setenv that store bytes do to the table: the slide of a
deletion and the copy of a new definition.
-/

namespace UBoot.Env.EnvEdit

open Lib.Strings Library.StringTable Nvedit EnvTable

/-- The slide of a deletion copies the later entries down, up to their two NULs. -/
theorem slide_eq {buffer : Buffer UInt8} {fuel env nxt : Nat} {bytes : List UInt8}
    (ends : SingleEnds bytes) (has : HasBytes buffer.mem nxt (bytes ++ [0])) (below : env < nxt)
    (enough : bytes.length ≤ fuel) :
    (slide buffer fuel env nxt).2 = env + bytes.length - 1 ∧
      HasBytes (slide buffer fuel env nxt).1.mem env bytes ∧
      StoresWithin buffer (slide buffer fuel env nxt).1 env (env + bytes.length) := by
  induction bytes generalizing buffer fuel env nxt with
  | nil => exact ends.elim
  | cons c rest ih =>
      cases fuel with
      | zero => exact absurd enough (Nat.not_succ_le_zero _)
      | succ fuel =>
          have first : (buffer.store env (buffer.mem nxt)).mem env = c := by
            rw [store_mem_same, has.1]
          have stored := stores_one buffer env (buffer.mem nxt) (Nat.le_refl env)
            (Nat.lt_succ_self env)
          have framed := has_bytes_framed stored has.2 (Or.inr (by omega))
          cases rest with
          | nil =>
              have both : (buffer.store env (buffer.mem nxt)).mem env = 0 ∧
                  (buffer.store env (buffer.mem nxt)).mem (nxt + 1) = 0 :=
                ⟨first.trans ends, framed.1⟩
              rw [slide, if_pos both]
              exact ⟨rfl, ⟨first, trivial⟩, stored⟩
          | cons next more =>
              have single : ¬ ((buffer.store env (buffer.mem nxt)).mem env = 0 ∧
                  (buffer.store env (buffer.mem nxt)).mem (nxt + 1) = 0) := by
                rw [first, framed.1]
                exact ends.1
              obtain ⟨stop, copied, within⟩ := @ih _ fuel (env + 1) (nxt + 1) ends.2 framed
                (Nat.succ_lt_succ below) (Nat.le_of_succ_le_succ enough)
              simp only [List.length_cons] at stop within ⊢
              rw [slide, if_neg single]
              refine ⟨by rw [stop]; omega, ⟨?_, copied⟩,
                stores_trans (stores_widen stored (Nat.le_refl _) (by omega))
                  (stores_widen within (by omega) (by omega))⟩
              rw [within.frame env (Or.inl (by omega)), first]

theorem table_length_pos {entries : List (List UInt8)} (some_entry : entries ≠ []) :
    0 < (table entries).length := by
  cases entries with
  | nil => exact absurd rfl some_entry
  | cons entry rest =>
      simp only [table, List.length_append, List.length_cons]
      omega

theorem table_cons_length (before : List (List UInt8)) (entry : List UInt8)
    (after : List (List UInt8)) : (table (before ++ entry :: after)).length =
      (table before).length + entry.length + 1 + (table after).length := by
  rw [table_append]
  simp only [table, List.length_append, List.length_cons]
  omega

/-- Deleting an entry leaves the table of the others. -/
theorem delete_old_eq {buffer : Buffer UInt8} (size oldval : Nat) {before after : List (List UInt8)}
    {entry : List UInt8} (texts : ∀ other ∈ before ++ entry :: after, Text other)
    (has : HasBytes buffer.mem 0 (block (before ++ entry :: after)))
    (room : (table after).length ≤ size) :
    HasBytes (deleteOld size buffer ⟨(table before).length, (table before).length + entry.length,
        oldval⟩).mem 0 (block (before ++ after)) ∧
      StoresWithin buffer (deleteOld size buffer ⟨(table before).length,
        (table before).length + entry.length, oldval⟩) 0
        (block (before ++ entry :: after)).length := by
  have total : (block (before ++ entry :: after)).length =
      (table before).length + entry.length + 1 + (table after).length + 1 := by
    rw [block_length_of_ne_nil (by simp), table_cons_length]
  have entryText := texts entry (by simp)
  have entryLength := List.length_pos_of_ne_nil entryText.nonempty
  have whole := has_table_of_block has
  rw [table_append, List.append_assoc, has_bytes_append, Nat.zero_add] at whole
  obtain ⟨front, back⟩ := whole
  obtain ⟨here, later⟩ := table_cons_split back
  cases after with
  | nil =>
      have lastEntry : buffer.mem ((table before).length + entry.length + 1) = 0 := later.1
      rw [List.append_nil]
      -- The deleted entry was the only one: an empty table keeps both zero bytes.
      by_cases alone : before = []
      · subst alone
        have kept : deleteOld size buffer ⟨(table ([] : List (List UInt8))).length,
            (table ([] : List (List UInt8))).length + entry.length, oldval⟩ =
            (buffer.store 0 0).store 1 0 := by
          simp [deleteOld, table] at lastEntry ⊢
          simp [lastEntry]
        rw [kept]
        refine ⟨⟨?_, store_mem_same _ 1 0, trivial⟩,
          stores_trans (stores_one buffer 0 0 (Nat.zero_le _) (by omega))
            (stores_one _ 1 0 (Nat.zero_le _) (by omega))⟩
        rw [store_mem_other _ 1 0 Nat.zero_ne_one, store_mem_same]
      -- It was the last one: its first byte becomes the end of the table.
      · have positive := table_length_pos alone
        have kept : deleteOld size buffer ⟨(table before).length,
            (table before).length + entry.length, oldval⟩ =
            buffer.store (table before).length 0 := by
          simp only [deleteOld, lastEntry, if_true, positive]
          congr 1
          omega
        have stored := stores_one buffer (table before).length 0 (Nat.zero_le _)
          (show (table before).length < (block (before ++ [entry])).length by omega)
        have untouched := has_bytes_framed
          (stores_one buffer (table before).length 0 (Nat.le_refl _) (Nat.lt_succ_self _)) front
          (Or.inl (by omega))
        rw [kept]
        refine ⟨?_, stored⟩
        obtain ⟨head, more, shape⟩ := List.exists_cons_of_ne_nil alone
        have table_block : block before = table before ++ [0] := by rw [shape, block]
        rw [table_block, has_bytes_append, Nat.zero_add]
        exact ⟨untouched, store_mem_same _ _ 0, trivial⟩
  | cons next more =>
      have afterTexts : ∀ other ∈ next :: more, Text other := fun other member =>
        texts other (List.mem_append_right _ (List.mem_cons_of_mem entry member))
      have moreEntries : buffer.mem ((table before).length + entry.length + 1) ≠ 0 :=
        first_byte_ne_zero (afterTexts next List.mem_cons_self) (table_cons_split later).1
      have ends := single_ends_table afterTexts (List.cons_ne_nil next more)
      -- The entries behind it slide down, with the zero that ends them.
      obtain ⟨stop, copied, within⟩ := @slide_eq buffer size (table before).length
        ((table before).length + entry.length + 1) _ ends (by simpa using later) (by omega) room
      have positive := table_length_pos (List.cons_ne_nil next more)
      have kept : deleteOld size buffer ⟨(table before).length,
          (table before).length + entry.length, oldval⟩ =
          (slide buffer size (table before).length
            ((table before).length + entry.length + 1)).1.store
              ((table before).length + (table (next :: more)).length) 0 := by
        simp only [deleteOld, moreEntries, if_false, stop]
        congr 1
        omega
      have last := stores_one (slide buffer size (table before).length
        ((table before).length + entry.length + 1)).1
        ((table before).length + (table (next :: more)).length) 0 (Nat.le_refl _)
        (Nat.lt_succ_self _)
      have nonempty : before ++ next :: more ≠ [] := by simp
      obtain ⟨head, others, shape⟩ := List.exists_cons_of_ne_nil nonempty
      have joined : block (before ++ next :: more) =
          table before ++ (table (next :: more) ++ [0]) := by
        rw [shape, block, ← shape, table_append, List.append_assoc]
      rw [kept]
      refine ⟨?_, stores_trans (stores_widen within (Nat.zero_le _) (by omega))
        (stores_widen last (Nat.zero_le _) (by omega))⟩
      rw [joined, has_bytes_append, has_bytes_append, Nat.zero_add]
      refine ⟨?_, ?_, store_mem_same _ _ 0, trivial⟩
      · exact has_bytes_framed last (has_bytes_framed within front (Or.inl (by omega)))
          (Or.inl (by omega))
      · exact has_bytes_framed last copied (Or.inl (by omega))

/-- A copied string stands where it was copied to, with its NUL. -/
theorem copy_string_eq (buffer : Buffer UInt8) (env : Nat) (text : List UInt8) :
    (copyString buffer env text).2 = env + text.length ∧
      HasBytes (copyString buffer env text).1.mem env (text ++ [0]) ∧
      StoresWithin buffer (copyString buffer env text).1 env (env + text.length + 1) := by
  induction text generalizing buffer env with
  | nil =>
      exact ⟨rfl, ⟨store_mem_same _ _ 0, trivial⟩,
        stores_one buffer env 0 (Nat.le_refl _) (Nat.lt_succ_self _)⟩
  | cons c rest ih =>
      obtain ⟨stop, copied, within⟩ := ih (buffer.store env c) (env + 1)
      have stored := stores_one buffer env c (Nat.le_refl _) (Nat.lt_succ_self _)
      simp only [List.length_cons]
      refine ⟨by rw [copyString, stop]; omega, ⟨?_, copied⟩,
        stores_trans (stores_widen stored (Nat.le_refl _) (by omega))
          (stores_widen within (by omega) (by omega))⟩
      rw [copyString, within.frame env (Or.inl (by omega)), store_mem_same]

theorem copy_words_eq (buffer : Buffer UInt8) (env : Nat) (separator : UInt8)
    (words : List CString) (ended : buffer.mem env = 0) :
    (copyWords buffer env separator words).2 = env + (joinWords separator words).length ∧
      HasBytes (copyWords buffer env separator words).1.mem env
        (joinWords separator words ++ [0]) ∧
      StoresWithin buffer (copyWords buffer env separator words).1 env
        (env + (joinWords separator words).length + 1) := by
  induction words generalizing buffer env separator with
  | nil => exact ⟨rfl, ⟨ended, trivial⟩, stores_none buffer _ _⟩
  | cons word rest ih =>
      obtain ⟨stop, copied, within⟩ :=
        copy_string_eq (buffer.store env separator) (env + 1) word.bytes
      have stored := stores_one buffer env separator (Nat.le_refl _) (Nat.lt_succ_self _)
      rw [has_bytes_append] at copied
      obtain ⟨text, nul, _⟩ := copied
      obtain ⟨restStop, restCopied, restWithin⟩ :=
        ih (copyString (buffer.store env separator) (env + 1) word.bytes).1
          (copyString (buffer.store env separator) (env + 1) word.bytes).2 32
          (by rw [stop]; exact nul)
      rw [stop] at restCopied restWithin
      have length : (joinWords separator (word :: rest)).length =
          1 + word.bytes.length + (joinWords 32 rest).length := by
        simp only [joinWords, List.length_cons, List.length_append]
        omega
      refine ⟨by rw [copyWords, restStop, stop, length]; omega, ⟨?_, ?_⟩, ?_⟩
      · rw [copyWords, stop, restWithin.frame env (Or.inl (by omega)),
          within.frame env (Or.inl (by omega)), store_mem_same]
      · show HasBytes _ (env + 1) ((word.bytes ++ joinWords 32 rest) ++ [0])
        rw [List.append_assoc, has_bytes_append, copyWords, stop]
        exact ⟨has_bytes_framed restWithin text (Or.inl (by omega)), restCopied⟩
      · rw [copyWords, stop, length]
        exact stores_trans (stores_widen stored (Nat.le_refl _) (by omega))
          (stores_trans (stores_widen within (by omega) (by omega))
            (stores_widen restWithin (by omega) (by omega)))

theorem join_words_length (separator : UInt8) (words : List CString) :
    (joinWords separator words).length =
      (words.map fun word => word.bytes.length + 1).sum := by
  induction words generalizing separator with
  | nil => rfl
  | cons word rest ih =>
      simp only [joinWords, List.length_cons, List.length_append, List.map_cons, List.sum_cons,
        ih 32]
      omega

theorem new_length_eq (name : List UInt8) (words : List CString) :
    newLength name words = (newEntry name words).length + 2 := by
  simp only [newLength, newEntry, List.length_append, join_words_length]
  omega

theorem append_at_eq {cfg : EnvConfig} {buffer : Buffer UInt8} {entries : List (List UInt8)}
    (texts : ∀ entry ∈ entries, Text entry) (has : HasBytes buffer.mem 0 (block entries))
    (room : (block entries).length ≤ cfg.cfgEnvSize) :
    appendAt cfg buffer = (table entries).length := by
  cases entries with
  | nil =>
      have both : buffer.mem 0 = 0 ∧ buffer.mem (0 + 1) = 0 := ⟨has.1, has.2.1⟩
      have stop : tableEnd buffer.mem cfg.cfgEnvSize 0 = 0 := by
        cases cfg.cfgEnvSize with
        | zero => rfl
        | succ fuel => exact if_pos both
      simp [appendAt, stop, table]
  | cons entry rest =>
      have ends := single_ends_table texts (List.cons_ne_nil entry rest)
      have length := block_length_of_ne_nil (List.cons_ne_nil entry rest)
      have entryLength := List.length_pos_of_ne_nil (texts entry List.mem_cons_self).nonempty
      have stop : tableEnd buffer.mem cfg.cfgEnvSize 0 = 0 + (table (entry :: rest)).length - 1 :=
        table_end_eq ends has (by omega)
      have longer : 1 < (table (entry :: rest)).length := by
        simp only [table, List.length_append, List.length_cons]
        omega
      simp only [appendAt, stop]
      split <;> omega

/-- A new definition goes behind the table if it fits there with its two NULs. -/
theorem append_new_eq {cfg : EnvConfig} {buffer : Buffer UInt8} {entries : List (List UInt8)}
    (texts : ∀ entry ∈ entries, Text entry) (has : HasBytes buffer.mem 0 (block entries))
    (room : (block entries).length ≤ cfg.cfgEnvSize) (name : List UInt8) (words : List CString) :
    (cfg.envSize < (table entries).length + newLength name words ∧
      appendNew cfg buffer name words = none) ∨
    ∃ after, appendNew cfg buffer name words = some after ∧
      (table entries).length + newLength name words ≤ cfg.envSize ∧
      HasBytes after.mem 0 (block (entries ++ [newEntry name words])) ∧
      StoresWithin buffer after 0 cfg.envSize := by
  -- The name, the words and the second zero are stored one behind the other.
  have place := append_at_eq texts has room
  by_cases overflow : cfg.envSize < (table entries).length + newLength name words
  · left
    exact ⟨overflow, by rw [appendNew, place]; exact if_pos overflow⟩
  · right
    have length := new_length_eq name words
    obtain ⟨nameStop, nameCopied, nameWithin⟩ :=
      copy_string_eq buffer (table entries).length name
    rw [has_bytes_append] at nameCopied
    obtain ⟨nameText, nul, _⟩ := nameCopied
    obtain ⟨stop, copied, within⟩ :=
      copy_words_eq (copyString buffer (table entries).length name).1
        ((table entries).length + name.length) 61 words nul
    have entryLength : (newEntry name words).length =
        name.length + (joinWords 61 words).length := List.length_append
    refine ⟨(copyWords (copyString buffer (table entries).length name).1
      ((table entries).length + name.length) 61 words).1.store
        ((table entries).length + (newEntry name words).length + 1) 0, ?_, by omega, ?_, ?_⟩
    · rw [appendNew, place]
      simp only [overflow, if_false, nameStop, stop]
      congr 3
      omega
    · have last := stores_one (copyWords (copyString buffer (table entries).length name).1
        ((table entries).length + name.length) 61 words).1
        ((table entries).length + (newEntry name words).length + 1) 0 (Nat.le_refl _)
        (Nat.lt_succ_self _)
      have shape : block (entries ++ [newEntry name words]) =
          table entries ++ (name ++ ((joinWords 61 words ++ [0]) ++ [0])) := by
        obtain ⟨head, others, split⟩ :=
          List.exists_cons_of_ne_nil (show entries ++ [newEntry name words] ≠ [] by simp)
        rw [split, block, ← split, table_append]
        simp [table, newEntry]
      have front := (has_bytes_append _ 0 _ _).mp (has_table_of_block has)
      rw [shape, has_bytes_append, has_bytes_append, has_bytes_append, Nat.zero_add]
      refine ⟨?_, ?_, ?_, ?_, trivial⟩
      · exact has_bytes_framed last (has_bytes_framed within (has_bytes_framed nameWithin front.1
          (Or.inl (by omega))) (Or.inl (by omega))) (Or.inl (by omega))
      · exact has_bytes_framed last (has_bytes_framed within nameText (Or.inl (by omega)))
          (Or.inl (by omega))
      · refine has_bytes_framed last copied (Or.inl ?_)
        simp only [List.length_append, List.length_cons, List.length_nil]
        omega
      · have address : (table entries).length + name.length + (joinWords 61 words ++ [0]).length =
            (table entries).length + (newEntry name words).length + 1 := by
          simp only [List.length_append, List.length_cons, List.length_nil]
          omega
        rw [address]
        exact store_mem_same _ _ 0
    · exact stores_trans (stores_widen nameWithin (Nat.zero_le _) (by omega))
        (stores_trans (stores_widen within (Nat.zero_le _) (by omega))
          (stores_one _ _ 0 (Nat.zero_le _) (by omega)))

end UBoot.Env.EnvEdit
