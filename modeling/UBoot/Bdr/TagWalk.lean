import UBoot.Bdr.FindBdr

/-!
The bounds of the tag walk of parse_tag. A tag takes as many words as its tag word says; nothing
compares the place of a tag with the end of the block, and the limit for the arguments lets one word
too many pass.
-/

namespace UBoot.Bdr.TagWalk

open Library.Memory Library.BigEndian FindBdr

/-- What a turn reads of the memory from the block on, and how many bytes it puts into
bdr_bootarg. -/
inductive Access where
  | read (word : Nat)
  | write (bytes : Nat)
deriving DecidableEq

/-- The accesses of one turn of the loop, with bdrp at word `p`. -/
def tagAccesses (block : Nat → UInt8) (tags p : Nat) : List Access :=
  let data := word block (4 * p)
  let tagsize : Int := (data % 2 ^ 16 : Nat) - 1
  .read p ::
    if tags ≠ data / 2 ^ 24 % 256 ∨ tagsize < 0 then []
    else
      match data / 2 ^ 16 % 256 with
      | 2 => if tagsize = 1 then [.read (p + 1)] else []
      | 3 =>
          if tagsize < 130 then
            (List.range tagsize.toNat).map (fun i => .read (p + 1 + i)) ++ [.write (tagsize.toNat * 4)]
          else []
      | _ => []

/-- The accesses of the loop, which makes as many turns as parseLoop. -/
def accesses (block : Nat → UInt8) : (turns tags p : Nat) → Found → List Access
  | 0, _, _, _ => []
  | turns + 1, tags, p, found =>
      tagAccesses block tags p ++
        match readTag block tags p found with
        | .next p found => accesses block turns (tags + 1) p found
        | _ => []

/-- The size of bdr_bootarg. -/
def bootargSize : Nat := 512

/-- A word of the block, or bytes that bdr_bootarg holds. -/
def Access.inside : Access → Prop
  | .read word => word < bdrSize
  | .write bytes => bytes ≤ bootargSize

/-- All that parse_tag reads is in the block, and all that it writes in bdr_bootarg. -/
def Contained (block : Nat → UInt8) : Prop :=
  ∀ access ∈ accesses block bdrSize 0 4 Found.reset, access.inside

/-! ### The accesses are all that the walk depends on -/

section Complete
variable {block other : Nat → UInt8}

/-- A turn that reads the same words does the same. -/
theorem read_tag_same {tags p : Nat} (found : Found)
    (same : ∀ place, .read place ∈ tagAccesses block tags p →
      ∀ i < 4, other (4 * place + i) = block (4 * place + i)) :
    readTag other tags p found = readTag block tags p found ∧
      tagAccesses other tags p = tagAccesses block tags p := by
  have data : word other (4 * p) = word block (4 * p) :=
    word_congr fun i small => same p List.mem_cons_self i small
  unfold tagAccesses at same ⊢
  unfold readTag
  simp only [data] at same ⊢
  refine ⟨?_, trivial⟩
  split
  · rfl
  · rename_i accepted
    rw [if_neg accepted] at same
    split
    · rfl
    · rename_i name
      simp only [name] at same
      split
      · rename_i one
        rw [if_pos one] at same
        have value : word other (4 * (p + 1)) = word block (4 * (p + 1)) :=
          word_congr fun i small =>
            same (p + 1) (List.mem_cons_of_mem _ List.mem_cons_self) i small
        rw [value]
      · rfl
    · rename_i name
      simp only [name] at same
      split
      · rename_i short
        rw [if_pos short] at same
        congr 2
        funext i
        split
        · rename_i below
          have there := same (p + 1 + i / 4) (List.mem_cons_of_mem _ (List.mem_append_left _
            (List.mem_map.mpr ⟨i / 4, List.mem_range.mpr (by omega), rfl⟩))) (i % 4)
            (Nat.mod_lt _ (by decide))
          have place : 4 * (p + 1) + i = 4 * (p + 1 + i / 4) + i % 4 := by omega
          rwa [place]
        · rfl
      · rfl
    · rfl

/-- parse_tag depends on the words that it reads alone. -/
theorem parse_same (turns : Nat) : ∀ tags p found,
    (∀ place, .read place ∈ accesses block turns tags p found →
      ∀ i < 4, other (4 * place + i) = block (4 * place + i)) →
    parseLoop other turns tags p found = parseLoop block turns tags p found := by
  induction turns with
  | zero => exact fun _ _ _ _ => rfl
  | succ turns ih =>
      intro tags p found same
      rw [accesses] at same
      obtain ⟨turn, -⟩ := read_tag_same found fun place member =>
        same place (List.mem_append_left _ member)
      rw [parseLoop, parseLoop, turn]
      cases read : readTag block tags p found with
      | refused => rfl
      | stop => rfl
      | next q after =>
          rw [read] at same
          exact ih (tags + 1) q after fun place member =>
            same place (List.mem_append_right _ member)

/-- A byte of bdr_bootarg behind everything that is written stays. -/
theorem bootarg_kept (turns : Nat) (i : Nat) : ∀ tags p found,
    (∀ bytes, .write bytes ∈ accesses block turns tags p found → bytes ≤ i) →
    (parseLoop block turns tags p found).2.bootarg i = found.bootarg i := by
  induction turns with
  | zero => exact fun _ _ _ _ => rfl
  | succ turns ih =>
      intro tags p found behind
      rw [accesses] at behind
      rw [parseLoop]
      cases read : readTag block tags p found with
      | refused => rfl
      | stop => rfl
      | next q after =>
          rw [read] at behind
          have rest := ih (tags + 1) q after fun bytes member =>
            behind bytes (List.mem_append_right _ member)
          refine rest.trans ?_
          have here := fun bytes member =>
            behind bytes (List.mem_append_left
              (match Tag.next q after with
                | .next p found => accesses block turns (tags + 1) p found
                | _ => []) member)
          unfold readTag at read
          unfold tagAccesses at here
          simp only at read here
          split at read
          · cases read
          · rename_i accepted
            rw [if_neg accepted] at here
            split at read
            · split at read <;> cases read
            · split at read <;> cases read
              rfl
            · rename_i name
              simp only [name] at here
              split at read <;> cases read
              rename_i short
              rw [if_pos short] at here
              have bound := here _ (List.mem_cons_of_mem _ (List.mem_append_right _ List.mem_cons_self))
              exact if_neg (by omega)
            · cases read
              rfl

end Complete

/-! ### The tags of a block -/

def tagNumber (block : Nat → UInt8) (p : Nat) : Nat := word block (4 * p) / 2 ^ 24 % 256

def tagName (block : Nat → UInt8) (p : Nat) : Nat := word block (4 * p) / 2 ^ 16 % 256

/-- The words of a tag, its own one among them. -/
def tagWords (block : Nat → UInt8) (p : Nat) : Nat := word block (4 * p) % 2 ^ 16

/-- A tag that parse_tag returns at: the number is wrong, or there is no word; a stop tag; an address
of another size than one word; or arguments of 130 words or more. -/
def Ends (block : Nat → UInt8) (number p : Nat) : Prop :=
  number ≠ tagNumber block p ∨ tagWords block p = 0 ∨ tagName block p = 1 ∨
    tagName block p = 2 ∧ tagWords block p ≠ 2 ∨ tagName block p = 3 ∧ 130 < tagWords block p

/-- Arguments of 129 words: one too many for bdr_bootarg. -/
def Long (block : Nat → UInt8) (p : Nat) : Prop := tagName block p = 3 ∧ tagWords block p = 130

/-- The place of a tag, when the first one is at word `p`. -/
def tagPlace (block : Nat → UInt8) (p : Nat) : Nat → Nat
  | 0 => p
  | index + 1 => tagPlace block (p + tagWords block p) index

/-- One of the tags in the block ends the walk, and none before it has arguments of 129 words. -/
def EndsInside (block : Nat → UInt8) (number p : Nat) : Prop :=
  ∃ last, tagPlace block p last < bdrSize ∧ Ends block (number + last) (tagPlace block p last) ∧
    ∀ index < last, ¬ Ends block (number + index) (tagPlace block p index) ∧
      ¬ Long block (tagPlace block p index)

section Walk
variable {block : Nat → UInt8} {tags p : Nat}

theorem read_ends (ends : Ends block tags p) (found : Found) :
    (∀ q after, readTag block tags p found ≠ .next q after) ∧ tagAccesses block tags p = [.read p] := by
  unfold Ends tagNumber tagWords tagName at ends
  unfold readTag tagAccesses
  simp only
  generalize word block (4 * p) = data at ends ⊢
  generalize data / 2 ^ 24 % 256 = number at ends ⊢
  generalize data % 2 ^ 16 = words at ends ⊢
  generalize data / 2 ^ 16 % 256 = name at ends ⊢
  by_cases wrong : tags ≠ number ∨ (words : Int) - 1 < 0
  · rw [if_pos wrong, if_pos wrong]
    exact ⟨fun _ _ same => (by cases same), rfl⟩
  · rw [if_neg wrong, if_neg wrong]
    push Not at wrong
    rcases ends with other | none' | rfl | ⟨rfl, address⟩ | ⟨rfl, long⟩
    · exact absurd wrong.1 other
    · omega
    · by_cases none' : (words : Int) - 1 = 0
      · rw [if_pos none']
        exact ⟨fun _ _ same => (by cases same), rfl⟩
      · rw [if_neg none']
        exact ⟨fun _ _ same => (by cases same), rfl⟩
    · have unlike : ¬ (words : Int) - 1 = 1 := by omega
      rw [if_neg unlike, if_neg unlike]
      exact ⟨fun _ _ same => (by cases same), rfl⟩
    · have many : ¬ (words : Int) - 1 < 130 := by omega
      rw [if_neg many, if_neg many]
      exact ⟨fun _ _ same => (by cases same), rfl⟩

/-- A tag that does not end the walk: the next one stands behind its words, which are all that is
read. -/
theorem read_goes (goes : ¬ Ends block tags p) (found : Found) :
    0 < tagWords block p ∧
      (∃ after, readTag block tags p found = .next (p + tagWords block p) after) ∧
      (∀ place, .read place ∈ tagAccesses block tags p → place < p + tagWords block p) ∧
      ((∀ bytes, .write bytes ∈ tagAccesses block tags p → bytes ≤ bootargSize) ↔
        ¬ Long block p) := by
  unfold Ends tagNumber tagWords tagName at goes
  push Not at goes
  unfold Long tagWords tagName readTag tagAccesses
  simp only
  generalize word block (4 * p) = data at goes ⊢
  generalize data / 2 ^ 24 % 256 = number at goes ⊢
  generalize data % 2 ^ 16 = words at goes ⊢
  generalize data / 2 ^ 16 % 256 = name at goes ⊢
  obtain ⟨right, some_words, running, address, arguments⟩ := goes
  have accepted : ¬ (tags ≠ number ∨ (words : Int) - 1 < 0) := by
    rintro (wrong | none')
    · exact wrong right
    · omega
  rw [if_neg accepted, if_neg accepted]
  refine ⟨Nat.pos_of_ne_zero some_words, ?_⟩
  split
  · exact absurd rfl running
  · have two := address rfl
    have one : (words : Int) - 1 = 1 := by omega
    rw [if_pos one, if_pos one, two]
    refine ⟨⟨_, rfl⟩, ?_, ?_⟩
    · intro place member
      simp only [List.mem_cons, List.not_mem_nil, Access.read.injEq, or_false] at member
      omega
    · simp
  · have few := arguments rfl
    have short : (words : Int) - 1 < 130 := by omega
    rw [if_pos short, if_pos short]
    have size : ((words : Int) - 1).toNat + 1 = words := by omega
    refine ⟨⟨_, by rw [Nat.add_assoc, Nat.add_comm 1, size]⟩, ?_, ?_⟩
    · intro place member
      simp only [List.mem_cons, List.mem_append, List.mem_map, List.mem_range, List.not_mem_nil,
        Access.read.injEq, reduceCtorEq, or_false] at member
      rcases member with rfl | ⟨i, below, rfl⟩
      · omega
      · omega
    · simp only [List.mem_cons, List.mem_append, List.mem_map, List.not_mem_nil, reduceCtorEq,
        Access.write.injEq, and_false, exists_false, false_or, or_false, forall_eq, true_and,
        bootargSize]
      omega
  · rename_i one two three
    have size : ((words : Int) - 1).toNat + 1 = words := by omega
    refine ⟨⟨found, by rw [size]⟩, ?_, ?_⟩
    · intro place member
      split at member
      · exact absurd rfl two
      · exact absurd rfl three
      · simp only [List.mem_cons, List.not_mem_nil, Access.read.injEq, or_false] at member
        omega
    · constructor
      · exact fun _ long => three long.1
      · intro _ bytes member
        split at member
        · exact absurd rfl two
        · exact absurd rfl three
        · simp at member

theorem ends_inside_iff : EndsInside block tags p ↔
    (Ends block tags p ∧ p < bdrSize) ∨
      (¬ Ends block tags p ∧ ¬ Long block p ∧ EndsInside block (tags + 1) (p + tagWords block p)) := by
  constructor
  · rintro ⟨last, inside, ends, before⟩
    cases last with
    | zero => exact Or.inl ⟨ends, inside⟩
    | succ last =>
        obtain ⟨goes, short⟩ := before 0 (Nat.succ_pos last)
        refine Or.inr ⟨goes, short, last, inside, ?_, ?_⟩
        · rw [Nat.add_assoc, Nat.add_comm 1]
          exact ends
        · intro index below
          have later := before (index + 1) (Nat.succ_lt_succ below)
          rw [Nat.add_assoc, Nat.add_comm 1]
          exact later
  · rintro (⟨ends, inside⟩ | ⟨goes, short, last, inside, ends, before⟩)
    · exact ⟨0, inside, ends, fun index below => absurd below (Nat.not_lt_zero index)⟩
    · refine ⟨last + 1, inside, ?_, ?_⟩
      · rw [Nat.add_assoc, Nat.add_comm 1] at ends
        exact ends
      · intro index below
        cases index with
        | zero => exact ⟨goes, short⟩
        | succ index =>
            have later := before index (Nat.lt_of_succ_lt_succ below)
            rw [Nat.add_assoc, Nat.add_comm 1] at later
            exact later

theorem ends_inside_lt (inside : EndsInside block tags p) : p < bdrSize := by
  obtain ⟨last, place, -, before⟩ := inside
  have climbs : ∀ last number p, (∀ index < last, ¬ Ends block (number + index)
      (tagPlace block p index)) → p ≤ tagPlace block p last := by
    intro last
    induction last with
    | zero => exact fun _ p _ => Nat.le_refl p
    | succ last ih =>
        intro number p goes
        refine Nat.le_trans (Nat.le_add_right p (tagWords block p)) ?_
        refine ih (number + 1) _ fun index below => ?_
        have later := goes (index + 1) (Nat.succ_lt_succ below)
        rw [Nat.add_assoc, Nat.add_comm 1]
        exact later
  exact lt_of_le_of_lt (climbs last tags p fun index below => (before index below).1) place

/-- The walk from a tag on, with turns enough to leave the block. -/
theorem accesses_inside (turns : Nat) : ∀ tags p found, 0 < turns → bdrSize < p + turns →
    ((∀ access ∈ accesses block turns tags p found, access.inside) ↔ EndsInside block tags p) := by
  induction turns with
  | zero => exact fun _ _ _ none' => absurd none' (Nat.lt_irrefl 0)
  | succ turns ih =>
      intro tags p found _ enough
      rw [ends_inside_iff, accesses]
      by_cases ends : Ends block tags p
      · obtain ⟨last, one⟩ := read_ends ends found
        have rest : (match readTag block tags p found with
            | .next p found => accesses block turns (tags + 1) p found
            | _ => []) = [] := by
          cases read : readTag block tags p found with
          | refused => rfl
          | stop => rfl
          | next q after => exact absurd read (last q after)
        rw [rest, one, List.append_nil]
        constructor
        · intro all
          exact Or.inl ⟨ends, all _ List.mem_cons_self⟩
        · rintro (⟨-, inside⟩ | ⟨goes, -⟩) access member
          · rw [List.mem_singleton.mp member]
            exact inside
          · exact absurd ends goes
      · obtain ⟨some_words, ⟨after, next⟩, reads, writes⟩ := read_goes ends found
        rw [next]
        by_cases here : p < bdrSize
        · have more : 0 < turns := by omega
          have later := ih (tags + 1) (p + tagWords block p) after more (by omega)
          constructor
          · intro all
            refine Or.inr ⟨ends, writes.mp ?_, later.mp ?_⟩
            · exact fun bytes member => all _ (List.mem_append_left _ member)
            · exact fun access member => all access (List.mem_append_right _ member)
          · rintro (⟨stops, -⟩ | ⟨-, short, inside⟩) access member
            · exact absurd stops ends
            · rcases List.mem_append.mp member with now | then'
              · cases access with
                | read place => exact Nat.lt_trans (reads place now) (ends_inside_lt inside)
                | write bytes => exact writes.mpr short bytes now
              · exact later.mpr inside access then'
        · constructor
          · intro all
            have first : .read p ∈ tagAccesses block tags p := List.mem_cons_self
            exact absurd (all _ (List.mem_append_left _ first)) here
          · rintro (⟨stops, -⟩ | ⟨-, -, inside⟩)
            · exact absurd stops ends
            · have beyond := ends_inside_lt inside
              omega

theorem tag_same {other : Nat → UInt8} (same : ∀ i < 4 * bdrSize, other i = block i)
    (here : p < bdrSize) : (∀ number, Ends other number p ↔ Ends block number p) ∧
      (Long other p ↔ Long block p) ∧ tagWords other p = tagWords block p := by
  have data := word_below same here
  unfold Ends Long tagNumber tagWords tagName
  rw [data]
  exact ⟨fun _ => Iff.rfl, Iff.rfl, rfl⟩

/-- Whether the walk ends inside is said by the words of the block. -/
theorem ends_inside_congr {other : Nat → UInt8} (same : ∀ i < 4 * bdrSize, other i = block i)
    (inside : EndsInside block tags p) : EndsInside other tags p := by
  obtain ⟨last, place, ends, before⟩ := inside
  induction last generalizing tags p with
  | zero =>
      obtain ⟨stops, -⟩ := tag_same same place
      exact ⟨0, place, (stops _).mpr ends, fun index below => absurd below (Nat.not_lt_zero index)⟩
  | succ last ih =>
      have here : p < bdrSize := ends_inside_lt ⟨last + 1, place, ends, before⟩
      obtain ⟨goes, short⟩ := before 0 (Nat.succ_pos last)
      obtain ⟨stops, long, count⟩ := tag_same same here
      have later : EndsInside other (tags + 1) (p + tagWords block p) := by
        refine ih place ?_ ?_
        · rw [Nat.add_assoc, Nat.add_comm 1]
          exact ends
        · intro index below
          have held := before (index + 1) (Nat.succ_lt_succ below)
          rw [Nat.add_assoc, Nat.add_comm 1]
          exact held
      rw [← count] at later
      exact ends_inside_iff.mpr (Or.inr ⟨fun ends => goes ((stops _).mp ends),
        fun exceeds => short (long.mp exceeds), later⟩)

end Walk

/-- The walk over a copy of 1024 bytes of the flash reads in the copy and writes in bdr_bootarg,
whatever the stack holds behind the copy, exactly when the tags of the copy end inside it without
too long arguments. -/
theorem tag_walk_contained_iff (flash : Flash) (offset : Int) (stack : Nat → UInt8) :
    Contained (bdrblock flash offset stack) ↔ EndsInside (flashaddr flash offset) 0 4 := by
  have copy : ∀ i < 4 * bdrSize, bdrblock flash offset stack i = flashaddr flash offset i :=
    fun i below => if_pos below
  refine (accesses_inside bdrSize 0 4 Found.reset (by decide) (by decide)).trans ⟨?_, ?_⟩
  · exact ends_inside_congr fun i below => (copy i below).symm
  · exact ends_inside_congr copy

/-- Arguments of 129 words, then a stop tag. -/
def longArguments : Flash := fun x =>
  blockOf ([0, 0, 0, 0, 0x00030082] ++ List.replicate 129 0 ++ [0x01010001]) x.toNat

/-- parse_tag puts 516 bytes into bdr_bootarg, and returns 0. -/
theorem arguments_overflow : ¬ Contained (bdrblock longArguments 0 fun _ => 0) := by
  intro contained
  have written : .write 516 ∈ accesses (bdrblock longArguments 0 fun _ => 0) bdrSize 0 4
      Found.reset := by
    decide +kernel
  have bounded : 516 ≤ bootargSize := contained _ written
  exact absurd bounded (by decide)

/-- A tag of 65535 words leaves the block. -/
example : Access.read 65539 ∈ accesses (bdrblock (fun x =>
    blockOf [0, 0, 0, 0, 0x0004ffff] x.toNat) 0 fun _ => 0) bdrSize 0 4 Found.reset := by
  decide +kernel

end UBoot.Bdr.TagWalk
