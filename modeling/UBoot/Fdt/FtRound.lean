import UBoot.Fdt.FtGetProp

/-!
The way of a property through a flat tree and back. The builder and the reader agree on every tree
that the buffer holds, so what comes back is decided by the calls alone: by the path that the
reader keeps to each property, and by its room for 255 characters.
-/

namespace UBoot.Fdt.FtRound

open Lib.Strings Library.Memory Library.BigEndian Library.StringTable FtBuild FtBlob FtTree FtGetProp

/-- The names of the nodes that are open behind a call. -/
def opened (names : List (List UInt8)) : Call → List (List UInt8)
  | .beginNode name => names ++ [name.bytes]
  | .endNode => names.dropLast
  | .prop _ _ => names

def joined (names : List (List UInt8)) : List UInt8 := names.flatMap (· ++ [47])

/-- The path of what is put behind some calls. -/
def pathOf (front : List Call) : List UInt8 := joined (front.foldl opened [])

/-- Every node is closed, and nothing else is. -/
def Nested : Nat → List Call → Prop
  | depth, [] => depth = 0
  | depth, .beginNode _ :: rest => Nested (depth + 1) rest
  | 0, .endNode :: _ => False
  | depth + 1, .endNode :: rest => Nested depth rest
  | depth, .prop _ _ :: rest => Nested depth rest

/-- The finished tree, whose size is a multiple of sixteen bytes, ends in the buffer. -/
def Fits (blob : Blob) (calls : List Call) : Prop := align (treeSize blob calls) 16 ≤ blob.maxSize

/-- For each property, the first one whose kept path and name make up the path of the open nodes
and the name has the same data: in a plain tree that is the property itself. -/
def ReadsBack (calls : List Call) : Prop :=
  ∀ front name data back, calls = front ++ .prop name data :: back →
    firstData (pathOf front ++ name.bytes) [] calls = some data

def PropsFound (blob : Blob) (calls : List Call) (mem : Nat → UInt8) : Prop :=
  ∀ front name data back, calls = front ++ .prop name data :: back →
    ∃ t, ftGetProp blob.base mem (pathOf front ++ name.bytes) = .found t data.length ∧
      HasBytes mem t data

/-- What is expected of a build over a memory. -/
structure BuiltRight (blob : Blob) (calls : List Call) (mem : Nat → UInt8) : Prop where
  within : ∀ address, blob.maxSize ≤ address →
    (buildTree blob mem calls).2.mem address = mem address
  tree : Fits blob calls → (buildTree blob mem calls).1 = 0 ∧
    FlatTree blob calls (buildTree blob mem calls).2.mem ∧
    PropsFound blob calls (buildTree blob mem calls).2.mem
  reported : ¬ Fits blob calls → (buildTree blob mem calls).1 < 0

section Build
variable {blob : Blob} {calls : List Call}

theorem fits_size (fits : Fits blob calls) : treeSize blob calls ≤ blob.maxSize :=
  (align_sixteen _).1.trans fits

/-- The terminator of the reserve map is written whatever the size of the buffer is. -/
theorem header_beyond (short : blob.maxSize < anchor blob) :
    ¬ ∀ mem, BuiltRight blob calls mem := by
  intro right
  have place := pres_begin_eq blob
  have large : blob.maxSize < treeSize blob calls := by
    unfold treeSize
    omega
  have last : blob.maxSize ≤ presBegin blob + 15 := by
    unfold anchor at short
    omega
  have unchanged := (right fun _ => 0xff).within (presBegin blob + 15) last
  rw [(built_spilled _ large).2 _ last] at unchanged
  have reserved := (begin_header blob fun _ => 0xff).2.2.2.2
  have zero := ((has_bytes_append _ (presBegin blob) (zeros 15) [0]).mp reserved).2.1
  rw [show (zeros 15).length = 15 from rfl, unchanged] at zero
  exact absurd zero (by decide)

/-- The size is rounded up behind the last check. -/
theorem padding_beyond (ends : treeSize blob calls ≤ blob.maxSize) (far : ¬ Fits blob calls) :
    ¬ ∀ mem, BuiltRight blob calls mem := by
  intro right
  have failed := (right fun _ => 0).reported far
  rw [(built_fits _ ends).1] at failed
  exact absurd failed (by decide)

/-- What is found at an address is one list only. -/
theorem has_bytes_unique {mem : Nat → UInt8} {t : Nat} {first second : List UInt8}
    (left : HasBytes mem t first) (right : HasBytes mem t second)
    (size : first.length = second.length) : first = second := by
  rw [← slice_of_has left, ← slice_of_has right, size]

theorem props_found_iff {mem : Nat → UInt8} (tree : FlatTree blob calls mem)
    (fits : treeSize blob calls ≤ blob.maxSize) :
    PropsFound blob calls mem ↔ ReadsBack calls := by
  constructor
  · intro found front name data back split
    obtain ⟨t, result, stored⟩ := found front name data back split
    have read := ft_get_prop_calls tree fits (pathOf front ++ name.bytes)
    cases first : firstData (pathOf front ++ name.bytes) [] calls with
    | none =>
        rw [first] at read
        exact absurd result (read t data.length)
    | some other =>
        rw [first] at read
        obtain ⟨place, result', stored'⟩ := read
        rw [result, GetProp.found.injEq] at result'
        obtain ⟨rfl, size⟩ := result'
        rw [has_bytes_unique stored stored' (Int.ofNat.inj size)]
  · intro reads front name data back split
    have read := ft_get_prop_calls tree fits (pathOf front ++ name.bytes)
    rw [reads front name data back split] at read
    exact read

end Build

/-- A root with one property, in a buffer of 92 bytes: the tree has 90, and 96 when it is rounded. -/
def shortBlob : Blob := ⟨0, 92, rfl, by decide⟩

theorem root_terminated : (0 : UInt8) ∉ ([] : List UInt8) := List.not_mem_nil

theorem letter_terminated : (0 : UInt8) ∉ [97] := by
  simp

def rootCalls : List Call :=
  [.beginNode ⟨[], root_terminated⟩, .prop ⟨[97], letter_terminated⟩ [1, 2, 3, 4], .endNode]

theorem joined_append (front : List (List UInt8)) (name : List UInt8) :
    joined (front ++ [name]) = joined front ++ name ++ [47] := by
  simp [joined]

/-- At the end of a node the reader takes its name back if there is no slash in it, and a slash in
front of it or nothing at all. -/
theorem close_path_joined {front : List (List UInt8)} {name : List UInt8} (noSlash : 47 ∉ name)
    (root : front = [] → name = []) :
    closePath (joined (front ++ [name])) = some (joined front) := by
  have some_path : joined front ++ name ++ [47] ≠ [] := by simp
  rw [joined_append, closePath, if_neg some_path]
  simp only [List.dropLast_concat]
  rcases List.eq_nil_or_concat front with none' | ⟨above, parent, split⟩
  · rw [none', root none']
    rfl
  · have slash : joined front = joined above ++ parent ++ [47] := by
      rw [split, List.concat_eq_append, joined_append]
    have member : 47 ∈ joined front ++ name := by simp [slash]
    have reversed : (joined front ++ name).reverse = name.reverse ++ (joined front).reverse :=
      List.reverse_append
    have stops : (joined front).reverse.dropWhile (fun c => c != 47) = (joined front).reverse := by
      rw [slash]
      simp
    have drops : (name.reverse ++ (joined front).reverse).dropWhile (fun c => c != 47) =
        (joined front).reverse := by
      rw [List.dropWhile_append_of_pos, stops]
      intro c inside
      have apart : c ≠ 47 := by
        rintro rfl
        exact noSlash (List.mem_reverse.mp inside)
      exact bne_iff_ne.mpr apart
    rw [if_pos member, reversed, drops, List.reverse_reverse]

/-- The path that a call makes ft_get_prop write. -/
def reach (front : List Call) : Call → List UInt8
  | .beginNode name => pathOf (front ++ [.beginNode name])
  | .endNode => pathOf (front ++ [.endNode])
  | .prop name _ => pathOf front ++ name.bytes

/-- Nodes without a slash in their names and without a name at the top, short paths, and no two
properties at one path unless they have the same data. -/
structure Plain (calls : List Call) : Prop where
  nested : Nested 0 calls
  noSlash : ∀ name, Call.beginNode name ∈ calls → 47 ∉ name.bytes
  root : ∀ front name back, calls = front ++ .beginNode name :: back →
    front.foldl opened [] = [] → name.bytes = []
  short : ∀ front call back, calls = front ++ call :: back → (reach front call).length ≤ 255
  single : ∀ front name data back front' name' data' back',
    calls = front ++ .prop name data :: back → calls = front' ++ .prop name' data' :: back' →
      pathOf front ++ name.bytes = pathOf front' ++ name'.bytes → data = data'

theorem nested_opened (front : List Call) : ∀ names rest,
    Nested names.length (front ++ rest) → Nested (front.foldl opened names).length rest := by
  induction front with
  | nil => exact fun _ _ nested => nested
  | cons call front ih =>
      intro names rest nested
      refine ih (opened names call) rest ?_
      cases call with
      | beginNode name =>
          rw [opened, List.length_append]
          exact nested
      | endNode =>
          rw [opened, List.length_dropLast]
          cases depth : names.length with
          | zero =>
              rw [depth] at nested
              exact nested.elim
          | succ depth' =>
              rw [depth] at nested
              exact nested
      | prop name data => cases depth : names.length <;> simpa [Nested, opened, depth] using nested

/-- The open names, of which the first is empty. -/
structure PlainNames (names : List (List UInt8)) : Prop where
  noSlash : ∀ name ∈ names, 47 ∉ name
  root : ∀ name rest, names = name :: rest → name = []

section PlainTrees
variable {calls : List Call} (plain : Plain calls)
include plain

theorem plain_names (front : List Call) : ∀ rest, calls = front ++ rest →
    PlainNames (front.foldl opened []) := by
  induction front using List.reverseRecOn with
  | nil =>
      intro _ _
      exact ⟨fun _ none' => absurd none' List.not_mem_nil,
        fun _ _ none' => absurd none'.symm (List.cons_ne_nil _ _)⟩
  | append_singleton front call ih =>
      intro rest split
      rw [List.append_assoc] at split
      have before := ih _ split
      rw [List.foldl_append]
      cases call with
      | beginNode name =>
          refine ⟨?_, ?_⟩
          · intro other member
            rcases List.mem_append.mp member with old | new
            · exact before.noSlash other old
            · rw [List.mem_singleton.mp new]
              exact plain.noSlash name (by simp [split])
          · intro other more same
            cases names : front.foldl opened [] with
            | nil =>
                have root := plain.root front name rest split names
                simp only [List.foldl_cons, List.foldl_nil, opened, names, root] at same
                exact (List.cons.inj same).1.symm
            | cons first later =>
                simp only [List.foldl_cons, List.foldl_nil, opened, names] at same
                rw [← (List.cons.inj same).1]
                exact before.root first later names
      | endNode =>
          refine ⟨fun name member => before.noSlash name (List.mem_of_mem_dropLast member), ?_⟩
          intro name more same
          have whole := List.dropLast_prefix (front.foldl opened [])
          rw [show (front.foldl opened []).dropLast = name :: more from same] at whole
          obtain ⟨last, eq⟩ := whole
          exact before.root name (more ++ last) eq.symm
      | prop name data => exact before

/-- The path that is kept is the path of the open nodes. -/
theorem plain_kept {front : List Call} {call : Call} {back : List Call}
    (split : calls = front ++ call :: back) :
    kept (pathOf front) call = some (pathOf (front ++ [call])) := by
  have short := plain.short front call back split
  have behind : pathOf (front ++ [call]) = joined (opened (front.foldl opened []) call) := by
    rw [pathOf, List.foldl_append]
    rfl
  rw [behind]
  cases call with
  | beginNode name =>
      rw [reach, behind, opened, joined_append] at short
      rw [kept, opened, joined_append]
      exact if_pos short
  | endNode =>
      have names := plain_names plain front _ split
      have nested := plain.nested
      rw [split] at nested
      have depth := nested_opened front [] _ nested
      rcases List.eq_nil_or_concat (front.foldl opened []) with none' | ⟨above, name, last⟩
      · rw [none'] at depth
        exact depth.elim
      · rw [List.concat_eq_append] at last
        rw [kept, pathOf, opened, last, List.dropLast_concat]
        rw [last] at names
        refine close_path_joined (names.noSlash name (by simp)) ?_
        rintro rfl
        exact names.root name [] rfl
  | prop name data =>
      rw [reach] at short
      rw [kept]
      exact if_pos short

/-- From any call on, the first property at a wanted path has the wanted data. -/
theorem plain_first {name : CString} {data : List UInt8} {back : List Call} (middle : List Call) :
    ∀ front, calls = front ++ (middle ++ .prop name data :: back) →
      firstData (pathOf (front ++ middle) ++ name.bytes) (pathOf front)
        (middle ++ .prop name data :: back) = some data := by
  induction middle with
  | nil =>
      intro front split
      rw [List.append_nil, List.nil_append, firstData, plain_kept plain split]
      exact if_pos rfl
  | cons call middle ih =>
      intro front split
      have whole : calls = (front ++ [call]) ++ (middle ++ .prop name data :: back) := by
        rw [split, List.append_assoc]
        rfl
      have place : front ++ call :: middle = front ++ [call] ++ middle := by
        rw [List.append_assoc]
        rfl
      rw [List.cons_append, firstData, plain_kept plain split, place]
      by_cases answers : Answers (pathOf (front ++ [call] ++ middle) ++ name.bytes) (pathOf front) call
      · simp only [if_pos answers]
        cases call with
        | beginNode other => exact answers.elim
        | endNode => exact answers.elim
        | prop other data' =>
            have own : calls = (front ++ [.prop other data'] ++ middle) ++ .prop name data :: back := by
              rw [whole, List.append_assoc, List.append_assoc, List.append_assoc]
            exact congrArg some (plain.single _ _ _ _ _ _ _ _ split own answers)
      · simp only [if_neg answers]
        exact ih _ whole

theorem plain_reads_back : ReadsBack calls := by
  rintro front name data back split
  have first := plain_first plain front [] split
  rw [List.nil_append] at first
  rw [split]
  exact first

/-- A plain tree comes back from every buffer that has room for it. -/
theorem plain_build_right {blob : Blob} (fits : Fits blob calls) (mem : Nat → UInt8) :
    BuiltRight blob calls mem := by
  obtain ⟨result, tree, beyond⟩ := built_fits mem (fits_size fits)
  exact ⟨fun address above => beyond address above (fits.trans above),
    fun _ => ⟨result, tree, (props_found_iff tree (fits_size fits)).mpr (plain_reads_back plain)⟩,
    fun far => absurd fits far⟩

end PlainTrees

end UBoot.Fdt.FtRound
