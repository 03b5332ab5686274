import UBoot.Pci.Cursors

/-!
pciauto_region_allocate over many requests. The cursor is rounded up to the size of a request, and
both that and the check against the end of the region are computed modulo 2^32: near the top of the
address space they can wrap, and a window outside of the region is granted.
-/

namespace UBoot.Pci.RegionAllocate

open PciAuto Cursors

/-- The size of a request, a power of two. -/
def power (k : Fin 32) : UInt32 := UInt32.ofNat (2 ^ k.val)

/-- What pciauto_region_allocate returns, with `*bar` and the region behind it. -/
structure Answer where
  result : Int
  bar : UInt32
  region : PciRegion

def pciautoRegionAllocate (res : PciRegion) (size : UInt32) : Answer :=
  let addr := alignUp res.busLower size
  if addr - res.busStart + size > res.size then ⟨-1, 0xffffffff, res⟩
  else ⟨0, addr, { res with busLower := addr + size }⟩

/-- The regions of a controller are allocated from in the same way. -/
theorem region_allocate_eq (hose : PciController) (space : Space) (size : UInt32) :
    (regionAllocate hose space size).map (fun done => (done.1, done.2.regions)) =
      (hose.regions space).bind fun res =>
        if (pciautoRegionAllocate res size).result = 0 then
          some ((pciautoRegionAllocate res size).bar, Function.update hose.regions space
            (some (pciautoRegionAllocate res size).region))
        else none := by
  unfold regionAllocate pciautoRegionAllocate
  cases hose.regions space with
  | none => rfl
  | some res =>
      dsimp only [Option.bind_some]
      by_cases large : res.size < alignUp res.busLower size - res.busStart + size
      · rw [if_pos large, if_pos large]
        rfl
      · rw [if_neg large, if_neg large]
        rfl

/-- A request with the region before it. -/
structure Request where
  before : PciRegion
  exponent : Fin 32

def Request.answer (request : Request) : Answer :=
  pciautoRegionAllocate request.before (power request.exponent)

def Request.granted (request : Request) : Prop := request.answer.result = 0

/-- Requests one after the other. -/
def requests : PciRegion → List (Fin 32) → List Request
  | _, [] => []
  | res, k :: rest =>
      ⟨res, k⟩ :: requests (pciautoRegionAllocate res (power k)).region rest

/-- The addresses of a window, counted on from its first one modulo 2^32. -/
def InWindow (request : Request) (address : UInt32) : Prop :=
  (address - request.answer.bar).toNat < 2 ^ request.exponent.val

/-- A granted window is aligned and lies in the region, and a refusal changes nothing. -/
structure Fair (res : PciRegion) (request : Request) : Prop where
  aligned : request.granted → 2 ^ request.exponent.val ∣ request.answer.bar.toNat
  inside : request.granted → res.busStart.toNat ≤ request.answer.bar.toNat ∧
    request.answer.bar.toNat + 2 ^ request.exponent.val ≤ res.busStart.toNat + res.size.toNat
  unchanged : ¬ request.granted → request.answer.region = request.before

def Apart (first second : Request) : Prop :=
  first.granted → second.granted → ∀ address, ¬ (InWindow first address ∧ InWindow second address)

structure FairRun (res : PciRegion) (run : List Request) : Prop where
  fair : ∀ request ∈ run, Fair res request
  apart : run.Pairwise Apart

/-! ### The exact addresses -/

/-- The cursor. It is in front of the region only when it has passed the last address of all. -/
def cursor (res : PciRegion) : Nat :=
  if res.busLower < res.busStart then 2 ^ 32 else res.busLower.toNat

/-- The next multiple. -/
def roundUp (place size : Nat) : Nat := (place + size - 1) / size * size

/-- How far the window at the cursor, rounded up, goes from the beginning of the region on. -/
def Request.reach (request : Request) : Nat :=
  roundUp (cursor request.before) (2 ^ request.exponent.val) + 2 ^ request.exponent.val -
    request.before.busStart.toNat

/-- The reach is less than 2^32, or it is too large for the region even without 2^32. -/
def NoWrap (request : Request) : Prop :=
  request.reach < 2 ^ 32 ∨ request.before.size.toNat + 2 ^ 32 < request.reach

instance (request : Request) : Decidable request.granted :=
  inferInstanceAs (Decidable (request.answer.result = 0))

instance (request : Request) : Decidable (NoWrap request) :=
  inferInstanceAs (Decidable (_ ∨ _))

section Values

theorem power_value (k : Fin 32) : (power k).toNat = 2 ^ k.val := by
  rw [power, UInt32.toNat_ofNat']
  exact Nat.mod_eq_of_lt (Nat.pow_lt_pow_right Nat.one_lt_two k.isLt)

theorem or_low_ones (x k : Nat) : (x ||| (2 ^ k - 1)) + 1 = (x / 2 ^ k + 1) * 2 ^ k := by
  have positive := Nat.two_pow_pos k
  have low := or_ones x k
  have high : (x ||| (2 ^ k - 1)) / 2 ^ k = x / 2 ^ k := by
    rw [Nat.or_div_two_pow, Nat.div_eq_of_lt (Nat.sub_lt positive Nat.one_pos), Nat.or_zero]
  have whole := Nat.div_add_mod (x ||| (2 ^ k - 1)) (2 ^ k)
  rw [low, high] at whole
  rw [Nat.add_mul, Nat.one_mul, Nat.mul_comm]
  omega

theorem round_up_bounds {place size : Nat} (positive : 0 < size) :
    place ≤ roundUp place size ∧ roundUp place size < place + size ∧ size ∣ roundUp place size := by
  have whole := Nat.div_add_mod (place + size - 1) size
  have less := Nat.mod_lt (place + size - 1) positive
  unfold roundUp
  rw [Nat.mul_comm]
  exact ⟨by omega, by omega, Nat.dvd_mul_right _ _⟩

theorem round_up_succ (place size : Nat) : roundUp (place + 1) size = (place / size + 1) * size := by
  rcases Nat.eq_zero_or_pos size with rfl | positive
  · simp [roundUp]
  · rw [roundUp, show place + 1 + size - 1 = place + size by omega, Nat.add_div_right _ positive]

theorem round_up_self {place size : Nat} (positive : 0 < size) (multiple : size ∣ place) :
    roundUp place size = place := by
  obtain ⟨above, below, whole⟩ := @round_up_bounds place size positive
  have distance : size ∣ roundUp place size - place := Nat.dvd_sub whole multiple
  have none : roundUp place size - place = 0 := Nat.eq_zero_of_dvd_of_lt distance (by omega)
  omega

/-- The address that is computed is the exact one, modulo 2^32. -/
theorem align_value {lower : UInt32} {place : Nat} (small : place ≤ 2 ^ 32)
    (value : lower.toNat = place % 2 ^ 32) (k : Fin 32) :
    (alignUp lower (power k)).toNat = roundUp place (2 ^ k.val) % 2 ^ 32 := by
  have positive := Nat.two_pow_pos k.val
  have whole : 2 ^ k.val ∣ 2 ^ 32 := Nat.pow_dvd_pow 2 (Nat.le_of_lt k.isLt)
  have less : (power k - 1).toNat = 2 ^ k.val - 1 := by
    rw [UInt32.toNat_sub_of_le, power_value]
    · rfl
    · rw [UInt32.le_iff_toNat_le, power_value]
      exact positive
  have computed : (alignUp lower (power k)).toNat =
      roundUp ((lower - 1).toNat + 1) (2 ^ k.val) % 2 ^ 32 := by
    unfold alignUp
    rw [UInt32.toNat_add, UInt32.toNat_or, less, show (1 : UInt32).toNat = 1 from rfl, or_low_ones,
      round_up_succ]
  rw [computed]
  by_cases zero : lower = 0
  · have last : (lower - 1).toNat + 1 = 2 ^ 32 := by
      rw [zero]
      rfl
    rw [zero] at value
    have ends : place = 0 ∨ place = 2 ^ 32 := by
      have none : place % 2 ^ 32 = 0 := value.symm
      omega
    rw [last, round_up_self positive whole]
    rcases ends with rfl | rfl
    · rw [round_up_self positive (Nat.dvd_zero _), Nat.mod_self, Nat.zero_mod]
    · rw [round_up_self positive whole]
  · have above : 0 < lower.toNat := by
      rw [Nat.pos_iff_ne_zero]
      exact fun same => zero (UInt32.toNat.inj same)
    have before : (lower - 1).toNat = lower.toNat - 1 := by
      rw [UInt32.toNat_sub_of_le]
      · rfl
      · exact UInt32.le_iff_toNat_le.mpr above
    have here : (lower - 1).toNat + 1 = place := by
      have bound := lower.toNat_lt
      omega
    rw [here]

end Values

/-! ### The cursor stays in the region -/

/-- The region behind some requests of which none has gone wrong. -/
structure Within (res after : PciRegion) : Prop where
  busStart : after.busStart = res.busStart
  size : after.size = res.size
  fits : res.busStart.toNat + res.size.toNat ≤ 2 ^ 32
  above : res.busStart.toNat ≤ cursor after
  below : cursor after ≤ res.busStart.toNat + res.size.toNat
  value : after.busLower.toNat = cursor after % 2 ^ 32

section Requests
variable {res after : PciRegion}

theorem init_within (fits : res.busStart.toNat + res.size.toNat ≤ 2 ^ 32) :
    Within res (regionInit res) := by
  have bound := res.busStart.toNat_lt
  have here : cursor (regionInit res) = res.busStart.toNat := by
    unfold cursor regionInit
    rw [if_neg (UInt32.lt_irrefl _)]
  exact ⟨rfl, rfl, fits, Nat.le_of_eq here.symm, by omega, by
    rw [here, Nat.mod_eq_of_lt bound]
    rfl⟩

/-- The window that the cursor is rounded up to, in exact arithmetic. -/
def exactAddr (after : PciRegion) (k : Fin 32) : Nat := roundUp (cursor after) (2 ^ k.val)

theorem exact_addr_bounds (within : Within res after) (k : Fin 32) :
    cursor after ≤ exactAddr after k ∧ exactAddr after k ≤ 2 ^ 32 ∧
      2 ^ k.val ∣ exactAddr after k ∧
      (exactAddr after k < 2 ^ 32 → exactAddr after k + 2 ^ k.val ≤ 2 ^ 32) := by
  have positive := Nat.two_pow_pos k.val
  have whole : 2 ^ k.val ∣ 2 ^ 32 := Nat.pow_dvd_pow 2 (Nat.le_of_lt k.isLt)
  obtain ⟨above, below, multiple⟩ := @round_up_bounds (cursor after) _ positive
  have fits := within.fits
  have inside := within.below
  have step : ∀ value, 2 ^ k.val ∣ value → value < 2 ^ 32 → value + 2 ^ k.val ≤ 2 ^ 32 := by
    intro value divides less
    have distance : 2 ^ k.val ∣ 2 ^ 32 - value := Nat.dvd_sub whole divides
    have least := Nat.le_of_dvd (by omega) distance
    omega
  refine ⟨above, ?_, multiple, step _ multiple⟩
  -- the next multiple behind the cursor is not behind 2^32, which is one
  have same := @round_up_self (2 ^ 32) _ positive whole
  by_contra large
  have distance : 2 ^ k.val ∣ roundUp (cursor after) (2 ^ k.val) - 2 ^ 32 := Nat.dvd_sub multiple whole
  have least := Nat.le_of_dvd (by unfold exactAddr at large; omega) distance
  omega

/-- The computed address, and the computed end of the window in the region. -/
theorem computed_values (within : Within res after) (k : Fin 32) :
    (alignUp after.busLower (power k)).toNat = exactAddr after k % 2 ^ 32 ∧
      (alignUp after.busLower (power k) - after.busStart + power k).toNat =
        (exactAddr after k + 2 ^ k.val - res.busStart.toNat) % 2 ^ 32 := by
  have fits := within.fits
  have inside := within.below
  have outside := within.above
  obtain ⟨above, small, -, -⟩ := exact_addr_bounds within k
  have address := align_value (by omega) within.value k
  refine ⟨address, ?_⟩
  have start := res.busStart.toNat_lt
  have size := power_value k
  have bound := (power k).toNat_lt
  rw [UInt32.toNat_add, UInt32.toNat_sub, address, within.busStart, size]
  unfold exactAddr at *
  omega

theorem granted_iff (within : Within res after) (k : Fin 32) :
    (Request.mk after k).granted ↔
      (exactAddr after k + 2 ^ k.val - res.busStart.toNat) % 2 ^ 32 ≤ res.size.toNat := by
  have values := (computed_values within k).2
  simp only [Request.granted, Request.answer, pciautoRegionAllocate]
  rw [← values, ← within.size, ← UInt32.le_iff_toNat_le, ← UInt32.not_lt]
  by_cases large : after.size < alignUp after.busLower (power k) - after.busStart + power k
  · rw [if_pos large]
    exact ⟨fun zero => absurd zero (show (-1 : Int) ≠ 0 by decide), fun small => absurd large small⟩
  · rw [if_neg large]
    exact ⟨fun _ => large, fun _ => rfl⟩

theorem granted_answer {request : Request} (granted : request.granted) :
    request.answer.bar = alignUp request.before.busLower (power request.exponent) ∧
      request.answer.region = { request.before with
        busLower := alignUp request.before.busLower (power request.exponent) +
          power request.exponent } := by
  simp only [Request.granted, Request.answer, pciautoRegionAllocate] at granted ⊢
  split at granted
  · exact absurd granted (show (-1 : Int) ≠ 0 by decide)
  · rename_i fits
    rw [if_neg fits]
    exact ⟨rfl, rfl⟩

theorem refused_answer {request : Request} (refused : ¬ request.granted) :
    request.answer.region = request.before := by
  simp only [Request.granted, Request.answer, pciautoRegionAllocate] at refused ⊢
  split at refused
  · rename_i large
    rw [if_pos large]
  · exact absurd rfl refused

theorem no_wrap_iff (within : Within res after) (k : Fin 32) :
    NoWrap ⟨after, k⟩ ↔ exactAddr after k + 2 ^ k.val - res.busStart.toNat < 2 ^ 32 ∨
      res.size.toNat + 2 ^ 32 < exactAddr after k + 2 ^ k.val - res.busStart.toNat := by
  simp only [NoWrap, Request.reach, within.busStart, within.size, exactAddr]

/-- A window that is granted without a wrap lies between the old cursor and the new one. -/
theorem granted_window (within : Within res after) {k : Fin 32} (exact : NoWrap ⟨after, k⟩)
    (granted : (Request.mk after k).granted) :
    (Request.mk after k).answer.bar.toNat = exactAddr after k ∧
      exactAddr after k + 2 ^ k.val ≤ res.busStart.toNat + res.size.toNat ∧
      cursor (Request.mk after k).answer.region = exactAddr after k + 2 ^ k.val ∧
      Within res (Request.mk after k).answer.region := by
  obtain ⟨above, small, multiple, room⟩ := exact_addr_bounds within k
  have accepted := (granted_iff within k).mp granted
  have fits := within.fits
  have outside := within.above
  have size := power_value k
  have bound := (power k).toNat_lt
  have sizeBound := res.size.toNat_lt
  have positive := Nat.two_pow_pos k.val
  have reach : exactAddr after k + 2 ^ k.val ≤ res.busStart.toNat + res.size.toNat := by
    rcases (no_wrap_iff within k).mp exact with near | far
    · rw [Nat.mod_eq_of_lt near] at accepted
      omega
    · omega
  obtain ⟨bar, region⟩ := granted_answer granted
  have address : (Request.mk after k).answer.bar.toNat = exactAddr after k := by
    rw [bar, (computed_values within k).1, Nat.mod_eq_of_lt (by omega)]
  have lower : (Request.mk after k).answer.region.busLower.toNat =
      (exactAddr after k + 2 ^ k.val) % 2 ^ 32 := by
    rw [region]
    change (alignUp after.busLower (power k) + power k).toNat = _
    rw [UInt32.toNat_add, (computed_values within k).1, size]
    omega
  have start : (Request.mk after k).answer.region.busStart = res.busStart := by
    rw [region]
    exact within.busStart
  have next : cursor (Request.mk after k).answer.region = exactAddr after k + 2 ^ k.val := by
    unfold cursor
    rw [start, lower]
    simp only [UInt32.lt_iff_toNat_lt, lower]
    split
    · omega
    · omega
  refine ⟨address, reach, next, start, ?_, fits, ?_, ?_, ?_⟩
  · rw [region]
    exact within.size
  · rw [next]
    omega
  · rw [next]
    exact reach
  · rw [next, lower]

theorem step_within (within : Within res after) {k : Fin 32} (exact : NoWrap ⟨after, k⟩) :
    Within res (Request.mk after k).answer.region := by
  by_cases granted : (Request.mk after k).granted
  · exact (granted_window within exact granted).2.2.2
  · rw [refused_answer granted]
    exact within

theorem step_fair (within : Within res after) {k : Fin 32} (exact : NoWrap ⟨after, k⟩) :
    Fair res ⟨after, k⟩ where
  aligned := by
    intro granted
    rw [(granted_window within exact granted).1]
    exact (exact_addr_bounds within k).2.2.1
  inside := by
    intro granted
    obtain ⟨address, reach, -, -⟩ := granted_window within exact granted
    have above := (exact_addr_bounds within k).1
    have outside := within.above
    rw [address]
    exact ⟨outside.trans above, reach⟩
  unchanged := refused_answer

/-- The cursor does not go back. -/
theorem step_climbs (within : Within res after) {k : Fin 32} (exact : NoWrap ⟨after, k⟩) :
    cursor after ≤ cursor (Request.mk after k).answer.region := by
  by_cases granted : (Request.mk after k).granted
  · have above := (exact_addr_bounds within k).1
    rw [(granted_window within exact granted).2.2.1]
    exact above.trans (Nat.le_add_right _ _)
  · rw [refused_answer granted]

theorem zero_in_window {request : Request} (bar : request.answer.bar = 0) : InWindow request 0 := by
  unfold InWindow
  rw [bar, UInt32.sub_self]
  exact Nat.two_pow_pos request.exponent.val

/-- A window that wraps is granted. It is not in the region, or it begins at zero, where an earlier
one does. -/
theorem wrapped_window (within : Within res after) {k : Fin 32} (wraps : ¬ NoWrap ⟨after, k⟩)
    (fair : Fair res ⟨after, k⟩) : (Request.mk after k).granted ∧
      InWindow ⟨after, k⟩ 0 ∧ res.busStart.toNat = 0 ∧ 0 < cursor after := by
  rw [no_wrap_iff within k, not_or] at wraps
  obtain ⟨far, near⟩ := wraps
  obtain ⟨above, small, multiple, room⟩ := exact_addr_bounds within k
  have sizeBound := res.size.toNat_lt
  have powerBound := (power k).toNat_lt
  rw [power_value] at powerBound
  have positive := Nat.two_pow_pos k.val
  have granted : (Request.mk after k).granted := by
    rw [granted_iff within k]
    omega
  obtain ⟨bar, -⟩ := granted_answer granted
  have address := (computed_values within k).1
  have inside := fair.inside granted
  rw [bar] at inside
  dsimp only at inside
  rw [address] at inside
  have full : exactAddr after k = 2 ^ 32 := by
    by_contra other
    have less := room (by omega)
    rw [Nat.mod_eq_of_lt (by omega)] at inside
    omega
  rw [full, Nat.mod_self] at inside
  have reached := (@round_up_bounds (cursor after) _ positive).2.1
  have zero : (Request.mk after k).answer.bar = 0 := by
    apply UInt32.toNat.inj
    rw [bar, address, full]
    rfl
  have half : 2 ^ k.val ≤ 2 ^ 31 := Nat.pow_le_pow_right (by decide) (Nat.le_of_lt_succ k.isLt)
  refine ⟨granted, zero_in_window zero, Nat.le_zero.mp inside.1, ?_⟩
  unfold exactAddr at full
  omega

/-! ### Many requests -/

theorem in_window_iff {request : Request} {address : UInt32}
    (ends : request.answer.bar.toNat + 2 ^ request.exponent.val ≤ 2 ^ 32) :
    InWindow request address ↔ request.answer.bar.toNat ≤ address.toNat ∧
      address.toNat < request.answer.bar.toNat + 2 ^ request.exponent.val := by
  have bound := address.toNat_lt
  have bar := request.answer.bar.toNat_lt
  unfold InWindow
  rw [UInt32.toNat_sub]
  omega

theorem requests_above (ks : List (Fin 32)) : ∀ after, Within res after →
    (∀ request ∈ requests after ks, NoWrap request) → ∀ request ∈ requests after ks,
      Fair res request ∧ (request.granted → cursor after ≤ request.answer.bar.toNat) := by
  induction ks with
  | nil => exact fun _ _ _ _ none' => absurd none' List.not_mem_nil
  | cons k rest ih =>
      intro after within exact request member
      have here : NoWrap ⟨after, k⟩ := exact _ List.mem_cons_self
      rcases List.mem_cons.mp member with rfl | later
      · refine ⟨step_fair within here, fun granted => ?_⟩
        rw [(granted_window within here granted).1]
        exact (exact_addr_bounds within k).1
      · obtain ⟨fair, above⟩ := ih _ (step_within within here)
          (fun other inside => exact other (List.mem_cons_of_mem _ inside)) request later
        exact ⟨fair, fun granted => (step_climbs within here).trans (above granted)⟩

theorem requests_apart (ks : List (Fin 32)) : ∀ after, Within res after →
    (∀ request ∈ requests after ks, NoWrap request) → (requests after ks).Pairwise Apart := by
  induction ks with
  | nil => exact fun _ _ _ => List.Pairwise.nil
  | cons k rest ih =>
      intro after within exact
      have here : NoWrap ⟨after, k⟩ := exact _ List.mem_cons_self
      have next := step_within within here
      have others : ∀ request ∈ requests (Request.mk after k).answer.region rest, NoWrap request :=
        fun other inside => exact other (List.mem_cons_of_mem _ inside)
      refine List.pairwise_cons.mpr ⟨?_, ih _ next others⟩
      intro request member first second address both
      obtain ⟨bar, reach, behind, -⟩ := granted_window within here first
      obtain ⟨fair, above⟩ := requests_above rest _ next others request member
      have fits := within.fits
      have inside := (fair.inside second).2
      have low := ((in_window_iff (by rw [bar]; exact reach.trans fits)).mp both.1).2
      have high := ((in_window_iff (inside.trans fits)).mp both.2).1
      have past := above second
      rw [behind] at past
      rw [bar] at low
      dsimp only at low
      omega

/-- A granted window at address zero that is apart from all requests to come. -/
def ZeroTaken (res after : PciRegion) (later : List Request) : Prop :=
  res.busStart.toNat = 0 → 0 < cursor after → ∃ first : Request, first.granted ∧
    InWindow first 0 ∧ ∀ request ∈ later, Apart first request

theorem zero_kept (within : Within res after) {k : Fin 32} (here : NoWrap ⟨after, k⟩)
    {later : List Request} (zero : ZeroTaken res after (⟨after, k⟩ :: later))
    (head : ∀ request ∈ later, Apart ⟨after, k⟩ request) :
    ZeroTaken res (Request.mk after k).answer.region later := by
  intro start behind
  by_cases before : 0 < cursor after
  · obtain ⟨first, given, covers, separate⟩ := zero start before
    exact ⟨first, given, covers,
      fun request member => separate request (List.mem_cons_of_mem _ member)⟩
  · have none' : cursor after = 0 := Nat.eq_zero_of_not_pos before
    by_cases granted : (Request.mk after k).granted
    · have bar : (Request.mk after k).answer.bar = 0 := by
        apply UInt32.toNat.inj
        rw [(granted_window within here granted).1, exactAddr, none',
          round_up_self (Nat.two_pow_pos k.val) (Nat.dvd_zero _)]
        rfl
      exact ⟨⟨after, k⟩, granted, zero_in_window bar, head⟩
    · rw [refused_answer granted] at behind
      exact absurd behind before

/-- In a fair run no request wraps: the first one that does would not be fair to the region, or not
apart from the window at zero. -/
theorem fair_exact (ks : List (Fin 32)) : ∀ after, Within res after →
    ZeroTaken res after (requests after ks) → FairRun res (requests after ks) →
      ∀ request ∈ requests after ks, NoWrap request := by
  induction ks with
  | nil => exact fun _ _ _ _ _ none' => absurd none' List.not_mem_nil
  | cons k rest ih =>
      intro after within zero run
      obtain ⟨fair, apart⟩ := run
      obtain ⟨head, tail⟩ := List.pairwise_cons.mp apart
      have here : NoWrap ⟨after, k⟩ := by
        by_contra wraps
        obtain ⟨granted, inside, start, behind⟩ :=
          wrapped_window within wraps (fair _ List.mem_cons_self)
        obtain ⟨first, given, covers, separate⟩ := zero start behind
        exact separate _ List.mem_cons_self given granted 0 ⟨covers, inside⟩
      have later := ih (Request.mk after k).answer.region (step_within within here)
        (zero_kept within here zero head)
        ⟨fun request member => fair request (List.mem_cons_of_mem _ member), tail⟩
      intro request member
      rcases List.mem_cons.mp member with rfl | behind
      · exact here
      · exact later request behind

end Requests

/-- From a new region on, the windows are aligned, in the region and apart from one another, and
refusals change nothing, if and only if no request reaches past 2^32 and is granted for that. -/
theorem fair_run_iff {res : PciRegion} (fits : res.busStart.toNat + res.size.toNat ≤ 2 ^ 32)
    (ks : List (Fin 32)) : FairRun res (requests (regionInit res) ks) ↔
      ∀ request ∈ requests (regionInit res) ks, NoWrap request := by
  have within := init_within fits
  constructor
  · intro run
    refine fair_exact ks _ within (fun start behind => ?_) run
    have here : cursor (regionInit res) = res.busStart.toNat := by
      unfold cursor regionInit
      rw [if_neg (UInt32.lt_irrefl _)]
    omega
  · intro exact
    exact ⟨fun request member => (requests_above ks _ within exact request member).1,
      requests_apart ks _ within exact⟩

/-- The upper half of the address space. -/
def upperHalf : PciRegion := ⟨0x80000000, 0x80000000, 0⟩

theorem small_requests_fair : FairRun upperHalf (requests (regionInit upperHalf) [0, 12, 0]) :=
  (fair_run_iff (by decide) _).mpr (by decide +kernel)

/-- Behind one byte of the upper half, half of the address space is granted at address zero. -/
theorem lower_half_granted :
    upperHalf.busStart.toNat + upperHalf.size.toNat ≤ 2 ^ 32 ∧
      ¬ FairRun upperHalf (requests (regionInit upperHalf) [0, 31]) := by
  refine ⟨by decide, fun run => ?_⟩
  have inside := (run.fair _ (List.mem_cons_of_mem _ List.mem_cons_self)).inside (by decide +kernel)
  exact absurd inside.1 (by decide +kernel)

end UBoot.Pci.RegionAllocate
