import EntityQuery.Proofs.Nearest
/-!
Pages and their count. Up to `2 ^ 53` matches the rounded quotient of total and limit has the least integer
above it in common with the exact one, so pages are counted exactly. With that count, the number of a page
and the mark that matches follow agree, unless the limit is zero.
-/
namespace EntityQuery

namespace Double

variable {x : Double} {a b n : ℕ}

/-- A quotient that is at most one is rounded to one at most. -/
theorem Nearest.value_le_one (h : x.Nearest (a / b)) (hb : 0 < b) (ha : a ≤ b) : x.value ≤ 1 := by
  obtain ⟨y, hy, hvalue⟩ := exists_value (m := 2 ^ 52) (e := 0) (by omega) (by omega) (by omega)
  have hone : y.value = 1 := by
    rw [hvalue]
    norm_num
  have hbq : (0 : ℚ) < b := by exact_mod_cast hb
  rw [← hone]
  refine h.value_le hy ?_
  rw [hone, div_le_one₀ hbq]
  exact_mod_cast ha

/-- From a positive integer below `2 ^ 53` to the next one, the numbers lie `1 / u` apart for some `u`. -/
theorem exists_spacing (hn : 1 ≤ n) (hmax : n < 2 ^ 53) :
    ∃ u : ℕ, 0 < u ∧ 2 ^ 52 ≤ n * u ∧ ∀ m, n * u ≤ m → m ≤ (n + 1) * u →
      ∃ y : Double, y.isFinite = true ∧ y.value = m / u := by
  obtain ⟨e, he⟩ : ∃ e, e = Nat.log2 n := ⟨_, rfl⟩
  have hfloor : 2 ^ e ≤ n := he ▸ Nat.log2_self_le (by omega)
  have hceil : n < 2 ^ (e + 1) := he ▸ Nat.lt_log2_self
  have hemax : e ≤ 52 := Nat.lt_succ_iff.mp
    ((Nat.pow_lt_pow_iff_right (by omega : 1 < 2)).mp (hfloor.trans_lt hmax))
  have hunit : 2 ^ e * 2 ^ (52 - e) = 2 ^ 52 := by rw [← Nat.pow_add, Nat.add_sub_cancel' hemax]
  have hleast : 2 ^ 52 ≤ n * 2 ^ (52 - e) := hunit ▸ Nat.mul_le_mul_right _ hfloor
  have hgreatest : (n + 1) * 2 ^ (52 - e) ≤ 2 ^ 53 := by
    calc (n + 1) * 2 ^ (52 - e) ≤ 2 ^ (e + 1) * 2 ^ (52 - e) := Nat.mul_le_mul_right _ hceil
      _ = 2 * (2 ^ e * 2 ^ (52 - e)) := by ring
      _ = 2 ^ 53 := by rw [hunit]; rfl
  refine ⟨2 ^ (52 - e), Nat.two_pow_pos _, hleast, fun m hlow hhigh => ?_⟩
  rw [Nat.cast_pow, Nat.cast_ofNat]
  exact exists_value hemax (hleast.trans hlow) (hhigh.trans hgreatest)

/-- Between two neighbouring integers a quotient keeps away from the lower one: the rounded quotient is
above it, and not above the upper one. -/
theorem Nearest.value_between (h : x.Nearest (a / b)) (hb : 0 < b) (hmax : a ≤ 2 ^ 53) (hn : 1 ≤ n)
    (hlow : n * b < a) (hhigh : a ≤ (n + 1) * b) : (n : ℚ) < x.value ∧ x.value ≤ n + 1 := by
  have hnmax : n < 2 ^ 53 := lt_of_le_of_lt (Nat.le_mul_of_pos_right n hb) (hlow.trans_le hmax)
  obtain ⟨u, hu, hleast, hvalues⟩ := exists_spacing hn hnmax
  have hnext : (n + 1) * u = n * u + u := by ring
  -- the quotient is at least `1 / b` above the integer, more than half of the spacing
  have hsmall : b < 2 * u := by
    have hproduct : n * b < n * (2 * u) := by
      calc n * b < a := hlow
        _ ≤ 2 * 2 ^ 52 := hmax
        _ ≤ 2 * (n * u) := Nat.mul_le_mul_left 2 hleast
        _ = n * (2 * u) := by ring
    exact Nat.lt_of_mul_lt_mul_left hproduct
  have hbq : (0 : ℚ) < b := by exact_mod_cast hb
  have huq : (0 : ℚ) < u := by exact_mod_cast hu
  constructor
  · obtain ⟨y, hy, hvalue⟩ := hvalues (n * u + 1) (by omega) (by omega)
    have hyn : y.value = n + 1 / u := by
      rw [hvalue]
      push_cast
      field_simp
    have hgap : (1 / b : ℚ) ≤ a / b - n := by
      rw [le_sub_iff_add_le, div_add' _ _ _ hbq.ne', div_le_div_iff_of_pos_right hbq]
      exact_mod_cast (by omega : 1 + n * b ≤ a)
    have hhalf : (1 / u : ℚ) < 2 * (1 / b) := by
      rw [mul_one_div, div_lt_div_iff₀ huq hbq, one_mul]
      exact_mod_cast hsmall
    have hstep : (0 : ℚ) < 1 / u := by positivity
    refine h.lt_value hy (n := n) (by linarith [one_div_pos.mpr hbq]) ?_
    rw [hyn, abs_lt]
    constructor <;> linarith
  · obtain ⟨y, hy, hvalue⟩ := hvalues ((n + 1) * u) (by omega) le_rfl
    have hyn : y.value = n + 1 := by
      rw [hvalue]
      push_cast
      field_simp
    rw [← hyn]
    refine h.value_le hy ?_
    rw [hyn, div_le_iff₀ hbq]
    exact_mod_cast hhigh

/-- Rounding a quotient does not move it over an integer above one. -/
theorem Nearest.max_one_ceil (h : x.Nearest (a / b)) (hb : 0 < b) (hmax : a ≤ 2 ^ 53) :
    max 1 x.ceil = max 1 ⌈(a / b : ℚ)⌉ := by
  have hbq : (0 : ℚ) < b := by exact_mod_cast hb
  rw [ceil_eq]
  by_cases hone : a ≤ b
  · have hx : ⌈x.value⌉ ≤ 1 := Int.ceil_le.mpr (by exact_mod_cast h.value_le_one hb hone)
    have hq : ⌈(a / b : ℚ)⌉ ≤ 1 := by
      refine Int.ceil_le.mpr ?_
      rw [Int.cast_one, div_le_one₀ hbq]
      exact_mod_cast hone
    rw [max_eq_left hx, max_eq_left hq]
  · obtain ⟨n, hn⟩ : ∃ n, n = (a - 1) / b := ⟨_, rfl⟩
    have hdiv := Nat.div_add_mod (a - 1) b
    have hrest := Nat.mod_lt (a - 1) hb
    rw [← hn, Nat.mul_comm] at hdiv
    have hnpos : 1 ≤ n := hn ▸ (Nat.one_le_div_iff hb).mpr (by omega)
    have hlow : n * b < a := by omega
    have hhigh : a ≤ (n + 1) * b := by
      rw [Nat.add_mul, Nat.one_mul]
      omega
    obtain ⟨hxlow, hxhigh⟩ := h.value_between hb hmax hnpos hlow hhigh
    have hx : ⌈x.value⌉ = n + 1 := by
      rw [Int.ceil_eq_iff]
      push_cast
      exact ⟨by linarith, hxhigh⟩
    have hq : ⌈(a / b : ℚ)⌉ = n + 1 := by
      rw [Int.ceil_eq_iff, lt_div_iff₀ hbq, div_le_iff₀ hbq]
      push_cast
      rw [add_sub_cancel_right]
      exact ⟨by exact_mod_cast hlow, by exact_mod_cast hhigh⟩
    rw [hx, hq]

end Double

namespace Page

variable {α : Type} {p : Page α}

/-- The quotient of a count and a limit is rounded to the nearest number. -/
theorem exists_nearest {a b : ℤ} (ha : 0 ≤ a) (hmax : a ≤ 2 ^ 53) (hb : 1 ≤ b) :
    ∃ x, nearestQuotient a b = .ok x ∧ x.Nearest (a / b) ∧
      max 1 x.ceil = max 1 ⌈(a / b : ℚ)⌉ := by
  lift a to ℕ using ha
  lift b to ℕ using by omega
  obtain ⟨x, hx⟩ := exists_nearestQuotient (a := a) b (by omega)
  have hpicked : Double.ofRatio? false a b = some x := by
    unfold nearestQuotient at hx
    rw [decide_eq_false (by omega : ¬ (a : ℤ) < 0), decide_eq_false (by omega : ¬ (b : ℤ) < 0),
      Int.natAbs_natCast, Int.natAbs_natCast, bne_self_eq_false] at hx
    cases hr : Double.ofRatio? false a b with
    | none =>
      rw [hr] at hx
      cases hx
    | some y =>
      rw [hr] at hx
      exact congrArg some (Except.ok.inj hx)
  have hnearest := Double.nearest_ofRatio? (by omega) hpicked
  rw [Int.cast_natCast, Int.cast_natCast]
  exact ⟨x, hx, hnearest, hnearest.max_one_ceil (by omega) (by omega)⟩

/-- With a limit of at least one, pages are counted through the rounded quotient. -/
theorem pages_of_limit {limit : ℤ} (hlimit : p.limit = some limit) (hpos : 1 ≤ limit) :
    p.pages = (nearestQuotient p.total limit).map fun x => max 1 x.ceil := by
  unfold pages
  rw [hlimit]
  split
  case h_1 heq => cases heq
  case h_2 heq => exact absurd (Option.some.inj heq) (by omega)
  case h_3 heq => cases heq; rfl

/-- The count of pages is exact: it is rounded through a floating-point number, and still the least integer
that is not below the quotient of total and limit, or one. -/
theorem pages_exact {limit : ℤ} (hlimit : p.limit = some limit) (hpos : 1 ≤ limit)
    (htotal : 0 ≤ p.total) (hmax : p.total ≤ 2 ^ 53) :
    ∃ x, nearestQuotient p.total limit = .ok x ∧ x.Nearest (p.total / limit) ∧
      p.pages = .ok (max 1 ⌈(p.total / limit : ℚ)⌉) := by
  obtain ⟨x, hx, hnearest, hceil⟩ := exists_nearest htotal hmax hpos
  refine ⟨x, hx, hnearest, ?_⟩
  rw [pages_of_limit hlimit hpos, hx, ← hceil]
  rfl

/-- As many matches as are counted exactly, in pages of one match less. -/
def longPage : Page Unit where
  items := ()
  total := 2 ^ 53
  limit := some (2 ^ 53 - 1)

theorem pages_longPage : longPage.limit = some (2 ^ 53 - 1) ∧ longPage.total = 2 ^ 53 ∧
    longPage.pages = .ok 2 := by
  have hlimit : longPage.limit = some (2 ^ 53 - 1) := rfl
  obtain ⟨x, -, -, hpages⟩ := pages_exact hlimit (by decide) (by decide) (by decide)
  have hceil : ⌈((longPage.total : ℚ) / ((2 ^ 53 - 1 : ℤ) : ℚ))⌉ = 2 := by
    rw [Int.ceil_eq_iff]
    norm_num [longPage]
  rw [hpages, hceil]
  exact ⟨rfl, rfl, rfl⟩

/-! ### Walks from page to page -/

/-- A page over matches that can be counted exactly, with bounds that are not negative. -/
structure Admitted (p : Page α) : Prop where
  total_nonneg : 0 ≤ p.total
  total_le : p.total ≤ 2 ^ 53
  limit_nonneg : ∀ limit ∈ p.limit, 0 ≤ limit
  offset_nonneg : ∀ offset ∈ p.offset, 0 ≤ offset

/-- The page that starts where this one ends. -/
def next (p : Page α) : Page α := { p with offset := some (p.start + p.limit.getD 0) }

/-- A client moves to the next page where this page says that there is one. -/
def Moves (p q : Page α) : Prop := p.hasNext = true ∧ q = p.next

/-- The number of a page, the count of pages and the mark that matches follow agree: only pages before the
last one have the mark, and all of them have it if the page starts at a multiple of the limit. -/
def Coherent (p : Page α) : Prop :=
  ∃ n, p.pages = .ok n ∧ (p.hasNext = true → p.number < n) ∧
    ((∀ limit ∈ p.limit, limit ∣ p.start) → (p.hasNext = true ↔ p.number < n))

/-- A client that moves from page to page goes on only from pages before the last one, and comes to none
behind it. -/
def StaysInRange (p : Page α) : Prop :=
  ∃ n, p.pages = .ok n ∧ ∀ q, Relation.ReflTransGen Moves p q → q.hasNext = true →
    q.number < n ∧ q.next.number ≤ n

/-- Every walk from this page comes to an end. -/
def WalkEnds (p : Page α) : Prop := Acc (fun q p => Moves p q) p

/-- A page without items that has matches behind its start. -/
def CountsOnly (p : Page α) : Prop := p.limit = some 0 ∧ p.start < p.total

theorem hasNext_of_limit {limit : ℤ} (hlimit : p.limit = some limit) :
    p.hasNext = true ↔ p.start + limit < p.total := by
  simp [hasNext, hlimit]

theorem number_of_limit {limit : ℤ} (hlimit : p.limit = some limit) (hpos : 1 ≤ limit) :
    p.number = p.start / limit + 1 := by
  unfold number
  rw [hlimit]
  split
  case h_1 heq => cases heq
  case h_2 heq => exact absurd (Option.some.inj heq) (by omega)
  case h_3 heq =>
    cases heq
    rw [Int.fdiv_eq_ediv_of_nonneg _ (by omega)]

theorem Admitted.start_nonneg (h : p.Admitted) : 0 ≤ p.start := by
  unfold start
  cases hoffset : p.offset with
  | none => rfl
  | some offset => exact h.offset_nonneg offset hoffset

/-- A page is before the last one if its items, counted in full pages, do not reach the total. -/
theorem Admitted.number_lt_iff (h : p.Admitted) {limit : ℤ} (hlimit : p.limit = some limit)
    (hpos : 1 ≤ limit) :
    ∃ n, p.pages = .ok n ∧ (p.number < n ↔ (p.start / limit + 1) * limit < p.total) := by
  obtain ⟨x, hx, -, hceil⟩ := exists_nearest h.total_nonneg h.total_le hpos
  have hfull : 0 ≤ p.start / limit := Int.ediv_nonneg h.start_nonneg (by omega)
  have hposq : (0 : ℚ) < limit := by exact_mod_cast hpos
  refine ⟨max 1 x.ceil, by rw [pages_of_limit hlimit hpos, hx]; rfl, ?_⟩
  rw [number_of_limit hlimit hpos, hceil, lt_max_iff, or_iff_right (by omega), Int.lt_ceil,
    lt_div_iff₀ hposq]
  exact_mod_cast Iff.rfl

/-- Pages with a limit are coherent. -/
theorem Admitted.coherent_of_limit (h : p.Admitted) {limit : ℤ} (hlimit : p.limit = some limit)
    (hpos : 1 ≤ limit) : p.Coherent := by
  obtain ⟨n, hn, hlt⟩ := h.number_lt_iff hlimit hpos
  have hfloor : p.start / limit * limit ≤ p.start := Int.ediv_mul_le _ (by omega)
  have hnext : (p.start / limit + 1) * limit = p.start / limit * limit + limit := by ring
  refine ⟨n, hn, fun hmore => ?_, fun haligned => ?_⟩
  · rw [hasNext_of_limit hlimit] at hmore
    exact hlt.mpr (by omega)
  · have hexact : p.start / limit * limit = p.start := Int.ediv_mul_cancel (haligned limit hlimit)
    rw [hasNext_of_limit hlimit, hlt, hnext, hexact]

/-- A page with matches behind it has a limit, and one of zero only if it has no items at all. -/
theorem Admitted.one_le_limit (h : p.Admitted) (hno : ¬ p.CountsOnly) (hmore : p.hasNext = true) :
    ∃ limit, p.limit = some limit ∧ 1 ≤ limit := by
  cases hlimit : p.limit with
  | none => simp [hasNext, hlimit] at hmore
  | some limit =>
    refine ⟨limit, rfl, ?_⟩
    rcases (h.limit_nonneg limit hlimit).eq_or_lt with rfl | hpos
    · rw [hasNext_of_limit hlimit, add_zero] at hmore
      exact absurd ⟨hlimit, hmore⟩ hno
    · exact hpos

/-- Pages are coherent unless they have no items and matches behind their start. -/
theorem Admitted.coherent (h : p.Admitted) (hno : ¬ p.CountsOnly) : p.Coherent := by
  cases hlimit : p.limit with
  | none =>
    exact ⟨1, by simp [pages, hlimit], by simp [hasNext, hlimit], by simp [hasNext, number, hlimit]⟩
  | some limit =>
    rcases (h.limit_nonneg limit hlimit).eq_or_lt with rfl | hpos
    · have hend : ¬ p.hasNext = true := fun hmore => by
        obtain ⟨limit, hsome, hpos⟩ := h.one_le_limit hno hmore
        cases hlimit.symm.trans hsome
        omega
      have hnumber : ¬ p.number < 0 := by simp [number, hlimit]
      exact ⟨0, by simp [pages, hlimit], fun hmore => absurd hmore hend,
        fun _ => iff_of_false hend hnumber⟩
    · exact h.coherent_of_limit hlimit hpos

theorem pages_next (p : Page α) : p.next.pages = p.pages := rfl

theorem start_next (p : Page α) : p.next.start = p.start + p.limit.getD 0 := rfl

theorem Admitted.next (h : p.Admitted) : p.next.Admitted := by
  refine ⟨h.total_nonneg, h.total_le, h.limit_nonneg, fun offset hoffset => ?_⟩
  obtain rfl := Option.some.inj hoffset
  have hstart := h.start_nonneg
  cases hlimit : p.limit with
  | none => simpa using hstart
  | some limit => simpa using add_nonneg hstart (h.limit_nonneg limit hlimit)

theorem countsOnly_of_next (hmore : p.hasNext = true) (h : p.next.CountsOnly) : p.CountsOnly := by
  have hlimit : p.limit = some 0 := h.1
  rw [hasNext_of_limit hlimit, add_zero] at hmore
  exact ⟨hlimit, hmore⟩

theorem number_next {limit : ℤ} (hlimit : p.limit = some limit) (hpos : 1 ≤ limit) :
    p.next.number = p.number + 1 := by
  rw [number_of_limit (p := p.next) hlimit hpos, number_of_limit hlimit hpos, start_next, hlimit,
    Option.getD_some, Int.add_ediv_of_dvd_right (dvd_refl limit), Int.ediv_self (by omega)]

/-- A walk leads to pages over the same matches that are coherent like the first one. -/
theorem Admitted.of_walk (h : p.Admitted) (hno : ¬ p.CountsOnly) {q : Page α}
    (hwalk : Relation.ReflTransGen Moves p q) :
    q.Admitted ∧ ¬ q.CountsOnly ∧ q.pages = p.pages := by
  induction hwalk with
  | refl => exact ⟨h, hno, rfl⟩
  | @tail b c _ hmove ih =>
    obtain ⟨hmore, rfl⟩ := hmove
    obtain ⟨hadmitted, hnob, hpages⟩ := ih
    exact ⟨hadmitted.next, fun hc => hnob (countsOnly_of_next hmore hc), (pages_next b).trans hpages⟩

/-- With a limit of at least one, each move brings the start nearer to the total. -/
theorem walkEnds_of_limit {limit : ℤ} (hlimit : p.limit = some limit) (hpos : 1 ≤ limit) :
    p.WalkEnds := by
  induction hleft : (p.total - p.start).toNat using Nat.strong_induction_on generalizing p with
  | _ left ih =>
    refine Acc.intro p fun q hmove => ?_
    obtain ⟨hmore, rfl⟩ := hmove
    rw [hasNext_of_limit hlimit] at hmore
    have hstart : p.next.start = p.start + limit := by rw [start_next, hlimit, Option.getD_some]
    have htotal : p.next.total = p.total := rfl
    exact ih _ (by omega) hlimit rfl

/-- A page without a next one ends its walk. -/
theorem walkEnds_of_last (h : ¬ p.hasNext = true) : p.WalkEnds :=
  Acc.intro p fun _ hmove => absurd hmove.1 h

/-- A page that counts only leads to itself. -/
theorem CountsOnly.not_walkEnds (h : p.CountsOnly) : ¬ p.WalkEnds := by
  intro hends
  induction hends with
  | intro p _ ih =>
    have hmore : p.hasNext = true := (hasNext_of_limit h.1).mpr (by rw [add_zero]; exact h.2)
    refine ih p.next ⟨hmore, rfl⟩ ⟨h.1, ?_⟩
    rw [start_next, h.1, Option.getD_some, add_zero]
    exact h.2

/-- A page that counts only says that matches follow, but there is no page for them. -/
theorem CountsOnly.number_not_lt (h : p.CountsOnly) {n : ℤ} (hn : p.pages = .ok n) :
    p.hasNext = true ∧ ¬ p.number < n := by
  refine ⟨(hasNext_of_limit h.1).mpr (by rw [add_zero]; exact h.2), ?_⟩
  have hpages : p.pages = .ok 0 := by simp [pages, h.1]
  have hnumber : p.number = 1 := by simp [number, h.1]
  obtain rfl := Except.ok.inj (hpages.symm.trans hn)
  omega

/-- The number of a page, the count of pages and the mark that matches follow are coherent, a client that
follows the mark stays among the pages, and its walk ends: each of this holds exactly if the page does not
have a limit of zero with matches behind its start. -/
theorem coherent_iff (h : p.Admitted) : (p.Coherent ↔ ¬ p.CountsOnly) ∧
    (p.StaysInRange ↔ ¬ p.CountsOnly) ∧ (p.WalkEnds ↔ ¬ p.CountsOnly) := by
  refine ⟨⟨?_, h.coherent⟩, ⟨?_, fun hno => ?_⟩, ⟨fun hends hc => hc.not_walkEnds hends, fun hno => ?_⟩⟩
  · rintro ⟨n, hn, hrange, -⟩ hc
    obtain ⟨hmore, hlast⟩ := hc.number_not_lt hn
    exact hlast (hrange hmore)
  · rintro ⟨n, hn, hrange⟩ hc
    obtain ⟨hmore, hlast⟩ := hc.number_not_lt hn
    exact hlast (hrange p .refl hmore).1
  · obtain ⟨n, hn, -⟩ := h.coherent hno
    refine ⟨n, hn, fun q hwalk hmore => ?_⟩
    obtain ⟨hadmitted, hnoq, hpages⟩ := h.of_walk hno hwalk
    obtain ⟨m, hm, hrange, -⟩ := hadmitted.coherent hnoq
    obtain rfl := Except.ok.inj (hm.symm.trans (hpages.trans hn))
    obtain ⟨limit, hlimit, hpos⟩ := hadmitted.one_le_limit hnoq hmore
    rw [number_next hlimit hpos]
    exact ⟨hrange hmore, hrange hmore⟩
  · by_cases hmore : p.hasNext = true
    · obtain ⟨limit, hlimit, hpos⟩ := h.one_le_limit hno hmore
      exact walkEnds_of_limit hlimit hpos
    · exact walkEnds_of_last hmore

/-- The seventh to the ninth of ten matches. -/
def thirdPage : Page Unit where
  items := ()
  total := 10
  limit := some 3
  offset := some 6

theorem coherent_thirdPage : thirdPage.Admitted ∧ thirdPage.Coherent ∧ thirdPage.StaysInRange ∧
    thirdPage.WalkEnds := by
  have hadmitted : thirdPage.Admitted := ⟨by decide, by decide, by decide, by decide⟩
  have hno : ¬ thirdPage.CountsOnly := by simp [CountsOnly, thirdPage]
  obtain ⟨hcoherent, hrange, hends⟩ := coherent_iff hadmitted
  exact ⟨hadmitted, hcoherent.mpr hno, hrange.mpr hno, hends.mpr hno⟩

/-- None of three matches. -/
def emptyPage : Page Unit where
  items := ()
  total := 3
  limit := some 0

theorem not_coherent_emptyPage : emptyPage.Admitted ∧ emptyPage.hasNext = true ∧ emptyPage.number = 1 ∧
    emptyPage.pages = .ok 0 ∧ ¬ emptyPage.Coherent ∧ ¬ emptyPage.WalkEnds := by
  have hcounts : emptyPage.CountsOnly := ⟨rfl, by decide⟩
  refine ⟨⟨by decide, by decide, by decide, by decide⟩, rfl, rfl, rfl, ?_, hcounts.not_walkEnds⟩
  rintro ⟨n, hn, hrange, -⟩
  obtain ⟨hmore, hlast⟩ := hcounts.number_not_lt hn
  exact hlast (hrange hmore)

end Page
end EntityQuery
