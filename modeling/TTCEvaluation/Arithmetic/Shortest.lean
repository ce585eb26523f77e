import TTCEvaluation.Arithmetic.DecimalText
import TTCEvaluation.Arithmetic.Steps

/-!
# Seventeen digits suffice

A decimal with seventeen digits is nearer to a double than any point half way
to another double, so the search for the shortest decimal that is read back as
a double succeeds.
-/

namespace TTCEvaluation

/-! ## Reading a number next to a double -/

theorem roundHalfEven_eq_of_near {y : ℚ} {k : ℤ} (h : |y - k| < 1 / 2) : roundHalfEven y = k := by
  obtain ⟨hlow, hhigh⟩ := abs_lt.mp h
  obtain ⟨hlow', hhigh'⟩ := abs_le.mp (abs_roundHalfEven_sub_le y)
  have hlt : (roundHalfEven y : ℚ) < k + 1 := by linarith
  have hgt : (k : ℚ) < roundHalfEven y + 1 := by linarith
  have hlt' : roundHalfEven y < k + 1 := by exact_mod_cast hlt
  have hgt' : k < roundHalfEven y + 1 := by exact_mod_cast hgt
  omega

/-- A number is rounded to the grid point within half a step. -/
theorem toDouble_eq_of_grid {x y : ℚ} {m : ℤ} (hx : x = m * 2 ^ ulpExponent y)
    (h : |y - x| < 2 ^ ulpExponent y / 2) : toDouble y = x := by
  have hpos := two_zpow_pos (ulpExponent y)
  have hscaled : y / 2 ^ ulpExponent y - m = (y - x) / 2 ^ ulpExponent y := by
    rw [hx]
    field_simp
  have hround : roundHalfEven (y / 2 ^ ulpExponent y) = m := by
    apply roundHalfEven_eq_of_near
    rw [hscaled, abs_div, abs_of_pos hpos, div_lt_iff₀ hpos]
    linarith
  rw [toDouble, hround, hx]

theorem log_le_of_double {x : ℚ} (hpos : 0 < x) (hx : toDouble x = x) :
    ulpExponent x ≤ Int.log 2 x := by
  have hexp : ulpExponent x = max (Int.log 2 x - 52) (-1074) := by rw [ulpExponent, abs_of_pos hpos]
  have hstep := two_zpow_pos (ulpExponent x)
  -- a positive double is at least the last significand bit
  have hgrid : x = roundHalfEven (x / 2 ^ ulpExponent x) * 2 ^ ulpExponent x := hx.symm
  have hm : 0 < roundHalfEven (x / 2 ^ ulpExponent x) := by
    rw [hgrid, mul_pos_iff_of_pos_right hstep] at hpos
    exact_mod_cast hpos
  have hle : ((2 : ℕ) : ℚ) ^ ulpExponent x ≤ x := by
    have hone : (1 : ℚ) ≤ roundHalfEven (x / 2 ^ ulpExponent x) := by exact_mod_cast hm
    push_cast
    calc
      (2 : ℚ) ^ ulpExponent x = 1 * 2 ^ ulpExponent x := (one_mul _).symm
      _ ≤ roundHalfEven (x / 2 ^ ulpExponent x) * 2 ^ ulpExponent x := by gcongr
      _ = x := hgrid.symm
  exact (Int.zpow_le_iff_le_log (by norm_num) hpos).mp hle

theorem near_of_le {x y : ℚ} {v : ℤ} (hx : x ≤ 2 ^ (v + 53)) (h : |y - x| ≤ x / (2 * 10 ^ 16)) :
    |y - x| < 2 ^ v / 2 := by
  have hpos := two_zpow_pos v
  have hsplit : (2 : ℚ) ^ (v + 53) = 2 ^ v * 9007199254740992 := by
    rw [zpow_add₀ two_ne_zero]
    norm_num
  rw [hsplit] at hx
  linarith

/-- A double and the power of two below it, in steps of the grid. -/
theorem exists_grid_binade {x : ℚ} (hpos : 0 < x) (hx : toDouble x = x) :
    ∃ m p : ℤ, x = m * 2 ^ ulpExponent x ∧ 2 ^ Int.log 2 x = p * (2 : ℚ) ^ ulpExponent x ∧
      p ≤ m ∧ m < 2 * p := by
  have hstep := two_zpow_pos (ulpExponent x)
  obtain ⟨p, hp⟩ := exists_zpow_eq_mul_ulp (log_le_of_double hpos hx)
  obtain ⟨m, hm⟩ : ∃ m : ℤ, x = m * 2 ^ ulpExponent x := ⟨_, hx.symm⟩
  have hlow : (2 : ℚ) ^ Int.log 2 x ≤ x := by
    exact_mod_cast Int.zpow_log_le_self (b := 2) (by norm_num) hpos
  have hhigh : x < 2 * 2 ^ Int.log 2 x := by
    have hself := Int.lt_zpow_succ_log_self (b := 2) (by norm_num) x
    rw [zpow_add_one₀ (by norm_num), mul_comm] at hself
    exact_mod_cast hself
  refine ⟨m, p, hm, hp, ?_, ?_⟩
  · have hle : (p : ℚ) ≤ m := by
      apply le_of_mul_le_mul_right _ hstep
      rwa [← hp, ← hm]
    exact_mod_cast hle
  · have hlt : (m : ℚ) < 2 * p := by
      apply lt_of_mul_lt_mul_right _ hstep.le
      rwa [mul_assoc, ← hp, ← hm]
    exact_mod_cast hlt

section

variable {x y : ℚ} (hpos : 0 < x) (hx : toDouble x = x) (h : |y - x| ≤ x / (2 * 10 ^ 16))

include hpos h

theorem near_double : |y - x| < 2 ^ ulpExponent x / 2 := by
  apply near_of_le _ h
  have hhigh : x < 2 ^ (Int.log 2 x + 1) := by
    exact_mod_cast Int.lt_zpow_succ_log_self (b := 2) (by norm_num) x
  have hexp : Int.log 2 x + 1 ≤ ulpExponent x + 53 := by
    rw [ulpExponent, abs_of_pos hpos]
    omega
  exact hhigh.le.trans (zpow_le_zpow_right₀ (by norm_num) hexp)

theorem pos_of_near : 0 < y := by
  have hlow := (abs_le.mp h).1
  linarith

include hx

/-- The last double below a power of two is a step away from it. -/
theorem log_le_of_near : Int.log 2 y ≤ Int.log 2 x := by
  obtain ⟨m, p, hm, hp, -, hlt⟩ := exists_grid_binade hpos hx
  have hy := pos_of_near hpos h
  have hhigh := (abs_lt.mp (near_double hpos h)).2
  have hstep := two_zpow_pos (ulpExponent x)
  have hroom : (m + 1 : ℚ) * 2 ^ ulpExponent x ≤ 2 * 2 ^ Int.log 2 x := by
    have hcast : (m + 1 : ℚ) ≤ 2 * p := by exact_mod_cast hlt
    rw [hp, ← mul_assoc]
    gcongr
  rw [add_one_mul, ← hm] at hroom
  have hbelow : y < ((2 : ℕ) : ℚ) ^ (Int.log 2 x + 1) := by
    rw [zpow_add_one₀ (by norm_num), mul_comm]
    push_cast
    linarith
  have hlog := (Int.lt_zpow_iff_log_lt (by norm_num) hy).mp hbelow
  omega

/-- The numbers next to a double are below its binade only if it is a power of two. -/
theorem eq_zpow_of_near (hlog : Int.log 2 y < Int.log 2 x) : x = 2 ^ Int.log 2 x := by
  obtain ⟨m, p, hm, hp, hle, -⟩ := exists_grid_binade hpos hx
  have hy := pos_of_near hpos h
  have hlow := (abs_lt.mp (near_double hpos h)).1
  have hstep := two_zpow_pos (ulpExponent x)
  have hbelow : y < 2 ^ Int.log 2 x := by
    exact_mod_cast (Int.lt_zpow_iff_log_lt (b := 2) (by norm_num) hy).mpr hlog
  have hlt : (m : ℚ) * 2 ^ ulpExponent x < (p + 1) * 2 ^ ulpExponent x := by
    rw [← hm, add_one_mul, ← hp]
    linarith
  have hcast : (m : ℚ) < p + 1 := lt_of_mul_lt_mul_right hlt hstep.le
  have hlt' : m < p + 1 := by exact_mod_cast hcast
  obtain rfl : m = p := by omega
  exact hm.trans hp.symm

/-- What is this near to a double is read as the double. -/
theorem toDouble_eq_of_near : toDouble y = x := by
  have hy := pos_of_near hpos h
  have hux : ulpExponent x = max (Int.log 2 x - 52) (-1074) := by rw [ulpExponent, abs_of_pos hpos]
  have huy : ulpExponent y = max (Int.log 2 y - 52) (-1074) := by rw [ulpExponent, abs_of_pos hy]
  rcases (log_le_of_near hpos hx h).lt_or_eq with hlt | heq
  · -- just below a power of two the steps are halved
    have hxpow := eq_zpow_of_near hpos hx h hlt
    have hgrid := log_le_of_double hpos hx
    have hlow := (abs_le.mp h).1
    have hhalf : ((2 : ℕ) : ℚ) ^ (Int.log 2 x - 1) ≤ y := by
      rw [zpow_sub_one₀ (by norm_num)]
      push_cast
      rw [← hxpow]
      linarith
    have hlog := (Int.zpow_le_iff_le_log (by norm_num) hy).mp hhalf
    obtain ⟨d, hd⟩ := @exists_zpow_eq_mul_ulp y (Int.log 2 x) (by omega)
    apply toDouble_eq_of_grid (m := d)
    · rw [← hd]
      exact hxpow
    · apply near_of_le _ h
      rw [hxpow]
      exact zpow_le_zpow_right₀ (by norm_num) (by omega)
  · have hexp : ulpExponent y = ulpExponent x := by rw [huy, hux, heq]
    apply toDouble_eq_of_grid (m := roundHalfEven (x / 2 ^ ulpExponent x))
    · rw [hexp]
      exact hx.symm
    · rw [hexp]
      exact near_double hpos h

end

/-! ## The search -/

/-- With seventeen digits one of the two decimals around a number is near to it. -/
theorem exists_near_decimal {x : ℚ} (hpos : 0 < x) :
    ∃ d ∈ decimalsAround x 16, |(d.1 : ℚ) * 10 ^ d.2 - x| ≤ x / (2 * 10 ^ 16) := by
  have hstep : (0 : ℚ) < 10 ^ (Int.log 10 x - 16) := zpow_pos (by norm_num) _
  have hsmall : (10 : ℚ) ^ (Int.log 10 x - 16) ≤ x / 10 ^ 16 := by
    have hlow : ((10 : ℕ) : ℚ) ^ Int.log 10 x ≤ x := Int.zpow_log_le_self (by norm_num) hpos
    rw [zpow_sub₀ (by norm_num), le_div_iff₀ (by positivity)]
    push_cast at hlow
    simpa using hlow
  have hquot : 0 ≤ x / 10 ^ (Int.log 10 x - 16) := by positivity
  have hfloor : (⌊x / 10 ^ (Int.log 10 x - 16)⌋₊ : ℚ) * 10 ^ (Int.log 10 x - 16) ≤ x := by
    rw [← le_div_iff₀ hstep]
    exact Nat.floor_le hquot
  have hceil : x < (⌊x / 10 ^ (Int.log 10 x - 16)⌋₊ + 1) * 10 ^ (Int.log 10 x - 16) := by
    rw [← div_lt_iff₀ hstep]
    exact Nat.lt_floor_add_one _
  have hgap : (⌊x / 10 ^ (Int.log 10 x - 16)⌋₊ + 1) * 10 ^ (Int.log 10 x - 16) - x +
      (x - ⌊x / 10 ^ (Int.log 10 x - 16)⌋₊ * 10 ^ (Int.log 10 x - 16)) =
      (10 : ℚ) ^ (Int.log 10 x - 16) := by
    ring
  rw [decimalsAround, Nat.cast_ofNat]
  split_ifs with hnearer
  · have hle := hnearer.elim le_of_lt fun h => h.1.le
    refine ⟨_, List.mem_cons_self, ?_⟩
    dsimp only
    rw [abs_sub_comm, abs_of_nonneg (sub_nonneg.mpr hfloor)]
    linarith
  · have hle := not_lt.mp (not_or.mp hnearer).1
    refine ⟨_, List.mem_cons_self, ?_⟩
    dsimp only
    push_cast
    rw [abs_of_nonneg (sub_nonneg.mpr hceil.le)]
    linarith

/-- The printed decimal is read back. -/
theorem toDouble_shortestDecimal {x : ℚ} (hpos : 0 < x) (hx : toDouble x = x) :
    toDouble ((shortestDecimal x).1 * 10 ^ (shortestDecimal x).2) = x := by
  obtain ⟨d, hd, hnear⟩ := exists_near_decimal hpos
  have hsome : (((List.range 17).flatMap (decimalsAround x)).find? fun d =>
      toDouble (d.1 * 10 ^ d.2) = x).isSome := by
    rw [List.find?_isSome]
    refine ⟨d, List.mem_flatMap.mpr ⟨16, by simp, hd⟩, ?_⟩
    simpa using toDouble_eq_of_near hpos hx hnear
  obtain ⟨d, hfound⟩ := Option.isSome_iff_exists.mp hsome
  have hread := List.find?_some hfound
  rw [shortestDecimal, hfound]
  simpa using hread

end TTCEvaluation
