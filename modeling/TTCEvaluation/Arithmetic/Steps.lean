import TTCEvaluation.Arithmetic.Rounding

/-!
# One step above a double

From `2 ^ 53` on, the doubles do not contain all integers, and adding one to
the double nearest to an integer need not lead above that integer.
-/

namespace TTCEvaluation

/-- One more than the double of `n`, rounded, is above `n`: the four cases go by the size of `n`,
the last two say how the nearest double lies to `n`. -/
def RoomAbove (n : ℤ) : Prop :=
  |n| < 2 ^ 53 ∨ n = -2 ^ 53 ∨ (|n| < 2 ^ 54 ∧ (n % 4 = 2 ∨ n % 4 = 3)) ∨
    (2 ^ 54 ≤ |n| ∧ (n : ℚ) < toDouble n)

instance (n : ℤ) : Decidable (RoomAbove n) := inferInstanceAs (Decidable (_ ∨ _ ∨ _ ∨ _))

/-! ## The grid around a number -/

theorem ulpExponent_eq {x : ℚ} {k : ℤ} (hk : -1022 ≤ k) (hlow : 2 ^ k ≤ |x|)
    (hhigh : |x| < 2 ^ (k + 1)) : ulpExponent x = k - 52 := by
  have hpos : 0 < |x| := (two_zpow_pos k).trans_le hlow
  have hle : k ≤ Int.log 2 |x| :=
    (Int.zpow_le_iff_le_log (by norm_num) hpos).mp (by exact_mod_cast hlow)
  have hlt : Int.log 2 |x| < k + 1 :=
    (Int.lt_zpow_iff_log_lt (by norm_num) hpos).mp (by exact_mod_cast hhigh)
  unfold ulpExponent
  omega

theorem toDouble_of_dyadic {m : ℤ} {k : ℕ} (hm : |m| < 2 ^ 53) (hk : k ≤ 1000) :
    toDouble (m / 2 ^ k) = m / 2 ^ k := by
  rcases eq_or_ne m 0 with rfl | hne
  · simp
  · apply toDouble_eq_self (m := m) (e := -k)
    · rw [zpow_neg, zpow_natCast, div_eq_mul_inv]
    · have hm' : (|m| : ℚ) < 2 ^ (53 : ℤ) := by exact_mod_cast hm
      have habs : |(m / 2 ^ k : ℚ)| < ((2 : ℕ) : ℚ) ^ (53 - k : ℤ) := by
        rw [abs_div, abs_of_pos (by positivity : (0 : ℚ) < 2 ^ k), Nat.cast_ofNat,
          zpow_sub₀ two_ne_zero, zpow_natCast]
        gcongr
      have hpos : (0 : ℚ) < |(m / 2 ^ k : ℚ)| := by
        rw [abs_pos]
        exact div_ne_zero (by exact_mod_cast hne) (by positivity)
      have hlog := (Int.lt_zpow_iff_log_lt (by norm_num) hpos).mp habs
      unfold ulpExponent
      omega

theorem abs_toDouble_le_zpow {x : ℚ} {k : ℤ} (hx : |x| ≤ 2 ^ k) (hk : ulpExponent x ≤ k) :
    |toDouble x| ≤ 2 ^ k := by
  obtain ⟨hlow, hhigh⟩ := abs_le.mp hx
  have hneg := toDouble_le_zpow (x := -x) (k := k) (by linarith)
    (by rwa [ulpExponent, abs_neg, ← ulpExponent])
  rw [toDouble_neg] at hneg
  exact abs_le.mpr ⟨by linarith, toDouble_le_zpow hhigh hk⟩

/-- Rounding up can reach the next power of two, which is on every grid below it. -/
@[simp] theorem toDouble_toDouble (x : ℚ) : toDouble (toDouble x) = toDouble x := by
  rcases eq_or_ne x 0 with rfl | hx
  · simp
  · have hbound : |toDouble x| ≤ 2 ^ (ulpExponent x + 53) := by
      apply abs_toDouble_le_zpow _ (by omega)
      have hlt := Int.lt_zpow_succ_log_self (b := 2) (by norm_num) |x|
      have hexp : Int.log 2 |x| + 1 ≤ ulpExponent x + 53 := by
        unfold ulpExponent
        omega
      calc
        |x| ≤ 2 ^ (Int.log 2 |x| + 1) := by exact_mod_cast hlt.le
        _ ≤ 2 ^ (ulpExponent x + 53) := zpow_le_zpow_right₀ (by norm_num) hexp
    rcases hbound.lt_or_eq with hlt | heq
    · rcases eq_or_ne (toDouble x) 0 with hzero | hne
      · rw [hzero, toDouble_zero]
      · refine toDouble_eq_self (x := toDouble x) (m := roundHalfEven (x / 2 ^ ulpExponent x))
          (e := ulpExponent x) rfl ?_
        have hlog := (Int.lt_zpow_iff_log_lt (b := 2) (by norm_num) (abs_pos.mpr hne)).mp
          (by exact_mod_cast hlt)
        have hmin : -1074 ≤ ulpExponent x := le_max_right _ _
        rw [ulpExponent]
        omega
    · have hexp : ulpExponent (toDouble x) ≤ ulpExponent x + 53 := by
        have hmin : -1074 ≤ ulpExponent x := le_max_right _ _
        rw [ulpExponent, heq]
        have hlog := Int.log_zpow (R := ℚ) (b := 2) (by norm_num) (ulpExponent x + 53)
        push_cast at hlog
        omega
      rcases abs_cases (toDouble x) with ⟨habs, -⟩ | ⟨habs, -⟩
      · refine toDouble_eq_self (m := 1) (e := ulpExponent x + 53) ?_ hexp
        rw [Int.cast_one, one_mul, ← heq, habs]
      · refine toDouble_eq_self (m := -1) (e := ulpExponent x + 53) ?_ hexp
        rw [Int.cast_neg, Int.cast_one, neg_one_mul, ← heq, habs, neg_neg]

theorem roundHalfEven_add {k : ℤ} {d : ℚ} (hd : 0 ≤ d) (h : d < 1 / 2) :
    roundHalfEven (k + d) = k := by
  have hfloor : ⌊(k : ℚ) + d⌋ = k := by
    rw [Int.floor_intCast_add, Int.floor_eq_zero_iff.mpr ⟨hd, by linarith⟩, add_zero]
  unfold roundHalfEven
  rw [hfloor, if_pos (by linarith)]

theorem roundHalfEven_add_half (k : ℤ) :
    roundHalfEven (k + 1 / 2) = if Even k then k else k + 1 := by
  have hfloor : ⌊(k : ℚ) + 1 / 2⌋ = k := by
    rw [Int.floor_intCast_add, Int.floor_eq_zero_iff.mpr ⟨by norm_num, by norm_num⟩, add_zero]
  unfold roundHalfEven
  rw [hfloor, if_neg (by linarith), if_neg (by linarith)]

/-- A number that is not too large is read as a finite double. -/
theorem readDouble_of_small {x : ℚ} {k : ℕ} (hk : k < 1024) (h : |x| ≤ 2 ^ k) :
    readDouble x = ((toDouble x : WithTop ℚ) : WithBot (WithTop ℚ)) := by
  have hexp : ulpExponent x ≤ k := by
    rcases eq_or_ne x 0 with rfl | hx
    · simp only [ulpExponent, abs_zero, Int.log_zero_right]
      omega
    · have hlt : |x| < ((2 : ℕ) : ℚ) ^ ((k + 1 : ℕ) : ℤ) := by
        rw [zpow_natCast]
        exact_mod_cast h.trans_lt (pow_lt_pow_right₀ (by norm_num) (Nat.lt_succ_self k))
      have hlog := (Int.lt_zpow_iff_log_lt (b := 2) (by norm_num) (abs_pos.mpr hx)).mp hlt
      unfold ulpExponent
      omega
  have hbound : |toDouble x| ≤ 2 ^ (k : ℤ) := abs_toDouble_le_zpow (by rwa [zpow_natCast]) hexp
  have hpow : (2 : ℚ) ^ (k : ℤ) < 2 ^ 1024 := by
    rw [zpow_natCast]
    exact pow_lt_pow_right₀ (by norm_num) hk
  obtain ⟨hlow, hhigh⟩ := abs_lt.mp (hbound.trans_lt hpow)
  rw [readDouble, if_neg (not_le.mpr hhigh), if_neg (not_le.mpr hlow)]

/-! ## Integers as doubles -/

theorem toDouble_intCast_of_le {n : ℤ} (hn : |n| ≤ 2 ^ 53) : toDouble n = n := by
  rcases hn.lt_or_eq with hlt | heq
  · exact toDouble_intCast hlt
  · have habs : |(n : ℚ)| = 2 ^ (53 : ℤ) := by exact_mod_cast heq
    have hexp : ulpExponent (n : ℚ) = 53 - 52 :=
      ulpExponent_eq (by norm_num) habs.ge (by rw [habs]; norm_num)
    rcases abs_cases n with ⟨h, -⟩ | ⟨h, -⟩
    · refine toDouble_eq_self (m := 1) (e := 53) ?_ (by omega)
      have hn : n = 2 ^ 53 := by omega
      rw [hn]
      norm_num
    · refine toDouble_eq_self (m := -1) (e := 53) ?_ (by omega)
      have hn : n = -2 ^ 53 := by omega
      rw [hn]
      norm_num

/-- Between `2 ^ 53` and `2 ^ 54` the doubles are the even integers, and ties go to multiples of
four. -/
theorem toDouble_intCast_mod {n : ℤ} (hlow : 2 ^ 53 ≤ |n|) (hhigh : |n| < 2 ^ 54) :
    toDouble n = ((4 * (n / 4) +
      if n % 4 ≤ 1 then 0 else if n % 4 = 2 then 2 else 4 : ℤ) : ℚ) := by
  have hexp : ulpExponent (n : ℚ) = 53 - 52 :=
    ulpExponent_eq (by norm_num) (by exact_mod_cast hlow) (by exact_mod_cast hhigh)
  have hdiv : (n : ℚ) = 4 * (n / 4 : ℤ) + (n % 4 : ℤ) := by
    exact_mod_cast (Int.mul_ediv_add_emod n 4).symm
  have hgrid : (n : ℚ) / 2 = ((2 * (n / 4) : ℤ) : ℚ) + (n % 4 : ℤ) / 2 := by
    rw [hdiv]
    push_cast
    ring
  have heven : Even (2 * (n / 4)) := even_two_mul _
  have hround : roundHalfEven ((n : ℚ) / 2) =
      2 * (n / 4) + if n % 4 ≤ 1 then 0 else if n % 4 = 2 then 1 else 2 := by
    rw [hgrid]
    have hcases : n % 4 = 0 ∨ n % 4 = 1 ∨ n % 4 = 2 ∨ n % 4 = 3 := by omega
    rcases hcases with h | h | h | h <;> rw [h]
    · have hint := roundHalfEven_intCast (2 * (n / 4))
      push_cast at hint
      simpa using hint
    · simpa using roundHalfEven_add_half (2 * (n / 4))
    · have hint := roundHalfEven_intCast (2 * (n / 4) + 1)
      push_cast at hint
      simpa using hint
    · have hodd : ¬Even (2 * (n / 4) + 1) := by simp
      have hhalf := roundHalfEven_add_half (2 * (n / 4) + 1)
      rw [if_neg hodd] at hhalf
      have hsplit : ((2 * (n / 4) : ℤ) : ℚ) + (3 : ℤ) / 2 =
          ((2 * (n / 4) + 1 : ℤ) : ℚ) + 1 / 2 := by
        push_cast
        ring
      rw [hsplit, hhalf]
      norm_num
      ring
  have htwo : (2 : ℚ) ^ ulpExponent (n : ℚ) = 2 := by rw [hexp]; norm_num
  rw [toDouble, htwo, hround]
  split_ifs <;> push_cast <;> ring

theorem toDouble_add_one_eq {y : ℚ} {m : ℤ} {e : ℕ} (hy : y = m * 2 ^ e)
    (hexp : ulpExponent (y + 1) = e) (he : 2 ≤ e ∨ (e = 1 ∧ Even m)) : toDouble (y + 1) = y := by
  have hpow : (2 : ℚ) ^ ulpExponent (y + 1) = 2 ^ e := by rw [hexp, zpow_natCast]
  have hpos : (0 : ℚ) < 2 ^ e := by positivity
  have hgrid : (y + 1) / 2 ^ e = m + 1 / 2 ^ e := by
    rw [hy]
    field_simp
  have hround : roundHalfEven ((y + 1) / 2 ^ e) = m := by
    rw [hgrid]
    rcases he with he | ⟨rfl, heven⟩
    · apply roundHalfEven_add (by positivity)
      have hfour : (2 : ℚ) ^ 2 ≤ 2 ^ e := pow_le_pow_right₀ (by norm_num) he
      rw [div_lt_div_iff₀ hpos (by norm_num)]
      linarith
    · have hhalf := roundHalfEven_add_half m
      rw [if_pos heven] at hhalf
      simpa using hhalf
  rw [toDouble, hpow, hround, hy]

theorem ulpExponent_of_binade {x : ℚ} {c j : ℕ} (hlow : 2 ^ c * 2 ^ j ≤ |x|)
    (hhigh : |x| < 2 ^ (c + 1) * 2 ^ j) : ulpExponent x = (c + j : ℕ) - 52 := by
  apply ulpExponent_eq
  · omega
  · rw [zpow_natCast, pow_add]
    exact hlow
  · have hexp : ((c + j : ℕ) : ℤ) + 1 = (c + 1 + j : ℕ) := by
      push_cast
      ring
    rw [hexp, zpow_natCast, pow_add]
    exact hhigh

/-- From `2 ^ 54` on, a double is a multiple of four in its binade. -/
theorem exists_binade {y : ℚ} (hy : toDouble y = y) (hlarge : 2 ^ 54 ≤ |y|) :
    ∃ (m : ℤ) (j : ℕ), y = m * 2 ^ (j + 2) ∧ 2 ^ 52 ≤ |m| ∧ |m| < 2 ^ 53 := by
  have hpos : 0 < |y| := lt_of_lt_of_le (by norm_num) hlarge
  have hlog : 54 ≤ Int.log 2 |y| :=
    (Int.zpow_le_iff_le_log (by norm_num) hpos).mp (by exact_mod_cast hlarge)
  obtain ⟨j, hj⟩ := Int.eq_ofNat_of_zero_le (sub_nonneg.mpr hlog)
  have hlogeq : Int.log 2 |y| = (52 + (j + 2) : ℕ) := by omega
  have hexp : ulpExponent y = (j + 2 : ℕ) := by
    rw [ulpExponent, hlogeq]
    push_cast
    omega
  have hm : y = roundHalfEven (y / 2 ^ (j + 2)) * 2 ^ (j + 2) := by
    rw [toDouble, hexp, zpow_natCast] at hy
    exact hy.symm
  generalize roundHalfEven (y / 2 ^ (j + 2)) = m at hm
  have hscale : (0 : ℚ) < 2 ^ (j + 2) := by positivity
  have habs : |y| = (|m| : ℤ) * 2 ^ (j + 2) := by
    rw [hm, abs_mul, abs_of_pos hscale, Int.cast_abs]
  refine ⟨m, j, hm, ?_, ?_⟩
  · have hlow := Int.zpow_log_le_self (b := 2) (by norm_num) hpos
    rw [hlogeq, zpow_natCast, pow_add, habs] at hlow
    exact_mod_cast le_of_mul_le_mul_right hlow (by exact_mod_cast hscale)
  · have hhigh := Int.lt_zpow_succ_log_self (b := 2) (by norm_num) |y|
    have hsucc : ((52 + (j + 2) : ℕ) : ℤ) + 1 = (53 + (j + 2) : ℕ) := by
      push_cast
      ring
    rw [hlogeq, hsucc, zpow_natCast, pow_add, habs] at hhigh
    exact_mod_cast lt_of_mul_lt_mul_right hhigh (by exact_mod_cast hscale.le)

/-- One more than the least double of a binade lies on the finer grid below, a tie at most. -/
theorem toDouble_least_add_one (j : ℕ) :
    toDouble (-(2 ^ 54 * 2 ^ j) + 1) = -(2 ^ 54 * 2 ^ j) := by
  have hone : (1 : ℚ) ≤ 2 ^ j := one_le_pow₀ (by norm_num)
  have hgrid : -(2 ^ 54 * 2 ^ j : ℚ) = ((-2 ^ 53 : ℤ) : ℚ) * 2 ^ (j + 1) := by
    push_cast
    ring
  have habs : |(-(2 ^ 54 * 2 ^ j) + 1 : ℚ)| = 2 ^ 54 * 2 ^ j - 1 := by
    rw [abs_of_nonpos (by linarith)]
    ring
  apply toDouble_add_one_eq hgrid
  · rw [ulpExponent_of_binade (c := 53) (j := j)]
    · push_cast
      ring
    · rw [habs]
      linarith
    · change |(-(2 ^ 54 * 2 ^ j) + 1 : ℚ)| < 2 ^ 54 * 2 ^ j
      rw [habs]
      linarith
  · rcases Nat.eq_zero_or_pos j with rfl | hj
    · exact Or.inr ⟨rfl, by decide⟩
    · exact Or.inl (by omega)

/-- From `2 ^ 54` on, adding one to a double is lost. -/
theorem toDouble_add_one_of_large {y : ℚ} (hy : toDouble y = y) (hlarge : 2 ^ 54 ≤ |y|) :
    toDouble (y + 1) = y := by
  obtain ⟨m, j, hm, hlow, hhigh⟩ := exists_binade hy hlarge
  have hone : (1 : ℚ) ≤ 2 ^ j := one_le_pow₀ (by norm_num)
  have hm' : y = 4 * (m * 2 ^ j) := by
    rw [hm]
    ring
  have hscale {a b : ℤ} (h : a ≤ b) : (a : ℚ) * 2 ^ j ≤ b * 2 ^ j :=
    mul_le_mul_of_nonneg_right (by exact_mod_cast h) (by positivity)
  have hsame (h₁ : 2 ^ 54 * 2 ^ j ≤ |y + 1|) (h₂ : |y + 1| < 2 ^ 55 * 2 ^ j) :
      toDouble (y + 1) = y := by
    apply toDouble_add_one_eq hm _ (Or.inl (by omega))
    rw [ulpExponent_of_binade h₁ h₂]
    push_cast
    ring
  rcases le_or_gt 0 m with hsign | hsign
  · -- a positive double: the next double is at least four away
    rw [abs_of_nonneg hsign] at hlow hhigh
    have hbelow := hscale hlow
    have habove := hscale (show m ≤ 2 ^ 53 - 1 by omega)
    push_cast at hbelow habove
    have habs : |y + 1| = y + 1 := abs_of_nonneg (by linarith)
    apply hsame <;> rw [habs] <;> linarith
  · rw [abs_of_neg hsign] at hlow hhigh
    have hbelow := hscale (show -2 ^ 53 + 1 ≤ m by omega)
    push_cast at hbelow
    by_cases hleast : m = -2 ^ 52
    · have hval : y = -(2 ^ 54 * 2 ^ j) := by
        rw [hm', hleast]
        push_cast
        ring
      rw [hval]
      exact toDouble_least_add_one j
    · have habove := hscale (show m ≤ -2 ^ 52 - 1 by omega)
      push_cast at habove
      have habs : |y + 1| = -(y + 1) := abs_of_nonpos (by linarith)
      apply hsame <;> rw [habs] <;> linarith

/-! ## Room above -/

theorem toDouble_step_of_mod {n k : ℤ} (hlow : 2 ^ 53 ≤ |k + 1|) (hhigh : |k + 1| < 2 ^ 54)
    (hn : toDouble n = k) :
    toDouble (toDouble n + 1) = ((4 * ((k + 1) / 4) +
      if (k + 1) % 4 ≤ 1 then 0 else if (k + 1) % 4 = 2 then 2 else 4 : ℤ) : ℚ) := by
  have hstep := toDouble_intCast_mod hlow hhigh
  rw [hn]
  exact_mod_cast hstep

/-- A double above `n` stays above it. -/
theorem lt_step_of_lt {n : ℤ} (h : (n : ℚ) < toDouble n) :
    (n : ℚ) < toDouble (toDouble n + 1) := by
  calc
    (n : ℚ) < toDouble n := h
    _ = toDouble (toDouble n) := (toDouble_toDouble _).symm
    _ ≤ toDouble (toDouble n + 1) := toDouble_mono (by linarith)

/-- Between `2 ^ 53` and `2 ^ 54` the residue modulo four decides. -/
theorem lt_step_iff_of_middle {n : ℤ} (hlow : 2 ^ 53 ≤ |n|) (hhigh : |n| < 2 ^ 54)
    (hne : n ≠ -2 ^ 53) :
    (n : ℚ) < toDouble (toDouble n + 1) ↔ n % 4 = 2 ∨ n % 4 = 3 := by
  have hn := toDouble_intCast_mod hlow hhigh
  rw [le_abs] at hlow
  rw [abs_lt] at hhigh
  have hcases : n % 4 = 0 ∨ n % 4 = 1 ∨ n % 4 = 2 ∨ n % 4 = 3 := by omega
  rcases hcases with h | h | h | h
  · have hdouble : toDouble n = ((4 * (n / 4) : ℤ) : ℚ) := by simpa [h] using hn
    rw [toDouble_step_of_mod (le_abs.mpr (by omega)) (abs_lt.mpr (by omega)) hdouble, Int.cast_lt]
    split_ifs <;> omega
  · have hdouble : toDouble n = ((4 * (n / 4) : ℤ) : ℚ) := by simpa [h] using hn
    rw [toDouble_step_of_mod (le_abs.mpr (by omega)) (abs_lt.mpr (by omega)) hdouble, Int.cast_lt]
    split_ifs <;> omega
  · have hdouble : toDouble n = ((4 * (n / 4) + 2 : ℤ) : ℚ) := by simpa [h] using hn
    rw [toDouble_step_of_mod (le_abs.mpr (by omega)) (abs_lt.mpr (by omega)) hdouble, Int.cast_lt]
    split_ifs <;> omega
  · have hdouble : toDouble n = ((4 * (n / 4) + 4 : ℤ) : ℚ) := by simpa [h] using hn
    refine iff_of_true (lt_step_of_lt ?_) (Or.inr h)
    rw [hdouble, Int.cast_lt]
    omega

theorem le_abs_toDouble {n : ℤ} (h : 2 ^ 54 ≤ |n|) : (2 : ℚ) ^ 54 ≤ |toDouble n| := by
  have hpow : toDouble ((2 : ℚ) ^ 54) = 2 ^ 54 := by
    have hexp : ulpExponent ((2 : ℚ) ^ 54) = 54 - 52 :=
      ulpExponent_eq (by norm_num) (by norm_num) (by norm_num)
    exact toDouble_eq_self (m := 1) (e := 54) (by norm_num) (by omega)
  rcases abs_cases n with ⟨habs, -⟩ | ⟨habs, -⟩
  · have hcast : (2 : ℚ) ^ 54 ≤ n := by exact_mod_cast habs ▸ h
    have hmono := toDouble_mono hcast
    rw [hpow] at hmono
    exact hmono.trans (le_abs_self _)
  · have hcast : (2 : ℚ) ^ 54 ≤ -(n : ℚ) := by exact_mod_cast habs ▸ h
    have hmono := toDouble_mono hcast
    rw [hpow, toDouble_neg] at hmono
    exact hmono.trans (neg_le_abs _)

theorem lt_step_of_small {n : ℤ} (h : |n| < 2 ^ 53 ∨ n = -2 ^ 53) :
    (n : ℚ) < toDouble (toDouble n + 1) := by
  rw [abs_lt] at h
  have hn : toDouble n = n := toDouble_intCast_of_le (abs_le.mpr (by omega))
  have hstep : toDouble ((n + 1 : ℤ) : ℚ) = ((n + 1 : ℤ) : ℚ) :=
    toDouble_intCast_of_le (abs_le.mpr (by omega))
  push_cast at hstep
  rw [hn, hstep]
  linarith

theorem lt_toDouble_step_iff (n : ℤ) : (n : ℚ) < toDouble (toDouble n + 1) ↔ RoomAbove n := by
  by_cases hsmall : |n| < 2 ^ 53 ∨ n = -2 ^ 53
  · apply iff_of_true (lt_step_of_small hsmall)
    unfold RoomAbove
    tauto
  · rw [not_or] at hsmall
    rcases lt_or_ge |n| (2 ^ 54) with hmiddle | hlarge
    · rw [lt_step_iff_of_middle (by omega) hmiddle hsmall.2]
      unfold RoomAbove
      omega
    · rw [toDouble_add_one_of_large (toDouble_toDouble _) (le_abs_toDouble hlarge)]
      have hmiddle := not_lt.mpr hlarge
      unfold RoomAbove
      tauto

/-- The step down mirrors the step up. -/
theorem toDouble_step_lt_iff (n : ℤ) : toDouble (toDouble n - 1) < n ↔ RoomAbove (-n) := by
  rw [← lt_toDouble_step_iff]
  have hneg : toDouble (toDouble (-n : ℤ) + 1) = -toDouble (toDouble n - 1) := by
    rw [← toDouble_neg]
    congr 1
    push_cast
    rw [toDouble_neg]
    ring
  rw [hneg]
  push_cast
  exact neg_lt_neg_iff.symm

/-- The double of an integer is an integer. -/
theorem exists_intCast_eq_toDouble (n : ℤ) : ∃ k : ℤ, toDouble n = k := by
  rcases le_or_gt |n| (2 ^ 53) with hsmall | hlarge
  · exact ⟨n, toDouble_intCast_of_le hsmall⟩
  · have hpos : (0 : ℚ) < |(n : ℚ)| := by
      have hcast : (2 : ℚ) ^ 53 < |(n : ℚ)| := by exact_mod_cast hlarge
      linarith
    have hlog : 53 ≤ Int.log 2 |(n : ℚ)| :=
      (Int.zpow_le_iff_le_log (by norm_num) hpos).mp (by exact_mod_cast hlarge.le)
    obtain ⟨e, he⟩ := Int.eq_ofNat_of_zero_le
      (show 0 ≤ ulpExponent (n : ℚ) by unfold ulpExponent; omega)
    refine ⟨roundHalfEven (n / 2 ^ ulpExponent (n : ℚ)) * 2 ^ e, ?_⟩
    rw [toDouble]
    push_cast
    rw [← zpow_natCast, ← he]

end TTCEvaluation
