import TTCEvaluation.Annotation.ReadBack

/-!
# The values outside, with decimals

A boundary that is not an integer is left by a tenth instead of one.  Read back
as doubles, the values written outside are beyond all constants as long as the
step is not lost in the rounding, which for a tenth is from `2 ^ 50` on.
-/

namespace TTCEvaluation

/-- The proposed value above a boundary read as this number is read as a larger one. -/
def StepAbove : WithBot (WithTop ℚ) → Prop
  | some (some x) => if x.isInt then RoomAbove ⌊x⌋ else |x| < 2 ^ 50
  | _ => False

/-- The proposed value below a boundary read as this number is read as a smaller one. -/
def StepBelow : WithBot (WithTop ℚ) → Prop
  | some (some x) => if x.isInt then RoomAbove (-⌊x⌋) else |x| < 2 ^ 50
  | _ => False

/-! ## A tenth -/

/-- The double nearest to a tenth. -/
def tenth : ℚ := toDouble (1 / 10)

theorem tenth_bounds : 3 / 32 ≤ tenth ∧ tenth ≤ 7 / 64 := by
  have hlow := toDouble_of_dyadic (m := 3) (k := 5) (by norm_num) (by norm_num)
  have hhigh := toDouble_of_dyadic (m := 7) (k := 6) (by norm_num) (by norm_num)
  norm_num at hlow hhigh
  constructor
  · rw [← hlow]
    exact toDouble_mono (by norm_num)
  · rw [← hhigh]
    exact toDouble_mono (by norm_num)

theorem abs_toDouble_sub_le (x : ℚ) : |toDouble x - x| ≤ 2 ^ ulpExponent x / 2 := by
  have hpos := two_zpow_pos (ulpExponent x)
  have hscaled : toDouble x - x =
      (roundHalfEven (x / 2 ^ ulpExponent x) - x / 2 ^ ulpExponent x) * 2 ^ ulpExponent x := by
    rw [toDouble, sub_mul, div_mul_cancel₀ _ hpos.ne']
  rw [hscaled, abs_mul, abs_of_pos hpos]
  have hround := mul_le_mul_of_nonneg_right
    (abs_roundHalfEven_sub_le (x / 2 ^ ulpExponent x)) hpos.le
  linarith

theorem ulpExponent_le {y : ℚ} {k : ℕ} (hk : 0 < k) (h : |y| < 2 ^ k) :
    ulpExponent y ≤ max (k - 53 : ℤ) (-1074) := by
  rcases eq_or_ne y 0 with rfl | hne
  · simp [ulpExponent]
    omega
  · have hpow : |y| < ((2 : ℕ) : ℚ) ^ (k : ℤ) := by exact_mod_cast h
    have hlog := (Int.lt_zpow_iff_log_lt (by norm_num) (abs_pos.mpr hne)).mp hpow
    unfold ulpExponent
    omega

theorem lt_toDouble_add_tenth {x : ℚ} (h : |x| < 2 ^ 50) : x < toDouble (x + tenth) := by
  obtain ⟨hlow, hhigh⟩ := tenth_bounds
  rcases lt_or_ge |x + tenth| (2 ^ 50) with hsmall | hlarge
  · have hulp : (2 : ℚ) ^ ulpExponent (x + tenth) ≤ 2 ^ (-3 : ℤ) :=
      zpow_le_zpow_right₀ (by norm_num) (ulpExponent_le (by norm_num) hsmall)
    have herror := (abs_le.mp (abs_toDouble_sub_le (x + tenth))).1
    norm_num at hulp
    linarith
  · -- the sum is beyond a power of two, and so is what it is rounded to
    obtain ⟨hxlow, hxhigh⟩ := abs_lt.mp h
    have hbeyond : 2 ^ 50 ≤ x + tenth := by
      rcases le_abs.mp hlarge with hle | hle
      · exact hle
      · linarith
    have hpow : toDouble (2 ^ 50) = 2 ^ 50 := by
      have hdyadic := toDouble_of_dyadic (m := 2 ^ 50) (k := 0) (by norm_num) (by norm_num)
      norm_num at hdyadic ⊢
      exact hdyadic
    calc
      x < 2 ^ 50 := hxhigh
      _ = toDouble (2 ^ 50) := hpow.symm
      _ ≤ toDouble (x + tenth) := toDouble_mono hbeyond

theorem ne_intCast_of_isInt {x : ℚ} (hint : x.isInt = false) (n : ℤ) : x ≠ n := by
  rintro rfl
  simp [Rat.isInt] at hint

/-- From `2 ^ 50` on, a double that is not an integer is a multiple of a half or of a quarter, and
not at the ends of its binade. -/
theorem fraction_binade {x : ℚ} (hx : toDouble x = x) (hint : x.isInt = false)
    (hlarge : 2 ^ 50 ≤ |x|) :
    ∃ (m : ℤ) (j : ℕ), (j = 1 ∨ j = 2) ∧ x = m / 2 ^ j ∧ 2 ^ 52 < |m| ∧ |m| < 2 ^ 53 := by
  have hpos : 0 < |x| := by linarith
  have hlog : 50 ≤ Int.log 2 |x| :=
    (Int.zpow_le_iff_le_log (by norm_num) hpos).mp (by exact_mod_cast hlarge)
  have hexp : ulpExponent x = Int.log 2 |x| - 52 := by
    unfold ulpExponent
    omega
  obtain ⟨m, hgrid⟩ : ∃ m : ℤ, x = m * 2 ^ ulpExponent x := ⟨_, hx.symm⟩
  have hneg : ulpExponent x < 0 := by
    by_contra hge
    obtain ⟨e, he⟩ := Int.eq_ofNat_of_zero_le (not_lt.mp hge)
    apply ne_intCast_of_isInt hint (m * 2 ^ e)
    push_cast
    rw [← zpow_natCast, ← he, ← hgrid]
  obtain ⟨j, hj⟩ := Int.eq_ofNat_of_zero_le (show 0 ≤ -ulpExponent x by omega)
  have hj' : ulpExponent x = -(j : ℤ) := by omega
  have hpow : (0 : ℚ) < 2 ^ j := by positivity
  have hm : x = m / 2 ^ j := by
    rw [div_eq_mul_inv, ← zpow_natCast, ← zpow_neg, ← hj']
    exact hgrid
  have habs : |x| = |(m : ℚ)| / 2 ^ j := by rw [hm, abs_div, abs_of_pos hpow]
  have hbinade : (2 : ℚ) ^ Int.log 2 |x| = 2 ^ 52 / 2 ^ j := by
    rw [show Int.log 2 |x| = 52 - j by omega, zpow_sub₀ two_ne_zero, zpow_natCast]
    norm_num
  have hlow : (2 : ℚ) ^ Int.log 2 |x| ≤ |x| := by
    exact_mod_cast Int.zpow_log_le_self (b := 2) (by norm_num) hpos
  have hhigh : |x| < 2 ^ Int.log 2 |x| * 2 := by
    have hself := Int.lt_zpow_succ_log_self (b := 2) (by norm_num) |x|
    rw [zpow_add_one₀ (by norm_num)] at hself
    exact_mod_cast hself
  rw [hbinade, habs, div_le_div_iff_of_pos_right hpow] at hlow
  rw [hbinade, habs, div_mul_eq_mul_div, div_lt_div_iff_of_pos_right hpow] at hhigh
  have hj'' : j = 1 ∨ j = 2 := by omega
  refine ⟨m, j, hj'', hm, ?_, ?_⟩
  · apply lt_of_le_of_ne (by exact_mod_cast hlow)
    -- the end of the binade is an integer
    intro hend
    have hdvd : (2 ^ j : ℤ) ∣ m := by
      rw [← dvd_abs, ← hend]
      exact pow_dvd_pow 2 (by omega)
    obtain ⟨n, rfl⟩ := hdvd
    apply ne_intCast_of_isInt hint n
    rw [hm]
    push_cast
    field_simp
  · have hlt : |(m : ℚ)| < 2 ^ 53 := by linarith
    exact_mod_cast hlt

/-- From `2 ^ 50` on, a tenth is lost. -/
theorem toDouble_add_tenth {x : ℚ} (hx : toDouble x = x) (hint : x.isInt = false)
    (hlarge : 2 ^ 50 ≤ |x|) : toDouble (x + tenth) = x := by
  obtain ⟨hlow, hhigh⟩ := tenth_bounds
  obtain ⟨m, j, hj, hm, hmlow, hmhigh⟩ := fraction_binade hx hint hlarge
  have hpow : (0 : ℚ) < 2 ^ j := by positivity
  have hstep : tenth < 1 / 2 ^ j / 2 := by
    rcases hj with rfl | rfl <;> norm_num <;> linarith
  have habs : |x| = |(m : ℚ)| / 2 ^ j := by rw [hm, abs_div, abs_of_pos hpow]
  have hxlow : 2 ^ 52 / 2 ^ j + 1 / 2 ^ j ≤ |x| := by
    rw [habs, ← add_div]
    gcongr
    exact_mod_cast hmlow
  have hxhigh : |x| + 1 / 2 ^ j ≤ 2 ^ 53 / 2 ^ j := by
    rw [habs, ← add_div]
    gcongr
    exact_mod_cast hmhigh
  have hsumLow : |x| ≤ |x + tenth| + tenth := by
    have htriangle := abs_sub (x + tenth) tenth
    rwa [add_sub_cancel_right, abs_of_nonneg (by linarith : 0 ≤ tenth)] at htriangle
  have hsumHigh : |x + tenth| ≤ |x| + tenth := by
    have htriangle := abs_add_le x tenth
    rwa [abs_of_nonneg (by linarith : 0 ≤ tenth)] at htriangle
  have hexp : ulpExponent (x + tenth) = (52 - j : ℤ) - 52 := by
    apply ulpExponent_eq (by omega)
    · rw [zpow_sub₀ two_ne_zero, zpow_natCast]
      norm_num at hxlow hstep ⊢
      linarith
    · rw [show (52 - j + 1 : ℤ) = 53 - j by ring, zpow_sub₀ two_ne_zero, zpow_natCast]
      norm_num at hxhigh hstep ⊢
      linarith
  have hgrid : (2 : ℚ) ^ ulpExponent (x + tenth) = 1 / 2 ^ j := by
    rw [hexp, show (52 - j - 52 : ℤ) = -j by ring, zpow_neg, zpow_natCast, one_div]
  apply toDouble_eq_of_grid (m := m)
  · rw [hgrid, mul_one_div]
    exact hm
  · rw [hgrid, add_sub_cancel_left, abs_of_nonneg (by linarith)]
    exact hstep

theorem lt_toDouble_add_tenth_iff {x : ℚ} (hx : toDouble x = x) (hint : x.isInt = false) :
    x < toDouble (x + tenth) ↔ |x| < 2 ^ 50 := by
  refine ⟨fun h => ?_, lt_toDouble_add_tenth⟩
  by_contra hlarge
  rw [toDouble_add_tenth hx hint (not_lt.mp hlarge)] at h
  exact lt_irrefl x h

theorem abs_lt_of_fraction {x : ℚ} (hx : toDouble x = x) (hint : x.isInt = false) :
    |x| < 2 ^ 52 := by
  rcases lt_or_ge |x| (2 ^ 50) with hsmall | hlarge
  · linarith
  · obtain ⟨m, j, hj, hm, -, hmhigh⟩ := fraction_binade hx hint hlarge
    have hpow : (0 : ℚ) < 2 ^ j := by positivity
    have hcast : |(m : ℚ)| < 2 ^ 53 := by exact_mod_cast hmhigh
    rw [hm, abs_div, abs_of_pos hpow, div_lt_iff₀ hpow]
    rcases hj with rfl | rfl <;> linarith

/-! ## The steps -/

/-- How far from a boundary the value outside is. -/
def outsideStep (x : ℚ) : ℚ := if x.isInt then 1 else tenth

theorem outsideStep_neg (x : ℚ) : outsideStep (-x) = outsideStep x := by
  unfold outsideStep
  congr 1

theorem exists_intCast_of_isInt {x : ℚ} (hint : x.isInt = true) : ∃ n : ℤ, x = n := by
  refine ⟨x.num, ?_⟩
  rw [Rat.isInt, beq_iff_eq] at hint
  exact (Rat.den_eq_one_iff x).mp hint |>.symm

theorem lt_toDouble_add_step_iff {x : ℚ} (hx : toDouble x = x) :
    x < toDouble (x + outsideStep x) ↔ if x.isInt then RoomAbove ⌊x⌋ else |x| < 2 ^ 50 := by
  unfold outsideStep
  by_cases hint : x.isInt
  · obtain ⟨n, rfl⟩ := exists_intCast_of_isInt hint
    have hroom := lt_toDouble_step_iff n
    rw [hx] at hroom
    rw [if_pos hint, if_pos hint, Int.floor_intCast]
    exact hroom
  · rw [if_neg hint, if_neg hint]
    exact lt_toDouble_add_tenth_iff hx (by simpa using hint)

/-- The step down mirrors the step up. -/
theorem toDouble_sub_step_lt_iff {x : ℚ} (hx : toDouble x = x) :
    toDouble (x - outsideStep x) < x ↔ if x.isInt then RoomAbove (-⌊x⌋) else |x| < 2 ^ 50 := by
  have hneg : toDouble (-x) = -x := by rw [toDouble_neg, hx]
  have hmirror : toDouble (-x + outsideStep (-x)) = -toDouble (x - outsideStep x) := by
    rw [outsideStep_neg, ← toDouble_neg]
    congr 1
    ring
  have hiff := lt_toDouble_add_step_iff hneg
  rw [hmirror, neg_lt_neg_iff] at hiff
  rw [hiff]
  by_cases hint : x.isInt
  · obtain ⟨n, rfl⟩ := exists_intCast_of_isInt hint
    have hint' : (-(n : ℚ)).isInt = true := by simp [Rat.isInt]
    rw [if_pos hint, if_pos hint', ← Int.cast_neg, Int.floor_intCast, Int.floor_intCast]
  · have hint' : ¬(-x).isInt = true := by simpa [Rat.isInt] using hint
    rw [if_neg hint, if_neg hint', abs_neg]

theorem abs_toDouble_add_step_lt {x : ℚ} (hx : toDouble x = x) (hfinite : |x| < 2 ^ 1024) :
    |toDouble (x + outsideStep x)| < 2 ^ 1024 := by
  obtain ⟨hlow, hhigh⟩ := tenth_bounds
  have hstep : |outsideStep x| ≤ 1 := by
    unfold outsideStep
    split_ifs
    · simp
    · rw [abs_of_nonneg (by linarith)]
      linarith
  rcases lt_or_ge |x| (2 ^ 54) with hsmall | hlarge
  · have hsum : |x + outsideStep x| < 2 ^ 55 := by
      have htriangle := abs_add_le x (outsideStep x)
      linarith
    have hexp : ulpExponent (x + outsideStep x) ≤ 55 :=
      (ulpExponent_le (by norm_num) hsum).trans (by norm_num)
    have hbound := abs_toDouble_le_zpow (by exact_mod_cast hsum.le) hexp
    rw [zpow_ofNat] at hbound
    exact hbound.trans_lt (pow_lt_pow_right₀ (by norm_num) (by norm_num))
  · have hint : x.isInt = true := by
      by_contra hfraction
      have hlt := abs_lt_of_fraction hx (by simpa using hfraction)
      linarith
    rw [outsideStep, if_pos hint, toDouble_add_one_of_large hx hlarge]
    exact hfinite

theorem abs_toDouble_sub_step_lt {x : ℚ} (hx : toDouble x = x) (hfinite : |x| < 2 ^ 1024) :
    |toDouble (x - outsideStep x)| < 2 ^ 1024 := by
  have hneg : toDouble (-x) = -x := by rw [toDouble_neg, hx]
  have hmirror : toDouble (-x + outsideStep (-x)) = -toDouble (x - outsideStep x) := by
    rw [outsideStep_neg, ← toDouble_neg]
    congr 1
    ring
  have hbound := abs_toDouble_add_step_lt hneg (by rwa [abs_neg])
  rwa [hmirror, abs_neg] at hbound

section

variable {U : UnicodeData} {x : ℚ} (hx : toDouble x = x) (hfinite : |x| < 2 ^ 1024)

include hx hfinite

/-- What is written one step from a boundary is read as the rounded sum. -/
theorem readFloat_outsideValue {s : ℤ} (hs : |toDouble (x + s * outsideStep x)| < 2 ^ 1024) :
    readFloat U (outsideValue s ((x : WithTop ℚ) : WithBot (WithTop ℚ))) =
      ((toDouble (x + s * outsideStep x) : WithTop ℚ) : WithBot (WithTop ℚ)) := by
  change readFloat U (if x.isInt then intStr ⌊toDouble (x + s)⌋
    else floatStr (toDouble (x + s * tenth))) = _
  unfold outsideStep at hs ⊢
  by_cases hint : x.isInt
  · obtain ⟨n, rfl⟩ := exists_intCast_of_isInt hint
    obtain ⟨l, hl⟩ := exists_intCast_eq_toDouble (n + s)
    push_cast at hl
    rw [if_pos hint, mul_one, hl] at hs
    rw [if_pos hint, if_pos hint, mul_one, hl, Int.floor_intCast]
    apply readFloat_intStr _ hs
    rw [← hl, toDouble_toDouble]
  · rw [if_neg hint] at hs
    rw [if_neg hint, if_neg hint]
    exact readFloat_floatStr (toDouble_toDouble _) hs

theorem lt_aboveValue_iff :
    ((x : WithTop ℚ) : WithBot (WithTop ℚ)) <
        readFloat U (outsideValue 1 ((x : WithTop ℚ) : WithBot (WithTop ℚ))) ↔
      StepAbove ((x : WithTop ℚ) : WithBot (WithTop ℚ)) := by
  have hbound := abs_toDouble_add_step_lt hx hfinite
  have hread := @readFloat_outsideValue U x hx hfinite 1
  rw [Int.cast_one, one_mul] at hread
  rw [hread hbound, WithBot.coe_lt_coe, WithTop.coe_lt_coe, lt_toDouble_add_step_iff hx]
  rfl

theorem belowValue_lt_iff :
    readFloat U (outsideValue (-1) ((x : WithTop ℚ) : WithBot (WithTop ℚ))) <
        ((x : WithTop ℚ) : WithBot (WithTop ℚ)) ↔
      StepBelow ((x : WithTop ℚ) : WithBot (WithTop ℚ)) := by
  have hbound := abs_toDouble_sub_step_lt hx hfinite
  have hread := @readFloat_outsideValue U x hx hfinite (-1)
  rw [Int.cast_neg, Int.cast_one, neg_one_mul, ← sub_eq_add_neg] at hread
  rw [hread hbound, WithBot.coe_lt_coe, WithTop.coe_lt_coe, toDouble_sub_step_lt_iff hx]
  rfl

end

/-! ## The constants of a row -/

variable {U : UnicodeData} {order : SetOrder} {code w : Text}

/-- What is read is a double in range, or infinite. -/
theorem readDouble_cases (q : ℚ) :
    readDouble q = ((⊤ : WithTop ℚ) : WithBot (WithTop ℚ)) ∨ readDouble q = ⊥ ∨
      ∃ x : ℚ, readDouble q = ((x : WithTop ℚ) : WithBot (WithTop ℚ)) ∧ toDouble x = x ∧
        |x| < 2 ^ 1024 := by
  unfold readDouble
  split_ifs with hhigh hlow
  · exact Or.inl rfl
  · exact Or.inr (Or.inl rfl)
  · exact Or.inr (Or.inr ⟨toDouble q, rfl, toDouble_toDouble q,
      abs_lt.mpr ⟨not_le.mp hlow, not_le.mp hhigh⟩⟩)

@[simp] theorem readFloat_inf :
    readFloat U "inf".toList = ((⊤ : WithTop ℚ) : WithBot (WithTop ℚ)) := if_pos rfl

@[simp] theorem readFloat_neg_inf : readFloat U "-inf".toList = ⊥ := by
  rw [readFloat, if_neg (by decide), if_pos rfl]

/-- No step leads away from an infinite boundary. -/
theorem float_lt_aboveMax_iff (w : Text) :
    float U w < readFloat U (aboveMax U w) ↔ StepAbove (float U w) := by
  rw [aboveMax, float]
  rcases readDouble_cases (literalValue U w) with h | h | ⟨x, h, hx, hfinite⟩
  · rw [h]
    refine iff_of_false (fun hlt => ?_) id
    exact lt_irrefl _ (hlt.trans_eq readFloat_inf)
  · rw [h]
    refine iff_of_false (fun hlt => ?_) id
    exact lt_irrefl _ (hlt.trans_eq readFloat_neg_inf)
  · rw [h]
    exact lt_aboveValue_iff hx hfinite

theorem belowMin_lt_float_iff (w : Text) :
    readFloat U (belowMin U w) < float U w ↔ StepBelow (float U w) := by
  rw [belowMin, float]
  rcases readDouble_cases (literalValue U w) with h | h | ⟨x, h, hx, hfinite⟩
  · rw [h]
    refine iff_of_false (fun hlt => ?_) id
    exact lt_irrefl _ (readFloat_inf.symm.trans_lt hlt)
  · rw [h]
    refine iff_of_false (fun hlt => ?_) id
    exact lt_irrefl _ (readFloat_neg_inf.symm.trans_lt hlt)
  · rw [h]
    exact belowValue_lt_iff hx hfinite

/-- A constant has no exponent, so both readings agree. -/
theorem readFloat_of_constant (h : w ∈ extractNumericConstants U order code) :
    readFloat U w = float U w := by
  have hletter {c : Char} (hc : isAscii c) (hne : c ≠ '-' ∧ c ≠ '.' ∧ ¬isAsciiDigit c) : c ∉ w := by
    intro hmem
    have hchar := ascii_of_isConstantChar hc (isConstantChar_of_mem h c hmem)
    tauto
  have he : 'e' ∉ w := hletter (by decide) (by decide)
  have hi : 'i' ∉ w := hletter (by decide) (by decide)
  have hinf : w ≠ "inf".toList := by
    rintro rfl
    exact hi (by decide)
  have hneginf : w ≠ "-inf".toList := by
    rintro rfl
    exact hi (by decide)
  rw [readFloat, if_neg hinf, if_neg hneginf, numeralValue_of_notMem he, float]

/-- The proposed values, read back as doubles, are beyond all constants exactly when the ends of
the sorted constants leave room for a step. -/
theorem outside_values_iff (U : UnicodeData) (order : SetOrder) (code : Text) (row : AnnotationRow)
    (hlen : 2 ≤ (extractNumericConstants U order code).length) :
    ∃ low high below above, (preannotate U order code row).minBoundary = some low ∧
      (preannotate U order code row).maxBoundary = some high ∧
      (preannotate U order code row).belowMin = some below ∧
      (preannotate U order code row).aboveMax = some above ∧
      (∀ c ∈ splitValues U (preannotate U order code row).bvaExpectedValues,
        readFloat U low ≤ readFloat U c ∧ readFloat U c ≤ readFloat U high) ∧
      ((∀ c ∈ splitValues U (preannotate U order code row).bvaExpectedValues,
        readFloat U below < readFloat U c) ↔ StepBelow (readFloat U low)) ∧
      ((∀ c ∈ splitValues U (preannotate U order code row).bvaExpectedValues,
        readFloat U c < readFloat U above) ↔ StepAbove (readFloat U high)) := by
  obtain ⟨low, high, hhead, hlast, hmin, hmax, hbelow, habove, hvalues⟩ :=
    preannotate_boundaries row hlen
  have hlow := List.mem_of_mem_head? hhead
  have hhigh := List.mem_of_getLast? hlast
  have hbelowAll := (float_head_le hhead).2
  have haboveAll := (float_le_getLast hlast).2
  refine ⟨low, high, belowMin U low, aboveMax U high, hmin, hmax, hbelow, habove, ?_⟩
  rw [hvalues, splitValues_bvaExpectedCell hlen]
  refine ⟨?_, ?_, ?_⟩
  · intro c hc
    rw [readFloat_of_constant hlow, readFloat_of_constant hc, readFloat_of_constant hhigh]
    exact ⟨hbelowAll c (mem_extractNumericConstants.mp hc),
      haboveAll c (mem_extractNumericConstants.mp hc)⟩
  · rw [readFloat_of_constant hlow, ← belowMin_lt_float_iff]
    constructor
    · intro h
      exact readFloat_of_constant hlow ▸ h low hlow
    · intro h c hc
      rw [readFloat_of_constant hc]
      exact h.trans_le (hbelowAll c (mem_extractNumericConstants.mp hc))
  · rw [readFloat_of_constant hhigh, ← float_lt_aboveMax_iff]
    constructor
    · intro h
      exact readFloat_of_constant hhigh ▸ h high hhigh
    · intro h c hc
      rw [readFloat_of_constant hc]
      exact (haboveAll c (mem_extractNumericConstants.mp hc)).trans_lt h

theorem outside_values_sample :
    ∃ low high below above,
      (preannotate asciiData .plain "if (x > 0.5 && x < 10)".toList
        (templateRow [] none [])).minBoundary = some low ∧
      (preannotate asciiData .plain "if (x > 0.5 && x < 10)".toList
        (templateRow [] none [])).maxBoundary = some high ∧
      (preannotate asciiData .plain "if (x > 0.5 && x < 10)".toList
        (templateRow [] none [])).belowMin = some below ∧
      (preannotate asciiData .plain "if (x > 0.5 && x < 10)".toList
        (templateRow [] none [])).aboveMax = some above ∧
      (∀ c ∈ splitValues asciiData (preannotate asciiData .plain "if (x > 0.5 && x < 10)".toList
          (templateRow [] none [])).bvaExpectedValues,
        readFloat asciiData low ≤ readFloat asciiData c ∧
          readFloat asciiData c ≤ readFloat asciiData high) ∧
      ((∀ c ∈ splitValues asciiData (preannotate asciiData .plain "if (x > 0.5 && x < 10)".toList
          (templateRow [] none [])).bvaExpectedValues,
        readFloat asciiData below < readFloat asciiData c) ↔ StepBelow (readFloat asciiData low)) ∧
      ((∀ c ∈ splitValues asciiData (preannotate asciiData .plain "if (x > 0.5 && x < 10)".toList
          (templateRow [] none [])).bvaExpectedValues,
        readFloat asciiData c < readFloat asciiData above) ↔
          StepAbove (readFloat asciiData high)) := by
  have hmatched : matchedConstants asciiData "if (x > 0.5 && x < 10)".toList =
      ["0.5".toList, "10".toList] := by decide
  apply outside_values_iff
  rw [perm_extractNumericConstants.length_eq, hmatched]
  decide

end TTCEvaluation
