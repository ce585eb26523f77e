import TTCEvaluation.Scoring.Bounds

/-!
# What the three decimals hide

A recorded score is the double nearest to a fraction, rounded to three
decimals.  The halves `0.9995` and `0.0005` between the last decimals are not
doubles: both doubles next to them lie above, so a half is always rounded up.
-/

namespace TTCEvaluation

/-! ## Halves of a unit -/

/-- A number is rounded to an even integer from both ends of the unit interval around it. -/
theorem roundHalfEven_eq_even_iff {y : ℚ} {k : ℤ} (hk : Even k) :
    roundHalfEven y = k ↔ |y - k| ≤ 1 / 2 := by
  constructor
  · rintro rfl
    rw [abs_sub_comm]
    exact abs_roundHalfEven_sub_le y
  · intro h
    obtain ⟨hlow, hhigh⟩ := abs_le.mp h
    rcases le_or_gt (k : ℚ) y with hky | hky
    · have hfloor : ⌊y⌋ = k := by
        rw [Int.floor_eq_iff]
        exact ⟨hky, by linarith⟩
      unfold roundHalfEven
      rw [hfloor, if_pos hk]
      split_ifs
      · rfl
      · exfalso
        linarith
      · rfl
    · have hfloor : ⌊y⌋ = k - 1 := by
        rw [Int.floor_eq_iff]
        push_cast
        exact ⟨by linarith, by linarith⟩
      have hodd : ¬Even (k - 1) := by rwa [Int.even_sub_one, not_not]
      unfold roundHalfEven
      rw [hfloor, if_neg hodd]
      push_cast
      split_ifs
      · exfalso
        linarith
      · ring
      · ring

theorem roundTo_three_eq_iff {x : ℚ} {k : ℕ} : roundTo 3 x = k ↔ |x - k| ≤ 1 / 2000 := by
  have heven : Even ((k : ℤ) * 1000) := ⟨k * 500, by ring⟩
  have hint : roundTo 3 x = k ↔ roundHalfEven (x * 10 ^ 3) = (k : ℤ) * 1000 := by
    rw [roundTo, div_eq_iff (by norm_num)]
    constructor
    · intro h
      have hcast : ((roundHalfEven (x * 10 ^ 3) : ℤ) : ℚ) = ((k : ℤ) * 1000 : ℤ) := by
        rw [h]
        push_cast
        norm_num
      exact_mod_cast hcast
    · intro h
      rw [h]
      push_cast
      norm_num
  have hscaled : x * 10 ^ 3 - ((k : ℤ) * 1000 : ℤ) = (x - k) * 1000 := by
    push_cast
    ring
  have hthousand : |(1000 : ℚ)| = 1000 := abs_of_pos (by norm_num)
  rw [hint, roundHalfEven_eq_even_iff heven, hscaled, abs_mul, hthousand]
  constructor <;> intro h <;> linarith

theorem lt_roundHalfEven {y : ℚ} {k : ℤ} (h : k + 1 / 2 < y) : k < roundHalfEven y := by
  have hhalf := (abs_le.mp (abs_roundHalfEven_sub_le y)).1
  have hlt : (k : ℚ) < roundHalfEven y := by linarith
  exact_mod_cast hlt

/-! ## Doubles next to a half -/

/-- A number in the upper half of a step of the grid is rounded up. -/
theorem lt_toDouble {x : ℚ} {k e : ℤ} (hexp : ulpExponent x = e)
    (hlow : (k + 1 / 2) * 2 ^ e < x) (hhigh : x < (k + 1) * 2 ^ e) : x < toDouble x := by
  have hpos := two_zpow_pos e
  have hround : k < roundHalfEven (x / 2 ^ e) := by
    apply lt_roundHalfEven
    rwa [lt_div_iff₀ hpos]
  have hcast : (k : ℚ) + 1 ≤ roundHalfEven (x / 2 ^ e) := by exact_mod_cast hround
  calc
    x < (k + 1) * 2 ^ e := hhigh
    _ ≤ roundHalfEven (x / 2 ^ e) * 2 ^ e := by gcongr
    _ = toDouble x := by rw [toDouble, hexp]

theorem ulpExponent_full : ulpExponent (1999 / 2000) = -53 :=
  ulpExponent_eq (k := -1) (by norm_num) (by norm_num) (by norm_num)

theorem ulpExponent_none : ulpExponent (1 / 2000) = -63 :=
  ulpExponent_eq (k := -11) (by norm_num) (by norm_num) (by norm_num)

theorem full_lt_toDouble : 1999 / 2000 < toDouble (1999 / 2000) :=
  lt_toDouble (k := 9002695655113621) ulpExponent_full (by norm_num) (by norm_num)

theorem none_lt_toDouble : 1 / 2000 < toDouble (1 / 2000) :=
  lt_toDouble (k := 4611686018427387) ulpExponent_none (by norm_num) (by norm_num)

/-- Fractions with a common denominator are apart. -/
theorem div_add_le_of_div_lt {a q m n : ℕ} (hq : 0 < q) (hn : 0 < n)
    (h : (m / n : ℚ) < a / q) : (m / n : ℚ) + 1 / (q * n) ≤ a / q := by
  have hq' : (0 : ℚ) < q := by exact_mod_cast hq
  have hn' : (0 : ℚ) < n := by exact_mod_cast hn
  have hcross : m * q + 1 ≤ a * n := by
    rw [div_lt_div_iff₀ hn' hq'] at h
    exact_mod_cast h
  have hcast : (m * q + 1 : ℚ) ≤ a * n := by exact_mod_cast hcross
  have hsum : (m / n : ℚ) + 1 / (q * n) = (m * q + 1) / (q * n) := by
    field_simp
  have hwhole : (a / q : ℚ) = a * n / (q * n) := by
    field_simp
  rw [hsum, hwhole]
  gcongr

/-- A fraction below `a / q` is not above the double `p` below it, unless its denominator exceeds
the distance. -/
theorem toDouble_div_le {a q m n : ℕ} {p : ℚ} (hp : toDouble p = p) (hq : 0 < q) (hn : 0 < n)
    (hgap : a / q - p ≤ 1 / (q * n)) (h : (m / n : ℚ) < a / q) : toDouble (m / n) ≤ p := by
  have hapart := div_add_le_of_div_lt hq hn h
  have hle : (m / n : ℚ) ≤ p := by linarith
  calc
    toDouble (m / n) ≤ toDouble p := toDouble_mono hle
    _ = p := hp

/-- Of the fractions with at most `2 ^ 43` parts, rounding reaches `0.9995` from those above. -/
theorem full_le_toDouble_iff {m n : ℕ} (hn : 0 < n) (hsize : n ≤ 2 ^ 43) :
    1999 / 2000 ≤ toDouble (m / n) ↔ 1999 / 2000 ≤ (m / n : ℚ) := by
  have hn' : (0 : ℚ) < n := by exact_mod_cast hn
  have hsize' : (n : ℚ) ≤ 2 ^ 43 := by exact_mod_cast hsize
  constructor
  · intro h
    by_contra hlt
    have hgrid := toDouble_of_dyadic (m := 9002695655113621) (k := 53) (by norm_num) (by norm_num)
    have hgap : (1 : ℚ) / (2000 * 2 ^ 43) ≤ 1 / (2000 * n) := by gcongr
    have hle := toDouble_div_le (a := 1999) (q := 2000) (m := m) (n := n) hgrid (by norm_num) hn
      (by push_cast; norm_num at hgap ⊢; linarith) (by push_cast; exact not_le.mp hlt)
    norm_num at h hle
    linarith
  · intro h
    exact full_lt_toDouble.le.trans (toDouble_mono h)

theorem toDouble_le_none_iff {m n : ℕ} (hn : 0 < n) (hsize : n ≤ 2 ^ 43) :
    toDouble (m / n) ≤ 1 / 2000 ↔ (m / n : ℚ) < 1 / 2000 := by
  have hn' : (0 : ℚ) < n := by exact_mod_cast hn
  have hsize' : (n : ℚ) ≤ 2 ^ 43 := by exact_mod_cast hsize
  constructor
  · intro h
    by_contra hge
    exact absurd (none_lt_toDouble.trans_le (toDouble_mono (not_lt.mp hge))) (not_lt.mpr h)
  · intro h
    have hgrid := toDouble_of_dyadic (m := 4611686018427387) (k := 63) (by norm_num) (by norm_num)
    have hgap : (1 : ℚ) / (2000 * 2 ^ 43) ≤ 1 / (2000 * n) := by gcongr
    have hle := toDouble_div_le (a := 1) (q := 2000) (m := m) (n := n) hgrid (by norm_num) hn
      (by push_cast; norm_num at hgap ⊢; linarith) (by push_cast; exact h)
    norm_num at hle ⊢
    linarith

/-! ## The recorded score -/

theorem toDouble_roundTo_eq_one_iff {x : ℚ} (hx : x ∈ Set.Icc (0 : ℚ) 1) :
    toDouble (roundTo 3 x) = 1 ↔ roundTo 3 x = 1 := by
  constructor
  · intro h
    by_contra hne
    -- the decimal below one is far enough from it
    have hlow : roundTo 3 x ≤ 1023 / 1024 := by
      have hlt : roundTo 3 x < 1 := lt_of_le_of_ne (roundTo_mem_unit 3 hx).2 hne
      rw [roundTo, div_lt_one (by norm_num)] at hlt
      have hint : roundHalfEven (x * 10 ^ 3) < 1000 := by exact_mod_cast hlt
      have hcast : (roundHalfEven (x * 10 ^ 3) : ℚ) ≤ 999 := by
        exact_mod_cast Int.le_sub_one_of_lt hint
      rw [roundTo, div_le_iff₀ (by norm_num)]
      exact hcast.trans (by norm_num)
    have hgrid := toDouble_of_dyadic (m := 1023) (k := 10) (by norm_num) (by norm_num)
    have hmono := toDouble_mono hlow
    norm_num at hgrid
    rw [h, hgrid] at hmono
    norm_num at hmono
  · intro h
    rw [h]
    exact Arithmetic.binary64.fl_one

theorem toDouble_roundTo_eq_zero_iff {x : ℚ} (hx : x ∈ Set.Icc (0 : ℚ) 1) :
    toDouble (roundTo 3 x) = 0 ↔ roundTo 3 x = 0 := by
  constructor
  · intro h
    by_contra hne
    have hhigh : 1 / 1024 ≤ roundTo 3 x := by
      have hlt : 0 < roundTo 3 x := lt_of_le_of_ne (roundTo_mem_unit 3 hx).1 (Ne.symm hne)
      rw [roundTo, div_pos_iff_of_pos_right (by norm_num)] at hlt
      have hint : 0 < roundHalfEven (x * 10 ^ 3) := by exact_mod_cast hlt
      have hcast : (1 : ℚ) ≤ roundHalfEven (x * 10 ^ 3) := by exact_mod_cast hint
      rw [roundTo, le_div_iff₀ (by norm_num)]
      exact le_trans (by norm_num) hcast
    have hgrid := toDouble_of_dyadic (m := 1) (k := 10) (by norm_num) (by norm_num)
    have hmono := toDouble_mono hhigh
    norm_num at hgrid
    rw [h, hgrid] at hmono
    norm_num at hmono
  · intro h
    rw [h, toDouble_zero]

/-- A score over at most `2 ^ 43` values is recorded as one if at most one value in two thousand
is missed, and as zero if fewer than one in two thousand is found. -/
theorem rounded_score_iff (U : UnicodeData) (t : Text) {cell : Cell}
    (hcell : splitValues U cell ≠ []) (hsize : (splitValues U cell).length ≤ 2 ^ 43) :
    (Arithmetic.binary64.round (scoreExpectedValues .binary64 U t cell).1 3 = 1 ↔
        2000 * (splitValues U cell).countP (fun v => !containsValue U t v) ≤
          (splitValues U cell).length) ∧
      (Arithmetic.binary64.round (scoreExpectedValues .binary64 U t cell).1 3 = 0 ↔
        2000 * (splitValues U cell).countP (containsValue U t) <
          (splitValues U cell).length) := by
  have hn := List.length_pos_iff.mpr hcell
  have hn' : (0 : ℚ) < (splitValues U cell).length := by exact_mod_cast hn
  have hsplit : (splitValues U cell).length = (splitValues U cell).countP (containsValue U t) +
      (splitValues U cell).countP (fun v => !containsValue U t v) := by
    have hlength := (splitValues U cell).length_eq_countP_add_countP (containsValue U t)
    simpa using hlength
  have hunit := (scoreExpectedValues_mem_unit (A := .binary64) (U := U) t cell).1
  have hscore : (scoreExpectedValues .binary64 U t cell).1 =
      toDouble ((splitValues U cell).countP (containsValue U t) / (splitValues U cell).length) :=
    scoreExpectedValues_score ..
  constructor
  · calc
      Arithmetic.binary64.round (scoreExpectedValues .binary64 U t cell).1 3 = 1 ↔
          roundTo 3 (scoreExpectedValues .binary64 U t cell).1 = 1 :=
        toDouble_roundTo_eq_one_iff hunit
      _ ↔ 1999 / 2000 ≤ (scoreExpectedValues .binary64 U t cell).1 := by
        have hone := @roundTo_three_eq_iff (scoreExpectedValues .binary64 U t cell).1 1
        rw [Nat.cast_one] at hone
        rw [hone, abs_of_nonpos (by linarith [hunit.2])]
        constructor <;> intro h <;> linarith
      _ ↔ 2000 * (splitValues U cell).countP (fun v => !containsValue U t v) ≤
          (splitValues U cell).length := by
        rw [hscore, full_le_toDouble_iff hn hsize, div_le_div_iff₀ (by norm_num) hn']
        norm_cast
        omega
  · calc
      Arithmetic.binary64.round (scoreExpectedValues .binary64 U t cell).1 3 = 0 ↔
          roundTo 3 (scoreExpectedValues .binary64 U t cell).1 = 0 :=
        toDouble_roundTo_eq_zero_iff hunit
      _ ↔ (scoreExpectedValues .binary64 U t cell).1 ≤ 1 / 2000 := by
        have hzero := @roundTo_three_eq_iff (scoreExpectedValues .binary64 U t cell).1 0
        rw [Nat.cast_zero, sub_zero] at hzero
        rw [hzero, abs_of_nonneg hunit.1]
      _ ↔ 2000 * (splitValues U cell).countP (containsValue U t) <
          (splitValues U cell).length := by
        rw [hscore, toDouble_le_none_iff hn hsize, div_lt_div_iff₀ hn' (by norm_num)]
        norm_cast
        omega

theorem rounded_score_sample :
    (Arithmetic.binary64.round (scoreExpectedValues .binary64 asciiData "add(7);".toList
        (some "7;8".toList)).1 3 = 1 ↔
      2000 * (splitValues asciiData (some "7;8".toList)).countP
          (fun v => !containsValue asciiData "add(7);".toList v) ≤
        (splitValues asciiData (some "7;8".toList)).length) ∧
    (Arithmetic.binary64.round (scoreExpectedValues .binary64 asciiData "add(7);".toList
        (some "7;8".toList)).1 3 = 0 ↔
      2000 * (splitValues asciiData (some "7;8".toList)).countP
          (containsValue asciiData "add(7);".toList) <
        (splitValues asciiData (some "7;8".toList)).length) :=
  rounded_score_iff asciiData "add(7);".toList (by decide) (by decide)

end TTCEvaluation
