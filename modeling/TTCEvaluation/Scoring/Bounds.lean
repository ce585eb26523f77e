import TTCEvaluation.Arithmetic.Steps
import TTCEvaluation.Scoring.Rows
import Mathlib.Order.Interval.Set.Basic

/-!
# The range of the scores

All recorded scores lie between zero and one, in every arithmetic.  If the
arithmetic doubles its numbers exactly, as binary64 does, the total score lies
between the scores of the techniques that apply.
-/

namespace TTCEvaluation

namespace Arithmetic

/-- Rounded numbers are not rounded again, and neither are their doubles. -/
structure Doubles (A : Arithmetic) : Prop where
  fl_fl : ∀ x, A.fl (A.fl x) = A.fl x
  fl_two_mul : ∀ x, A.fl (2 * A.fl x) = 2 * A.fl x

theorem ulpExponent_two_mul_le {y : ℚ} (hy : y ≠ 0) : ulpExponent (2 * y) ≤ ulpExponent y + 1 := by
  have hlt : |2 * y| < ((2 : ℕ) : ℚ) ^ (Int.log 2 |y| + 2) := by
    have hself := Int.lt_zpow_succ_log_self (b := 2) (by norm_num) |y|
    calc
      |2 * y| = 2 * |y| := by rw [abs_mul, abs_two]
      _ < 2 * ((2 : ℕ) : ℚ) ^ (Int.log 2 |y| + 1) := by
        linarith
      _ = ((2 : ℕ) : ℚ) ^ (Int.log 2 |y| + 2) := by
        rw [show Int.log 2 |y| + 2 = Int.log 2 |y| + 1 + 1 by ring,
          zpow_add_one₀ (by norm_num : ((2 : ℕ) : ℚ) ≠ 0) (Int.log 2 |y| + 1)]
        push_cast
        ring
  have hpos : 0 < |2 * y| := abs_pos.mpr (mul_ne_zero two_ne_zero hy)
  have hlog := (Int.lt_zpow_iff_log_lt (by norm_num) hpos).mp hlt
  unfold ulpExponent
  omega

theorem toDouble_two_mul {y : ℚ} (hy : toDouble y = y) : toDouble (2 * y) = 2 * y := by
  rcases eq_or_ne y 0 with rfl | hne
  · simp
  · refine toDouble_eq_self (m := roundHalfEven (y / 2 ^ ulpExponent y))
      (e := ulpExponent y + 1) ?_ (ulpExponent_two_mul_le hne)
    have hgrid : y = roundHalfEven (y / 2 ^ ulpExponent y) * 2 ^ ulpExponent y := hy.symm
    rw [zpow_add_one₀ two_ne_zero, ← mul_assoc, ← hgrid, mul_comm]

theorem doubles_binary64 : binary64.Doubles :=
  ⟨toDouble_toDouble, fun x => toDouble_two_mul (toDouble_toDouble x)⟩

variable {A : Arithmetic}

theorem fl_mem_unit {x : ℚ} (hx : x ∈ Set.Icc (0 : ℚ) 1) : A.fl x ∈ Set.Icc (0 : ℚ) 1 := by
  constructor
  · simpa using A.mono hx.1
  · simpa using A.mono hx.2

theorem round_mem_unit {x : ℚ} (k : ℕ) (hx : x ∈ Set.Icc (0 : ℚ) 1) :
    A.round x k ∈ Set.Icc (0 : ℚ) 1 := by
  constructor
  · simpa using A.round_mono k hx.1
  · simpa using A.round_mono k hx.2

end Arithmetic

variable {A : Arithmetic} {U : UnicodeData}

/-! ## Between zero and one -/

theorem div_mem_unit {m n : ℕ} (h : m ≤ n) : (m / n : ℚ) ∈ Set.Icc (0 : ℚ) 1 := by
  constructor
  · positivity
  · exact div_le_one_of_le₀ (by exact_mod_cast h) (by positivity)

theorem scoreExpectedValues_mem_unit (t : Text) (cell : Cell) :
    (scoreExpectedValues A U t cell).1 ∈ Set.Icc (0 : ℚ) 1 ∧
      (scoreExpectedValues A U t cell).2.1 ≤ (scoreExpectedValues A U t cell).2.2 := by
  rw [scoreExpectedValues_score, scoreExpectedValues_matched, scoreExpectedValues_total]
  exact ⟨Arithmetic.fl_mem_unit (div_mem_unit List.countP_le_length), List.countP_le_length⟩

theorem techniqueScore_mem_unit (t : Text) (applicable cell : Cell) :
    (techniqueScore A U t applicable cell).1 ∈ Set.Icc (0 : ℚ) 1 ∧
      (techniqueScore A U t applicable cell).2.1 ≤ (techniqueScore A U t applicable cell).2.2 := by
  unfold techniqueScore
  split_ifs
  · exact scoreExpectedValues_mem_unit t cell
  · exact ⟨⟨zero_le_one, le_refl _⟩, le_refl _⟩

/-- The average in its three cases. -/
theorem averageApplicable_eq (row : GroundTruthRow) (b e : ℚ) :
    averageApplicable A U row b e =
      match isYes U row.bvaApplicable, isYes U row.ecpApplicable with
      | true, true => A.div (A.add (A.add 0 b) e) 2
      | true, false => A.div (A.add 0 b) 1
      | false, true => A.div (A.add 0 e) 1
      | false, false => 0 := by
  cases hb : isYes U row.bvaApplicable <;> cases he : isYes U row.ecpApplicable <;>
    simp [averageApplicable, addApplicable, hb, he]

theorem averageApplicable_mem_unit (row : GroundTruthRow) {b e : ℚ} (hb : b ∈ Set.Icc (0 : ℚ) 1)
    (he : e ∈ Set.Icc (0 : ℚ) 1) : averageApplicable A U row b e ∈ Set.Icc (0 : ℚ) 1 := by
  have hzero : averageApplicable A U row 0 0 = 0 := by
    rw [averageApplicable_eq]
    split <;> simp [Arithmetic.div, Arithmetic.add]
  have hone : averageApplicable A U row 1 1 ≤ 1 := by
    rw [averageApplicable_eq]
    split <;> norm_num [Arithmetic.div, Arithmetic.add]
  exact ⟨hzero.symm.le.trans (averageApplicable_mono row hb.1 he.1),
    (averageApplicable_mono row hb.2 he.2).trans hone⟩

/-- The scores of a row are fractions, and no more values are matched than there are. -/
structure TtcRow.InRange (row : TtcRow) : Prop where
  bva_score : row.bvaScore ∈ Set.Icc (0 : ℚ) 1
  ecp_score : row.ecpScore ∈ Set.Icc (0 : ℚ) 1
  ttc_score : row.ttcScore ∈ Set.Icc (0 : ℚ) 1
  bva_matched : ∀ m ∈ row.bvaMatched, ∃ n ∈ row.bvaTotal, m ≤ n
  ecp_matched : ∀ m ∈ row.ecpMatched, ∃ n ∈ row.ecpTotal, m ≤ n

theorem scoreRow_inRange (row : GroundTruthRow) (found : Option TestFile) :
    (scoreRow A U row found).InRange := by
  cases found with
  | none => exact ⟨⟨le_refl _, zero_le_one⟩, ⟨le_refl _, zero_le_one⟩, ⟨le_refl _, zero_le_one⟩,
      by simp [scoreRow, missingTest], by simp [scoreRow, missingTest]⟩
  | some file =>
      obtain ⟨hbva, hbvaCount⟩ := techniqueScore_mem_unit (A := A) (U := U) file.readText
        row.bvaApplicable row.bvaExpectedValues
      obtain ⟨hecp, hecpCount⟩ := techniqueScore_mem_unit (A := A) (U := U) file.readText
        row.ecpApplicable row.ecpExpectedValues
      exact
        { bva_score := Arithmetic.round_mem_unit 3 hbva
          ecp_score := Arithmetic.round_mem_unit 3 hecp
          ttc_score := Arithmetic.round_mem_unit 3 (averageApplicable_mem_unit row hbva hecp)
          bva_matched := by
            rintro m hm
            exact ⟨_, rfl, Option.some.inj hm ▸ hbvaCount⟩
          ecp_matched := by
            rintro m hm
            exact ⟨_, rfl, Option.some.inj hm ▸ hecpCount⟩ }

/-! ## Between the techniques -/

section

variable (hA : A.Doubles)

include hA

theorem le_average {low b e : ℚ} (hlow : A.fl low = low) (hb : low ≤ b) (he : low ≤ e) :
    low ≤ A.div (A.add b e) 2 := by
  have hdouble : A.fl (2 * low) = 2 * low := by
    rw [← hlow]
    exact hA.fl_two_mul low
  have hsum : 2 * low ≤ A.add b e := by
    rw [← hdouble]
    exact A.mono (by linarith)
  calc
    low = A.div (2 * low) 2 := by rw [Arithmetic.div, mul_div_cancel_left₀ low two_ne_zero, hlow]
    _ ≤ A.div (A.add b e) 2 := A.div_mono zero_le_two hsum

theorem average_le {high b e : ℚ} (hhigh : A.fl high = high) (hb : b ≤ high) (he : e ≤ high) :
    A.div (A.add b e) 2 ≤ high := by
  have hdouble : A.fl (2 * high) = 2 * high := by
    rw [← hhigh]
    exact hA.fl_two_mul high
  have hsum : A.add b e ≤ 2 * high := by
    rw [← hdouble]
    exact A.mono (by linarith)
  calc
    A.div (A.add b e) 2 ≤ A.div (2 * high) 2 := A.div_mono zero_le_two hsum
    _ = high := by rw [Arithmetic.div, mul_div_cancel_left₀ high two_ne_zero, hhigh]

theorem fl_techniqueScore (t : Text) (applicable cell : Cell) :
    A.fl (techniqueScore A U t applicable cell).1 = (techniqueScore A U t applicable cell).1 := by
  unfold techniqueScore
  split_ifs
  · rw [scoreExpectedValues_score]
    exact hA.fl_fl _
  · exact A.fl_one

/-- The total score lies between the recorded scores of the techniques that apply: it is the one
score, or between the two, or zero where none applies. -/
theorem ttcScore_between (row : GroundTruthRow) (file : TestFile) :
    match isYes U row.bvaApplicable, isYes U row.ecpApplicable with
    | true, true =>
        min (scoreTest A U row file).bvaScore (scoreTest A U row file).ecpScore ≤
            (scoreTest A U row file).ttcScore ∧
          (scoreTest A U row file).ttcScore ≤
            max (scoreTest A U row file).bvaScore (scoreTest A U row file).ecpScore
    | true, false => (scoreTest A U row file).ttcScore = (scoreTest A U row file).bvaScore
    | false, true => (scoreTest A U row file).ttcScore = (scoreTest A U row file).ecpScore
    | false, false => (scoreTest A U row file).ttcScore = 0 := by
  obtain ⟨b, hb⟩ : ∃ b, b = (techniqueScore A U file.readText row.bvaApplicable
    row.bvaExpectedValues).1 := ⟨_, rfl⟩
  obtain ⟨e, he⟩ : ∃ e, e = (techniqueScore A U file.readText row.ecpApplicable
    row.ecpExpectedValues).1 := ⟨_, rfl⟩
  have hflb : A.fl b = b := by rw [hb, fl_techniqueScore hA]
  have hfle : A.fl e = e := by rw [he, fl_techniqueScore hA]
  have hbva : (scoreTest A U row file).bvaScore = A.round b 3 := by rw [hb]; rfl
  have hecp : (scoreTest A U row file).ecpScore = A.round e 3 := by rw [he]; rfl
  have httc : (scoreTest A U row file).ttcScore = A.round (averageApplicable A U row b e) 3 := by
    rw [hb, he]
    rfl
  have hadd {x : ℚ} (hx : A.fl x = x) : A.add 0 x = x := by rw [Arithmetic.add, zero_add, hx]
  have hdiv {x : ℚ} (hx : A.fl x = x) : A.div x 1 = x := by rw [Arithmetic.div, div_one, hx]
  have hround : Monotone fun x => A.round x 3 := fun _ _ h => A.round_mono 3 h
  rw [hbva, hecp, httc, averageApplicable_eq]
  cases isYes U row.bvaApplicable <;> cases isYes U row.ecpApplicable
  · exact A.round_zero 3
  · change A.round (A.div (A.add 0 e) 1) 3 = A.round e 3
    rw [hadd hfle, hdiv hfle]
  · change A.round (A.div (A.add 0 b) 1) 3 = A.round b 3
    rw [hadd hflb, hdiv hflb]
  · change min (A.round b 3) (A.round e 3) ≤ A.round (A.div (A.add (A.add 0 b) e) 2) 3 ∧
      A.round (A.div (A.add (A.add 0 b) e) 2) 3 ≤ max (A.round b 3) (A.round e 3)
    have hmin : A.fl (min b e) = min b e := by rw [A.mono.map_min, hflb, hfle]
    have hmax : A.fl (max b e) = max b e := by rw [A.mono.map_max, hflb, hfle]
    rw [hadd hflb, ← hround.map_min, ← hround.map_max]
    exact ⟨hround (le_average hA hmin (min_le_left b e) (min_le_right b e)),
      hround (average_le hA hmax (le_max_left b e) (le_max_right b e))⟩

end

def twoTechniques : GroundTruthRow :=
  ⟨"function_0001".toList, some "add".toList, some "yes".toList, some "7;8".toList,
    some "yes".toList, some "x".toList⟩

def sevenTest : TestFile := ⟨"function_0001_add_gpt_test.cpp".toList, "add(7);".toList⟩

theorem ttcScore_between_binary64 :
    min (scoreTest .binary64 asciiData twoTechniques sevenTest).bvaScore
        (scoreTest .binary64 asciiData twoTechniques sevenTest).ecpScore ≤
      (scoreTest .binary64 asciiData twoTechniques sevenTest).ttcScore ∧
    (scoreTest .binary64 asciiData twoTechniques sevenTest).ttcScore ≤
      max (scoreTest .binary64 asciiData twoTechniques sevenTest).bvaScore
        (scoreTest .binary64 asciiData twoTechniques sevenTest).ecpScore :=
  @ttcScore_between .binary64 asciiData Arithmetic.doubles_binary64 twoTechniques sevenTest

end TTCEvaluation
