import TTCEvaluation.Scoring.Layout

/-!
# The empty test file

Empty values are refused before normalisation, and a value of blanks,
underscores and hyphens is empty only after it.  Such a value is found in
every text, so that even the empty test is credited with it.
-/

namespace TTCEvaluation

section

variable (U : UnicodeData)

/-- If the technique is applied, each listed value keeps a character under normalisation. -/
def VisibleValues (applicable cell : Cell) : Prop :=
  isYes U applicable → ∀ v ∈ splitValues U cell, ∃ c ∈ v, isKept c

end

variable {A : Arithmetic} {U : UnicodeData}

/-! ## Values without a normal form -/

theorem filter_lowerAt_ne_nil {c : Char} (hc : isKept c) (b a : Text) :
    (U.lowerAt b a c).filter isKept ≠ [] := by
  have hsigma : isKept 'ς' ∧ isKept 'σ' := by decide
  unfold UnicodeData.lowerAt
  split_ifs
  · simp [hsigma]
  · simp [hsigma]
  · rw [filter_lowerChar, if_pos hc]
    exact U.lower_ne_nil c

theorem normalize_eq_nil_iff {t : Text} : normalize U t = [] ↔ ∀ c ∈ t, isKept c = false := by
  constructor
  · intro h c hc
    by_contra hkept
    obtain ⟨s, r, rfl⟩ := List.append_of_mem hc
    rw [List.append_cons, normalize_eq_filter, UnicodeData.lower_split] at h
    simp only [List.filter_append, List.append_eq_nil_iff, UnicodeData.lowerBetween,
      List.append_nil] at h
    exact filter_lowerAt_ne_nil (by simpa using hkept) _ _ h.1.2
  · intro h
    have hsigma : 'Σ' ∉ t := fun hmem => absurd (h _ hmem) (by decide)
    have hfilter : t.filter isKept = [] := by
      rw [List.filter_eq_nil_iff]
      intro c hc
      simp [h c hc]
    rw [normalize_eq_flatMap hsigma, hfilter, List.flatMap_nil]

theorem upper_notMem_notAvailable {v : Text} (h : ∀ c ∈ v, isKept c = false) :
    U.upper v ∉ notAvailable := by
  have hdeleted : ∀ c, isKept c = false → U.upperChar c = [c] := by
    intro c hc
    have hcases : isAscii c ∧ c.toUpper = c := by
      simp only [isKept, Bool.and_eq_false_iff, decide_eq_false_iff_not, not_not] at hc
      rcases hc with (rfl | rfl) | rfl <;> decide
    rw [U.upper_ascii c hcases.1, hcases.2]
  have hupper : ∀ d ∈ U.upper v, isKept d = false := by
    intro d hd
    obtain ⟨c, hc, hdc⟩ := List.mem_flatMap.mp hd
    rw [hdeleted c (h c hc), List.mem_singleton] at hdc
    exact hdc ▸ h c hc
  have hmark : ∀ w ∈ notAvailable, w.any isKept := by decide
  intro hmem
  obtain ⟨d, hd, hkept⟩ := List.any_eq_true.mp (hmark _ hmem)
  rw [hupper d hd] at hkept
  cases hkept

/-- The empty text is credited with the values that normalisation empties. -/
theorem containsValue_nil_iff {v : Text} (hne : v ≠ []) (hstrip : strip v = v) :
    containsValue U [] v ↔ ∀ c ∈ v, isKept c = false := by
  have hnil : normalize U [] = [] := rfl
  rw [containsValue_iff hne hstrip, hnil, List.infix_nil, normalize_eq_nil_iff]
  exact and_iff_right_of_imp upper_notMem_notAvailable

theorem countP_containsValue_nil {cell : Cell} :
    (splitValues U cell).countP (containsValue U []) = 0 ↔
      ∀ v ∈ splitValues U cell, ∃ c ∈ v, isKept c := by
  rw [List.countP_eq_zero]
  apply forall₂_congr
  intro v hv
  cases cell with
  | none => simp [splitValues] at hv
  | some text =>
      rw [containsValue_nil_iff (ne_nil_of_mem_splitValues hv) (strip_of_mem_splitValues hv)]
      simp

/-! ## The scores of the empty test -/

theorem techniqueScore_nil_matched {applicable cell : Cell} :
    (techniqueScore A U [] applicable cell).2.1 = 0 ↔ VisibleValues U applicable cell := by
  unfold techniqueScore VisibleValues
  split_ifs with hyes
  · rw [scoreExpectedValues_matched, countP_containsValue_nil]
    exact ⟨fun h _ => h, fun h => h hyes⟩
  · simp [hyes]

theorem techniqueScore_of_not_matched {t : Text} {applicable cell : Cell}
    (hyes : isYes U applicable) (h : (techniqueScore A U t applicable cell).2.1 = 0) :
    (techniqueScore A U t applicable cell).1 = 0 := by
  rw [techniqueScore, if_pos hyes] at h ⊢
  rw [scoreExpectedValues_matched] at h
  rw [scoreExpectedValues_score, h, Arithmetic.div]
  simp

theorem averageApplicable_of_zero {row : GroundTruthRow} {b e : ℚ}
    (hb : isYes U row.bvaApplicable → b = 0) (he : isYes U row.ecpApplicable → e = 0) :
    averageApplicable A U row b e = 0 := by
  have hadd {applicable : Cell} {score : ℚ} {acc : ℕ × ℚ}
      (hscore : isYes U applicable → score = 0) (hacc : acc.2 = 0) :
      (addApplicable A U applicable score acc).2 = 0 := by
    unfold addApplicable
    split_ifs with hyes
    · simp [Arithmetic.add, hacc, hscore hyes]
    · exact hacc
  unfold averageApplicable
  dsimp only
  rw [hadd he (hadd hb rfl), Arithmetic.div, zero_div, A.fl_zero, ite_self]

/-- The empty test earns nothing exactly when no value of an applied technique is made of blanks,
underscores and hyphens alone. -/
theorem scoreTest_empty_iff (A : Arithmetic) (U : UnicodeData) (row : GroundTruthRow)
    (name : Text) :
    ((scoreTest A U row ⟨name, []⟩).bvaMatched = some 0 ∧
      (scoreTest A U row ⟨name, []⟩).ecpMatched = some 0 ∧
      (scoreTest A U row ⟨name, []⟩).ttcScore = 0) ↔
    VisibleValues U row.bvaApplicable row.bvaExpectedValues ∧
      VisibleValues U row.ecpApplicable row.ecpExpectedValues := by
  simp only [scoreTest, recordedScores, TestScores.rounded, testScores, Option.some.injEq]
  rw [← techniqueScore_nil_matched (A := A), ← techniqueScore_nil_matched (A := A)]
  constructor
  · rintro ⟨hbva, hecp, -⟩
    exact ⟨hbva, hecp⟩
  · rintro ⟨hbva, hecp⟩
    refine ⟨hbva, hecp, ?_⟩
    rw [averageApplicable_of_zero]
    · exact A.round_zero 3
    · exact fun hyes => techniqueScore_of_not_matched hyes hbva
    · exact fun hyes => techniqueScore_of_not_matched hyes hecp

def hyphenRow : GroundTruthRow where
  id := "function_0001".toList
  functionName := some "parse".toList
  bvaApplicable := some "yes".toList
  bvaExpectedValues := some "-".toList
  ecpApplicable := some "no".toList
  ecpExpectedValues := none

def emptyTest : TestFile := ⟨"function_0001_parse_test.cpp".toList, []⟩

/-- The empty test attains the full score of a row whose only value is a hyphen; the missing test
scores zero. -/
theorem empty_test_scores_hyphen :
    (scoreTest .binary64 asciiData hyphenRow emptyTest).bvaMatched = some 1 ∧
      (scoreTest .binary64 asciiData hyphenRow emptyTest).ttcScore = 1 ∧
      (missingTest hyphenRow).ttcScore = 0 := by
  decide +kernel

end TTCEvaluation
