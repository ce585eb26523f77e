import TTCEvaluation.Scoring.Values

/-!
# Scoring one ground-truth row

A technique that the row does not mark `yes` gets the placeholder score one
and no counts; the total score averages the techniques that it does mark.
-/

namespace TTCEvaluation

/-- The columns of a ground-truth row that the evaluation stages read. -/
structure GroundTruthRow where
  id : Text
  functionName : Cell
  bvaApplicable : Cell
  bvaExpectedValues : Cell
  ecpApplicable : Cell
  ecpExpectedValues : Cell
deriving DecidableEq

/-- A generated test; bytes that are not UTF-8 are left out of the content. -/
structure TestFile where
  name : Text
  content : Text
deriving DecidableEq

/-- `test_file.read_text(encoding="utf-8", errors="ignore")`. -/
def TestFile.readText (file : TestFile) : Text := universalNewlines file.content

/-- `str(test_file.relative_to(PROJECT_ROOT))`. -/
def TestFile.path (file : TestFile) : Text := "generated_tests/gpt55/".toList ++ file.name

/-- `str(cell)`: a missing cell is a float that prints as `nan`. -/
def cellStr : Cell → Text
  | none => "nan".toList
  | some text => text

structure TestScores where
  bvaScore : ℚ
  bvaMatched : ℕ
  bvaTotal : ℕ
  ecpScore : ℚ
  ecpMatched : ℕ
  ecpTotal : ℕ
  ttcScore : ℚ
deriving DecidableEq

/-- A row of the results table of stage 09; keys left out of a record are missing cells. -/
structure TtcRow where
  functionId : Text
  functionName : Cell
  testFile : Text
  testAvailable : Bool
  bvaApplicable : Cell
  ecpApplicable : Cell
  bvaScore : ℚ
  bvaMatched : Option ℕ
  bvaTotal : Option ℕ
  ecpScore : ℚ
  ecpMatched : Option ℕ
  ecpTotal : Option ℕ
  ttcScore : ℚ
  notes : Text
deriving DecidableEq

section

variable (A : Arithmetic) (U : UnicodeData)

/-- `str(cell).lower() == "yes"`. -/
def isYes (applicable : Cell) : Bool := U.lower (cellStr applicable) = "yes".toList

def techniqueScore (testCode : Text) (applicable expectedValues : Cell) : ℚ × ℕ × ℕ :=
  if isYes U applicable then scoreExpectedValues A U testCode expectedValues else (1, 0, 0)

/-- One `if`-block of the accumulation: the count and the sum over applicable techniques. -/
def addApplicable (applicable : Cell) (score : ℚ) (acc : ℕ × ℚ) : ℕ × ℚ :=
  if isYes U applicable then (acc.1 + 1, A.add acc.2 score) else acc

/-- `total_score / applicable_count if applicable_count else 0.0`. -/
def averageApplicable (row : GroundTruthRow) (bvaScore ecpScore : ℚ) : ℚ :=
  let acc := addApplicable A U row.ecpApplicable ecpScore
    (addApplicable A U row.bvaApplicable bvaScore (0, 0))
  if acc.1 = 0 then 0 else A.div acc.2 acc.1

def testScores (row : GroundTruthRow) (testCode : Text) : TestScores :=
  let bva := techniqueScore A U testCode row.bvaApplicable row.bvaExpectedValues
  let ecp := techniqueScore A U testCode row.ecpApplicable row.ecpExpectedValues
  { bvaScore := bva.1
    bvaMatched := bva.2.1
    bvaTotal := bva.2.2
    ecpScore := ecp.1
    ecpMatched := ecp.2.1
    ecpTotal := ecp.2.2
    ttcScore := averageApplicable A U row bva.1 ecp.1 }

/-- The scores are recorded with three decimals. -/
def TestScores.rounded (s : TestScores) : TestScores :=
  { s with
    bvaScore := A.round s.bvaScore 3
    ecpScore := A.round s.ecpScore 3
    ttcScore := A.round s.ttcScore 3 }

def recordedScores (row : GroundTruthRow) (testCode : Text) : TestScores :=
  (testScores A U row testCode).rounded A

def scoreTest (row : GroundTruthRow) (file : TestFile) : TtcRow :=
  let s := recordedScores A U row file.readText
  { functionId := row.id
    functionName := row.functionName
    testFile := file.path
    testAvailable := true
    bvaApplicable := row.bvaApplicable
    ecpApplicable := row.ecpApplicable
    bvaScore := s.bvaScore
    bvaMatched := some s.bvaMatched
    bvaTotal := some s.bvaTotal
    ecpScore := s.ecpScore
    ecpMatched := some s.ecpMatched
    ecpTotal := some s.ecpTotal
    ttcScore := s.ttcScore
    notes := [] }

def missingTest (row : GroundTruthRow) : TtcRow where
  functionId := row.id
  functionName := row.functionName
  testFile := []
  testAvailable := false
  bvaApplicable := none
  ecpApplicable := none
  bvaScore := 0
  bvaMatched := none
  bvaTotal := none
  ecpScore := 0
  ecpMatched := none
  ecpTotal := none
  ttcScore := 0
  notes := "Generated test file missing".toList

/-- One pass of the loop of stage 09, after the test was looked up. -/
def scoreRow (row : GroundTruthRow) : Option TestFile → TtcRow
  | none => missingTest row
  | some file => scoreTest A U row file

end

variable {A : Arithmetic} {U : UnicodeData}

@[simp] theorem scoreRow_functionId (row : GroundTruthRow) (found : Option TestFile) :
    (scoreRow A U row found).functionId = row.id := by
  cases found <;> rfl

@[simp] theorem scoreRow_functionName (row : GroundTruthRow) (found : Option TestFile) :
    (scoreRow A U row found).functionName = row.functionName := by
  cases found <;> rfl

/-! ## Comparing scores -/

/-- The second test scores at least as much as the first, out of the same totals. -/
structure TestScores.Le (s s' : TestScores) : Prop where
  bva_score : s.bvaScore ≤ s'.bvaScore
  bva_matched : s.bvaMatched ≤ s'.bvaMatched
  bva_total : s.bvaTotal = s'.bvaTotal
  ecp_score : s.ecpScore ≤ s'.ecpScore
  ecp_matched : s.ecpMatched ≤ s'.ecpMatched
  ecp_total : s.ecpTotal = s'.ecpTotal
  ttc_score : s.ttcScore ≤ s'.ttcScore

namespace TestScores

theorem Le.antisymm {s s' : TestScores} (h : s.Le s') (h' : s'.Le s) : s = s' := by
  cases s
  cases s'
  simp only [mk.injEq]
  exact ⟨le_antisymm h.bva_score h'.bva_score, le_antisymm h.bva_matched h'.bva_matched,
    h.bva_total, le_antisymm h.ecp_score h'.ecp_score,
    le_antisymm h.ecp_matched h'.ecp_matched, h.ecp_total,
    le_antisymm h.ttc_score h'.ttc_score⟩

theorem Le.rounded {s s' : TestScores} (h : s.Le s') : (s.rounded A).Le (s'.rounded A) where
  bva_score := A.round_mono 3 h.bva_score
  bva_matched := h.bva_matched
  bva_total := h.bva_total
  ecp_score := A.round_mono 3 h.ecp_score
  ecp_matched := h.ecp_matched
  ecp_total := h.ecp_total
  ttc_score := A.round_mono 3 h.ttc_score

end TestScores

theorem addApplicable_fst (applicable : Cell) (score : ℚ) (acc : ℕ × ℚ) :
    (addApplicable A U applicable score acc).1 =
      acc.1 + if isYes U applicable then 1 else 0 := by
  unfold addApplicable
  split_ifs <;> rfl

theorem addApplicable_mono (applicable : Cell) {score score' : ℚ} {acc acc' : ℕ × ℚ}
    (hscore : score ≤ score') (hacc : acc.2 ≤ acc'.2) :
    (addApplicable A U applicable score acc).2 ≤ (addApplicable A U applicable score' acc').2 := by
  unfold addApplicable
  split_ifs
  · exact A.add_mono hacc hscore
  · exact hacc

theorem averageApplicable_mono (row : GroundTruthRow) {b b' e e' : ℚ} (hb : b ≤ b')
    (he : e ≤ e') : averageApplicable A U row b e ≤ averageApplicable A U row b' e' := by
  simp only [averageApplicable, addApplicable_fst]
  split_ifs
  all_goals first
    | exact le_refl _
    | exact A.div_mono (by positivity)
        (addApplicable_mono _ he (addApplicable_mono _ hb (le_refl _)))

theorem techniqueScore_mono {t t' : Text} (applicable cell : Cell)
    (h : ∀ v ∈ splitValues U cell, containsValue U t v → containsValue U t' v) :
    (techniqueScore A U t applicable cell).1 ≤ (techniqueScore A U t' applicable cell).1 ∧
    (techniqueScore A U t applicable cell).2.1 ≤ (techniqueScore A U t' applicable cell).2.1 ∧
    (techniqueScore A U t applicable cell).2.2 = (techniqueScore A U t' applicable cell).2.2 := by
  unfold techniqueScore
  split_ifs
  · have hcount := List.countP_mono_left h
    refine ⟨?_, ?_, ?_⟩
    · rw [scoreExpectedValues_score, scoreExpectedValues_score]
      exact A.div_mono (by positivity) (by exact_mod_cast hcount)
    · rwa [scoreExpectedValues_matched, scoreExpectedValues_matched]
    · rw [scoreExpectedValues_total, scoreExpectedValues_total]
  · exact ⟨le_refl _, le_refl _, rfl⟩

theorem testScores_le {row : GroundTruthRow} {t t' : Text}
    (hbva : ∀ v ∈ splitValues U row.bvaExpectedValues, containsValue U t v → containsValue U t' v)
    (hecp : ∀ v ∈ splitValues U row.ecpExpectedValues,
      containsValue U t v → containsValue U t' v) :
    (testScores A U row t).Le (testScores A U row t') := by
  obtain ⟨hbs, hbm, hbt⟩ := techniqueScore_mono (A := A) row.bvaApplicable _ hbva
  obtain ⟨hes, hem, het⟩ := techniqueScore_mono (A := A) row.ecpApplicable _ hecp
  exact ⟨hbs, hbm, hbt, hes, hem, het, averageApplicable_mono row hbs hes⟩

end TTCEvaluation
