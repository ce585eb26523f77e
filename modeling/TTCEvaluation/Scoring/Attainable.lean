import TTCEvaluation.Scoring.Rows

/-!
# Attaining the full score

A test that quotes the expected-values cells is credited with every value in
them, except for the not-available marks, which no test is credited with, and
for values with a carriage return, which no test has once it is read.
-/

namespace TTCEvaluation

open Segments

/-- The text that quotes both expected-values cells, one a line. -/
def quoteCells (row : GroundTruthRow) : Text :=
  row.bvaExpectedValues.getD [] ++ '\n' :: row.ecpExpectedValues.getD []

section

variable (U : UnicodeData)

/-- The cell lists at least one value, and no value in it is a not-available mark or has a carriage
return. -/
def Creditable (cell : Cell) : Prop :=
  splitValues U cell ≠ [] ∧ ∀ v ∈ splitValues U cell, U.upper v ∉ notAvailable ∧ '\r' ∉ v

end

variable {A : Arithmetic} {U : UnicodeData}

/-- A value without a carriage return that is quoted in a file is found when the file is read. -/
theorem containsValue_of_delimitedIn {text v t : Text} (hv : v ∈ splitValues U (some text))
    (hna : U.upper v ∉ notAvailable) (hreturn : '\r' ∉ v)
    (ht : DelimitedIn endsCaseContext text t) : containsValue U (universalNewlines t) v := by
  have hne : v ≠ [] := ne_nil_of_mem_splitValues hv
  have hstrip : strip v = v := strip_of_mem_splitValues hv
  have hhead : v.head? ≠ some '\n' := by
    intro hhead
    obtain ⟨rest, rfl⟩ := List.head?_eq_some_iff.mp hhead
    have hbreak : ∀ c ∈ ['\n'], isSpace c := List.forall_mem_singleton.mpr (by decide)
    have hrest : strip rest = '\n' :: rest := (trim_append_left hbreak).symm.trans hstrip
    have hlength := (delimitedIn_trim isSpace rest).isInfix.length_le
    change (strip rest).length ≤ rest.length at hlength
    rw [hrest, List.length_cons] at hlength
    omega
  have hquoted := (delimitedIn_of_mem_splitValues hv).trans ht
  rw [containsValue_iff hne hstrip]
  exact ⟨hna, normalize_infix_of_delimitedIn
    (delimitedIn_universalNewlines hne hreturn hhead hquoted)⟩

theorem techniqueScore_of_quoted {applicable cell : Cell} {t : Text} (hyes : isYes U applicable)
    (hcell : Creditable U cell) (ht : DelimitedIn endsCaseContext (cell.getD []) t) :
    techniqueScore A U (universalNewlines t) applicable cell =
      (1, (splitValues U cell).length, (splitValues U cell).length) := by
  rw [techniqueScore, if_pos hyes]
  apply scoreExpectedValues_of_all hcell.1
  intro v hv
  cases cell with
  | none => simp [splitValues] at hv
  | some text => exact containsValue_of_delimitedIn hv (hcell.2 v hv).1 (hcell.2 v hv).2 ht

theorem bva_delimitedIn_quoteCells (row : GroundTruthRow) :
    DelimitedIn endsCaseContext (row.bvaExpectedValues.getD []) (quoteCells row) :=
  (DelimitedIn.refl _).append_right (by simp; decide)

theorem ecp_delimitedIn_quoteCells (row : GroundTruthRow) :
    DelimitedIn endsCaseContext (row.ecpExpectedValues.getD []) (quoteCells row) := by
  have h := (DelimitedIn.refl (p := endsCaseContext) (row.ecpExpectedValues.getD [])).append_left
    (s := row.bvaExpectedValues.getD [] ++ ['\n']) (by simp; decide)
  simpa [quoteCells] using h

theorem averageApplicable_of_full {row : GroundTruthRow} {b e : ℚ}
    (hyes : isYes U row.bvaApplicable ∨ isYes U row.ecpApplicable)
    (hb : isYes U row.bvaApplicable → b = 1) (he : isYes U row.ecpApplicable → e = 1) :
    averageApplicable A U row b e = 1 := by
  have htwo : A.add 1 1 = 2 := by
    rw [Arithmetic.add, one_add_one_eq_two, A.fl_two]
  have hone : A.add 0 1 = 1 := by
    rw [Arithmetic.add, zero_add, A.fl_one]
  unfold averageApplicable addApplicable
  by_cases hbva : isYes U row.bvaApplicable
  · by_cases hecp : isYes U row.ecpApplicable
    · simp [hbva, hecp, hb hbva, he hecp, hone, htwo, A.div_same]
    · simp [hbva, hecp, hb hbva, hone, A.div_same]
  · have hecp := hyes.resolve_left hbva
    simp [hbva, hecp, he hecp, hone, A.div_same]

theorem testScores_quoteCells {row : GroundTruthRow}
    (hyes : isYes U row.bvaApplicable ∨ isYes U row.ecpApplicable)
    (hbva : isYes U row.bvaApplicable → Creditable U row.bvaExpectedValues)
    (hecp : isYes U row.ecpApplicable → Creditable U row.ecpExpectedValues) :
    (testScores A U row (universalNewlines (quoteCells row))).ttcScore = 1 := by
  refine averageApplicable_of_full hyes (fun h => ?_) (fun h => ?_)
  · rw [techniqueScore_of_quoted h (hbva h) (bva_delimitedIn_quoteCells row)]
  · rw [techniqueScore_of_quoted h (hecp h) (ecp_delimitedIn_quoteCells row)]

theorem techniqueScore_of_no_values {applicable cell : Cell} (hyes : isYes U applicable)
    (hcell : splitValues U cell = []) (t : Text) :
    techniqueScore A U t applicable cell = (0, 0, 0) := by
  rw [techniqueScore, if_pos hyes, scoreExpectedValues_of_nil hcell]

/-- A file that quotes the cells attains the full score when every technique marked `yes` has values,
and no not-available mark or carriage return among them. -/
theorem full_score_attained (A : Arithmetic) (U : UnicodeData) (row : GroundTruthRow)
    (hyes : isYes U row.bvaApplicable ∨ isYes U row.ecpApplicable)
    (hbva : isYes U row.bvaApplicable → Creditable U row.bvaExpectedValues)
    (hecp : isYes U row.ecpApplicable → Creditable U row.ecpExpectedValues) (name : Text) :
    (testScores A U row (universalNewlines (quoteCells row))).ttcScore = 1 ∧
      (scoreTest A U row ⟨name, quoteCells row⟩).ttcScore = 1 := by
  have hfull := testScores_quoteCells (A := A) hyes hbva hecp
  refine ⟨hfull, ?_⟩
  change A.round (testScores A U row (universalNewlines (quoteCells row))).ttcScore 3 = 1
  rw [hfull, A.round_one]

def attainableRow : GroundTruthRow where
  id := "function_0347".toList
  functionName := some "Hash".toList
  bvaApplicable := some "yes".toList
  bvaExpectedValues := some "-1, 0; x = 1".toList
  ecpApplicable := some "no".toList
  ecpExpectedValues := none

theorem full_score_attained_sample :
    (scoreTest .binary64 asciiData attainableRow
      ⟨"function_0347_Hash_gpt_test.cpp".toList, quoteCells attainableRow⟩).ttcScore = 1 :=
  (full_score_attained .binary64 asciiData attainableRow (by decide)
    (fun _ => ⟨by decide, by decide⟩) (fun h => absurd h (by decide)) _).2

/-! ## Rows that no test can score fully -/

def emptyCellRow : GroundTruthRow := { attainableRow with bvaExpectedValues := none }

def markedCellRow : GroundTruthRow :=
  { attainableRow with bvaExpectedValues := some "1,NA".toList }

def returnCellRow : GroundTruthRow :=
  { attainableRow with bvaExpectedValues := some "a\r\nb; c".toList }

theorem ttcScore_emptyCellRow (t : Text) :
    (recordedScores .exact asciiData emptyCellRow t).ttcScore = 0 := by
  have hbva : isYes asciiData emptyCellRow.bvaApplicable = true := by decide
  have hecp : isYes asciiData emptyCellRow.ecpApplicable = false := by decide
  have hnil : splitValues asciiData emptyCellRow.bvaExpectedValues = [] := rfl
  have hzero := techniqueScore_of_no_values (A := .exact) hbva hnil t
  simp [recordedScores, TestScores.rounded, testScores, averageApplicable, addApplicable, hbva,
    hecp, hzero, Arithmetic.add, Arithmetic.div]

/-- With two boundary values of which one is never found, the score is a half at most. -/
theorem ttcScore_of_unfound {row : GroundTruthRow} {t v u : Text}
    (hbva : isYes asciiData row.bvaApplicable = true)
    (hecp : isYes asciiData row.ecpApplicable = false)
    (hvalues : splitValues asciiData row.bvaExpectedValues = [v, u])
    (hunfound : containsValue asciiData t v = false ∨ containsValue asciiData t u = false) :
    (recordedScores .exact asciiData row t).ttcScore ≤ 1 / 2 := by
  have hcount : [v, u].countP (containsValue asciiData t) ≤ 1 := by
    rw [List.countP_cons, List.countP_cons, List.countP_nil]
    rcases hunfound with h | h
    · rw [h, if_neg Bool.false_ne_true]
      split_ifs <;> decide
    · rw [h, if_neg Bool.false_ne_true]
      split_ifs <;> decide
  have hcast : ([v, u].countP (containsValue asciiData t) : ℚ) ≤ 1 := by exact_mod_cast hcount
  have hscore : (scoreExpectedValues .exact asciiData t row.bvaExpectedValues).1 ≤ 1 / 2 := by
    rw [scoreExpectedValues_score, hvalues]
    exact div_le_div_of_nonneg_right hcast (by norm_num)
  have htotal : (testScores .exact asciiData row t).ttcScore ≤ 1 / 2 := by
    simpa [testScores, averageApplicable, addApplicable, techniqueScore, hbva, hecp, Arithmetic.add,
      Arithmetic.div, Arithmetic.exact] using hscore
  have hhalf : Arithmetic.exact.round (1 / 2) 3 = 1 / 2 := by decide +kernel
  exact (Arithmetic.exact.round_mono 3 htotal).trans_eq hhalf

theorem ttcScore_markedCellRow (t : Text) :
    (recordedScores .exact asciiData markedCellRow t).ttcScore ≤ 1 / 2 :=
  ttcScore_of_unfound (v := "1".toList) (u := "NA".toList) (by decide) (by decide) (by decide)
    (Or.inr rfl)

theorem ttcScore_returnCellRow (t : Text) :
    (recordedScores .exact asciiData returnCellRow (universalNewlines t)).ttcScore ≤ 1 / 2 := by
  refine ttcScore_of_unfound (v := "a\r\nb".toList) (u := "c".toList) (by decide) (by decide)
    (by decide) (Or.inl ?_)
  have hreturn : '\r' ∈ normalize asciiData "a\r\nb".toList := by decide
  apply Bool.eq_false_iff.mpr
  rw [ne_eq, containsValue_iff (by decide) (by decide)]
  intro h
  have hmem := h.2.subset hreturn
  rw [normalize_eq_filter, List.mem_filter] at hmem
  exact carriageReturn_notMem t (UnicodeData.mem_of_mem_lower (by decide) (by decide) hmem.1)

/-- No file attains the full score for a row without values, for one with a not-available mark in its
list, or for one with a carriage return in a value. -/
theorem full_score_not_always_attainable :
    (¬∀ (A : Arithmetic) (U : UnicodeData) (row : GroundTruthRow),
      isYes U row.bvaApplicable ∨ isYes U row.ecpApplicable →
        ∃ file, (scoreTest A U row file).ttcScore = 1) ∧
    ∀ file, (scoreTest .exact asciiData emptyCellRow file).ttcScore ≠ 1 ∧
      (scoreTest .exact asciiData markedCellRow file).ttcScore ≠ 1 ∧
      (scoreTest .exact asciiData returnCellRow file).ttcScore ≠ 1 := by
  have hempty (file : TestFile) : (scoreTest .exact asciiData emptyCellRow file).ttcScore ≠ 1 := by
    have hzero := ttcScore_emptyCellRow file.readText
    exact fun h => absurd (hzero.symm.trans h) (by norm_num)
  refine ⟨fun h => ?_, fun file => ⟨hempty file, fun h => ?_, fun h => ?_⟩⟩
  · obtain ⟨file, hfile⟩ := h .exact asciiData emptyCellRow (by decide)
    exact hempty file hfile
  · exact absurd (h.symm.trans_le (ttcScore_markedCellRow file.readText)) (by norm_num)
  · exact absurd (h.symm.trans_le (ttcScore_returnCellRow file.content)) (by norm_num)

end TTCEvaluation
