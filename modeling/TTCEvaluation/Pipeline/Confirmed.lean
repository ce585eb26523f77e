import TTCEvaluation.Annotation.CellFormat
import TTCEvaluation.Pipeline.Growth

/-!
# A review that only confirms the marks

Stage 05 fills the boundary values in from the source, but the partition values
with a placeholder.  If the review only turns the proposed marks into `yes`,
stage 09 looks for the placeholder in the tests, and a function without two
constants has no boundary value that could be found.
-/

namespace TTCEvaluation.Pipeline

open Workflow

def confirmMark (mark : Cell) : Cell :=
  if mark = some "review_yes".toList then some "yes".toList else mark

def confirmMarks (row : AnnotationRow) : AnnotationRow :=
  { row with
    bvaApplicable := confirmMark row.bvaApplicable
    ecpApplicable := confirmMark row.ecpApplicable }

/-- The pre-annotation, read, with its marks confirmed. -/
def confirmedTable (pre : SourceTable annotationSources) : SourceTable annotationSources where
  rows := pre.rows.map fun row => confirmMarks row.reread
  extracted := by
    intro row hrow
    obtain ⟨original, horiginal, rfl⟩ := List.mem_map.mp hrow
    exact pre.extracted original horiginal

/-- The constants are proposed as boundary values if there are two of them. -/
def proposedConstants (constants : List Text) : List Text :=
  if 2 ≤ constants.length then constants else []

/-- What stage 09 makes of a function with the code and the constants, and of a test of it. -/
structure ConfirmedScores (A : Arithmetic) (U : UnicodeData) (code : Text) (constants : List Text)
    (test : Text) (row : TtcRow) : Prop where
  bva_total : hasBoundaryLogic code = true →
    row.bvaTotal = some (proposedConstants constants).length
  bva_matched : hasBoundaryLogic code = true →
    row.bvaMatched = some ((proposedConstants constants).countP (containsValue U test))
  bva_score : hasBoundaryLogic code = true →
    row.bvaScore = if proposedConstants constants = [] then 0 else
      A.round (A.div ((proposedConstants constants).countP (containsValue U test))
        (proposedConstants constants).length) 3
  ecp_total : hasPartitionLogic code = true → row.ecpTotal = some 1
  ecp_score : hasPartitionLogic code = true →
    row.ecpScore = if "reviewrequired".toList <:+: normalize U test then 1 else 0

variable {U : UnicodeData} {order : SetOrder} {A : Arithmetic}

/-! ## The confirmed row -/

theorem comma_notMem_of_missing : ∀ word ∈ missingWords, ',' ∉ word := by decide

theorem handOff_bvaExpectedCell (numbers : List Text) :
    handOff (bvaExpectedCell numbers) = bvaExpectedCell numbers := by
  unfold bvaExpectedCell
  split_ifs with h
  · refine readCell_of_notMem fun hmem => comma_notMem_of_missing _ hmem ?_
    match numbers, h with
    | a :: b :: rest, _ =>
        rw [List.intercalate_cons_cons, writeCell, Option.getD_some]
        simp
  · rfl

theorem handOff_mark (b : Bool) :
    handOff (confirmMark (handOff (some (if b then "review_yes".toList else "review_no".toList)))) =
      some (if b then "yes".toList else "review_no".toList) := by
  cases b <;> decide

theorem isYes_confirmed (U : UnicodeData) (b : Bool) :
    isYes U (some (if b then "yes".toList else "review_no".toList)) = b := by
  have hascii {t : Text} (ht : ∀ c ∈ t, isAscii c) : U.lower t = t.map Char.toLower :=
    U.lower_of_ascii ht
  cases b with
  | true =>
      apply decide_eq_true
      rw [cellStr, if_pos rfl, hascii (forall_mem_of_all (by decide))]
      decide
  | false =>
      apply decide_eq_false
      rw [cellStr, if_neg Bool.false_ne_true, hascii (forall_mem_of_all (by decide))]
      decide

/-- The ground truth that the evaluation reads for a function with the code. -/
theorem truth_confirmed (code : Text) {template : AnnotationRow}
    (htemplate : template.bvaExpectedValues = none) :
    (confirmMarks (preannotate U order code template).reread).reread.truth.bvaApplicable =
        some (if hasBoundaryLogic code then "yes".toList else "review_no".toList) ∧
      (confirmMarks (preannotate U order code template).reread).reread.truth.bvaExpectedValues =
        bvaExpectedCell (extractNumericConstants U order code) ∧
      (confirmMarks (preannotate U order code template).reread).reread.truth.ecpApplicable =
        some (if hasPartitionLogic code then "yes".toList else "review_no".toList) ∧
      (hasPartitionLogic code = true →
        (confirmMarks (preannotate U order code template).reread).reread.truth.ecpExpectedValues =
          some "review_required".toList) := by
  obtain ⟨hbva, hecp⟩ := preannotate_marks (U := U) order code template
  obtain ⟨hvalues, hplaceholder⟩ := preannotate_values (U := U) order code htemplate
  refine ⟨?_, ?_, ?_, fun hpartition => ?_⟩
  · change handOff (confirmMark (handOff (preannotate U order code template).bvaApplicable)) = _
    rw [hbva]
    exact handOff_mark _
  · change handOff (handOff (preannotate U order code template).bvaExpectedValues) = _
    rw [hvalues, handOff_bvaExpectedCell, handOff_bvaExpectedCell]
  · change handOff (confirmMark (handOff (preannotate U order code template).ecpApplicable)) = _
    rw [hecp]
    exact handOff_mark _
  · change handOff (handOff (preannotate U order code template).ecpExpectedValues) = _
    rw [hplaceholder hpartition]
    decide

/-! ## Its scores -/

theorem splitValues_placeholder (U : UnicodeData) :
    splitValues U (some "review_required".toList) = ["review_required".toList] := by
  have hstrip : strip "review_required".toList = "review_required".toList := by decide
  have hmark : '_' ∈ U.upper "review_required".toList :=
    UnicodeData.mem_upper_of_mem (by decide) (by decide) (by decide)
  have havailable : U.upper (strip "review_required".toList) ∉ [] :: notAvailable := by
    rw [hstrip]
    intro hmem
    simp only [notAvailable, List.mem_cons, List.not_mem_nil, or_false] at hmem
    rcases hmem with hmem | hmem | hmem <;> rw [hmem] at hmark <;> exact absurd hmark (by decide)
  rw [splitValues_of_available havailable]
  exact pieces_of_plain (by decide) hstrip (forall_mem_of_all (by decide))

theorem containsValue_placeholder_iff {t : Text} :
    containsValue U t "review_required".toList ↔ "reviewrequired".toList <:+: normalize U t := by
  have hmem : "review_required".toList ∈ splitValues U (some "review_required".toList) := by
    rw [splitValues_placeholder]
    exact List.mem_singleton_self _
  have hmark : '_' ∈ U.upper "review_required".toList :=
    UnicodeData.mem_upper_of_mem (by decide) (by decide) (by decide)
  have havailable : U.upper "review_required".toList ∉ notAvailable := by
    intro hmem
    simp only [notAvailable, List.mem_cons, List.not_mem_nil, or_false] at hmem
    rcases hmem with hmem | hmem <;> rw [hmem] at hmark <;> exact absurd hmark (by decide)
  have hnormal : normalize U "review_required".toList = "reviewrequired".toList := by
    unfold normalize
    rw [U.lower_of_ascii (forall_mem_of_all (by decide))]
    decide
  rw [containsValue_iff (ne_nil_of_mem_splitValues hmem) (strip_of_mem_splitValues hmem), hnormal]
  exact and_iff_right havailable

theorem scoreExpectedValues_placeholder (A : Arithmetic) (U : UnicodeData) (t : Text) :
    (scoreExpectedValues A U t (some "review_required".toList)).1 =
        (if "reviewrequired".toList <:+: normalize U t then 1 else 0) ∧
      (scoreExpectedValues A U t (some "review_required".toList)).2.2 = 1 := by
  rw [scoreExpectedValues_score, scoreExpectedValues_total, splitValues_placeholder]
  refine ⟨?_, rfl⟩
  by_cases h : "reviewrequired".toList <:+: normalize U t
  · rw [if_pos h, List.countP_singleton, if_pos (containsValue_placeholder_iff.mpr h)]
    exact A.div_same (by simp)
  · rw [if_neg h, List.countP_singleton, if_neg fun hin => h (containsValue_placeholder_iff.mp hin)]
    simp [Arithmetic.div]

theorem confirmedScores_scoreTest (A : Arithmetic) (U : UnicodeData) (order : SetOrder) (code : Text)
    {template : AnnotationRow} (htemplate : template.bvaExpectedValues = none) (file : TestFile) :
    ConfirmedScores A U code (extractNumericConstants U order code) file.readText
      (scoreTest A U (confirmMarks (preannotate U order code template).reread).reread.truth
        file) := by
  obtain ⟨hbva, hbvaValues, hecp, hecpValues⟩ :=
    @truth_confirmed U order code template htemplate
  generalize (confirmMarks (preannotate U order code template).reread).reread.truth = row at *
  have hbvaYes := isYes_confirmed U (hasBoundaryLogic code)
  have hecpYes := isYes_confirmed U (hasPartitionLogic code)
  rw [← hbva] at hbvaYes
  rw [← hecp] at hecpYes
  have hboundary (h : hasBoundaryLogic code = true) :
      techniqueScore A U file.readText row.bvaApplicable row.bvaExpectedValues =
        scoreExpectedValues A U file.readText
          (bvaExpectedCell (extractNumericConstants U order code)) := by
    rw [techniqueScore, if_pos (hbvaYes.trans h), hbvaValues]
  have hpartition (h : hasPartitionLogic code = true) :
      techniqueScore A U file.readText row.ecpApplicable row.ecpExpectedValues =
        scoreExpectedValues A U file.readText (some "review_required".toList) := by
    rw [techniqueScore, if_pos (hecpYes.trans h), hecpValues h]
  have hvalues : splitValues U (bvaExpectedCell (extractNumericConstants U order code)) =
      proposedConstants (extractNumericConstants U order code) := by
    unfold proposedConstants
    split_ifs with hlength
    · exact splitValues_bvaExpectedCell hlength
    · rw [bvaExpectedCell, if_neg hlength]
      rfl
  obtain ⟨hscore, htotal⟩ := scoreExpectedValues_placeholder A U file.readText
  refine ⟨fun h => ?_, fun h => ?_, fun h => ?_, fun h => ?_, fun h => ?_⟩
  · change some (techniqueScore A U file.readText row.bvaApplicable row.bvaExpectedValues).2.2 = _
    rw [hboundary h, scoreExpectedValues_total, hvalues]
  · change some (techniqueScore A U file.readText row.bvaApplicable row.bvaExpectedValues).2.1 = _
    rw [hboundary h, scoreExpectedValues_matched, hvalues]
  · change A.round (techniqueScore A U file.readText row.bvaApplicable row.bvaExpectedValues).1 3 = _
    rw [hboundary h]
    split_ifs with hnone
    · rw [scoreExpectedValues_of_nil (hvalues.trans hnone)]
      exact A.round_zero 3
    · rw [scoreExpectedValues_score, hvalues]
  · change some (techniqueScore A U file.readText row.ecpApplicable row.ecpExpectedValues).2.2 = _
    rw [hpartition h, htotal]
  · change A.round (techniqueScore A U file.readText row.ecpApplicable row.ecpExpectedValues).1 3 = _
    rw [hpartition h, hscore]
    split_ifs
    · exact A.round_one 3
    · exact A.round_zero 3

/-- If the review of an up-to-date pre-annotation only confirms the marks, stage 09 scores the boundary
values over the constants of the source, or over nothing if there are less than two, and finds the
partition values exactly in the tests that quote the placeholder. -/
theorem confirmed_scores (T : Tools) (events : List Event) (w : Workspace)
    (h : ∀ s ∈ datasetStages, Ran T s events w) (dir : TestDir) :
    ∃ pre, (after events w).tables .preannotated = some pre ∧
      List.Forall₂ (fun row ttc => ttc.functionId = row.id ∧
          ∀ code, (after events w).files row.functionFile = some code →
            ∀ file, findGeneratedTest dir row.id = some file →
              ConfirmedScores T.arithmetic T.unicode code
                (extractNumericConstants T.unicode T.setOrder code) file.readText ttc)
        pre.rows (ttcTable T dir (confirmedTable pre)) := by
  simp only [datasetStages, List.forall_mem_cons] at h
  obtain ⟨h₁, h₂, h₃, h₄, h₅, -⟩ := h
  obtain ⟨hmetadata, -⟩ := h₁.upToDate.metadata
  have hselected := h₂.upToDate.selected hmetadata
  have hfinal := (h₃.upToDate.final hselected).1
  have htemplate := h₄.upToDate.template hfinal
  refine ⟨_, h₅.upToDate.preannotated htemplate, ?_⟩
  change List.Forall₂ _ _ (List.map _ (List.map _ (List.map _ _)))
  rw [List.map_map, List.map_map, List.forall₂_map_right_iff, List.forall₂_same]
  intro row hrow
  refine ⟨scoreRow_functionId _ _, fun code hcode file hfile => ?_⟩
  obtain ⟨template, hmem, rfl⟩ := List.mem_map.mp hrow
  have hempty : template.bvaExpectedValues = none := by
    obtain ⟨original, horiginal, rfl⟩ := List.mem_map.mp hmem
    obtain ⟨c, -, rfl⟩ := List.mem_map.mp horiginal
    rfl
  rw [(preannotate_function T.setOrder _ _).2.2] at hcode
  have hread : readCode (after events w).files template.functionFile = code := by
    rw [readCode, hcode]
    rfl
  rw [hread] at hfile ⊢
  have hscores := confirmedScores_scoreTest T.arithmetic T.unicode T.setOrder code hempty file
  have hfound : findGeneratedTest dir
      (confirmMarks (preannotate T.unicode T.setOrder code template).reread).reread.truth.id =
        some file := hfile
  change ConfirmedScores _ _ _ _ _ (scoreRow _ _
    (confirmMarks (preannotate T.unicode T.setOrder code template).reread).reread.truth
    (findGeneratedTest dir
      (confirmMarks (preannotate T.unicode T.setOrder code template).reread).reread.truth.id))
  rw [hfound]
  exact hscores

/-- The sample run, with a test of its function. -/
theorem confirmed_scores_sample :
    ∃ pre, (after sampleHistory (.initial [])).tables .preannotated = some pre ∧
      List.Forall₂ (fun row ttc => ttc.functionId = row.id ∧
          ∀ code, (after sampleHistory (.initial [])).files row.functionFile = some code →
            ∀ file, findGeneratedTest sampleDir row.id = some file →
              ConfirmedScores .binary64 asciiData code
                (extractNumericConstants asciiData .plain code) file.readText ttc)
        pre.rows (ttcTable plainTools sampleDir (confirmedTable pre)) :=
  confirmed_scores plainTools sampleHistory (.initial []) (fun s _ => ran_sampleHistory s) sampleDir

end TTCEvaluation.Pipeline
