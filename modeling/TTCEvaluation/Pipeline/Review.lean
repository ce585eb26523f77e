import TTCEvaluation.Pipeline.Completion
import TTCEvaluation.Pipeline.Reachable

/-!
# What a review is needed for

The pre-annotation proposes a technique for every selected function that has
more than tests for equality.  But the marks that stages 04 and 05 write do not
count as `yes`: a template or a pre-annotation that is taken for the ground
truth as it stands applies no technique to any function and scores nothing.
-/

namespace TTCEvaluation.Pipeline

variable {U : UnicodeData}

/-! ## What is proposed -/

/-- Without `if` and `switch` the score needs a comparison: loop, test and length do not suffice. -/
theorem hasComparison_of_score {row : MetadataRow} (h : 7 ≤ scoreFunction row)
    (hif : row.hasIf = false) (hswitch : row.hasSwitch = false) : row.hasComparison = true := by
  by_contra hnone
  unfold scoreFunction at h
  simp only [hif, hswitch, hnone, Bool.false_eq_true, if_false] at h
  split_ifs at h <;> omega

theorem hasPartitionLogic_of_keyword {code keyword : Text} (hmem : keyword ∈ partitionKeywords)
    (h : keyword <:+: code) : hasPartitionLogic code = true :=
  List.any_eq_true.mpr ⟨keyword, hmem, decide_eq_true h⟩

theorem hasBoundaryLogic_of_operator {code operator : Text} (hmem : operator ∈ boundaryOperators)
    (h : operator <:+: code) : hasBoundaryLogic code = true :=
  List.any_eq_true.mpr ⟨operator, hmem, decide_eq_true h⟩

/-- A cell that scores enough shows a technique, or compares for equality only. -/
theorem logic_of_score {cell : CodeCell} {n : ℕ} (h : 7 ≤ scoreFunction (cell.metadataRow U n)) :
    hasBoundaryLogic cell.code = true ∨ hasPartitionLogic cell.code = true ∨
      "==".toList <:+: cell.code ∨ "!=".toList <:+: cell.code := by
  by_cases hif : "if".toList <:+: cell.code
  · exact Or.inr (Or.inl (hasPartitionLogic_of_keyword (by simp [partitionKeywords]) hif))
  by_cases hswitch : "switch".toList <:+: cell.code
  · exact Or.inr (Or.inl (hasPartitionLogic_of_keyword (by simp [partitionKeywords]) hswitch))
  have hcomparison := hasComparison_of_score h (decide_eq_false hif) (decide_eq_false hswitch)
  obtain ⟨operator, hmem, hinfix⟩ := List.any_eq_true.mp hcomparison
  have hinfix := of_decide_eq_true hinfix
  simp only [List.mem_cons, List.not_mem_nil, or_false] at hmem
  rcases hmem with rfl | rfl | rfl | rfl | rfl | rfl
  · exact Or.inl (hasBoundaryLogic_of_operator (by simp [boundaryOperators]) hinfix)
  · exact Or.inl (hasBoundaryLogic_of_operator (by simp [boundaryOperators]) hinfix)
  · exact Or.inr (Or.inr (Or.inl hinfix))
  · exact Or.inr (Or.inr (Or.inr hinfix))
  · exact Or.inl (hasBoundaryLogic_of_operator (by simp [boundaryOperators]) hinfix)
  · exact Or.inl (hasBoundaryLogic_of_operator (by simp [boundaryOperators]) hinfix)

theorem proposed_of_logic (U : UnicodeData) (order : SetOrder) {code : Text} (row : AnnotationRow)
    (h : hasBoundaryLogic code = true ∨ hasPartitionLogic code = true ∨
      "==".toList <:+: code ∨ "!=".toList <:+: code) :
    (preannotate U order code row).bvaApplicable = some "review_yes".toList ∨
      (preannotate U order code row).ecpApplicable = some "review_yes".toList ∨
      hasBoundaryLogic code = false ∧ hasPartitionLogic code = false ∧
        ("==".toList <:+: code ∨ "!=".toList <:+: code) := by
  obtain ⟨hbva, hecp⟩ := preannotate_marks (U := U) order code row
  by_cases hboundary : hasBoundaryLogic code = true
  · rw [if_pos hboundary] at hbva
    exact Or.inl hbva
  by_cases hpartition : hasPartitionLogic code = true
  · rw [if_pos hpartition] at hecp
    exact Or.inr (Or.inl hecp)
  have hequality := (h.resolve_left hboundary).resolve_left hpartition
  exact Or.inr (Or.inr
    ⟨eq_false_of_ne_true hboundary, eq_false_of_ne_true hpartition, hequality⟩)

/-- After stages 01 to 05 every selected function is proposed for a technique, unless its source
compares for equality only and branches nowhere. -/
theorem selected_proposed (T : Tools) (events : List Event) (w : Workspace)
    (h : ∀ s ∈ datasetStages, Ran T s events w) :
    ∃ final pre, (after events w).tables .finalSelected = some final ∧
      (after events w).tables .preannotated = some pre ∧
      List.Forall₂ (fun c row => row.id = c.row.id ∧
          ∃ code, (after events w).files c.row.functionFile = some code ∧
            (row.bvaApplicable = some "review_yes".toList ∨
              row.ecpApplicable = some "review_yes".toList ∨
              hasBoundaryLogic code = false ∧ hasPartitionLogic code = false ∧
                ("==".toList <:+: code ∨ "!=".toList <:+: code)))
        final.rows pre.rows := by
  simp only [datasetStages, List.forall_mem_cons] at h
  obtain ⟨h₁, h₂, h₃, h₄, h₅, -⟩ := h
  obtain ⟨hmetadata, hfiles⟩ := h₁.upToDate.metadata
  have hselected := h₂.upToDate.selected hmetadata
  have hfinal := (h₃.upToDate.final hselected).1
  have htemplate := h₄.upToDate.template hfinal
  refine ⟨_, _, hfinal, h₅.upToDate.preannotated htemplate, ?_⟩
  change List.Forall₂ _ _ (((List.map _ _).map AnnotationRow.reread).map _)
  rw [List.map_map, List.map_map, List.forall₂_map_right_iff, List.forall₂_same,
    rows_finalTable]
  intro c hc
  obtain ⟨hrow, hscore, hgood⟩ := selectionScore_of_mem_selectCandidates (List.mem_of_mem_take hc)
  obtain ⟨_, hmem, hrow⟩ := List.mem_map.mp hrow
  obtain ⟨p, hp, rfl⟩ := List.mem_map.mp hmem
  have hcode : (after events w).files c.row.functionFile = some p.1.code := by
    rw [← hrow, ← hfiles]
    exact files_functionFile hp
  have hlogic : hasBoundaryLogic p.1.code = true ∨ hasPartitionLogic p.1.code = true ∨
      "==".toList <:+: p.1.code ∨ "!=".toList <:+: p.1.code := by
    apply logic_of_score (U := T.unicode) (n := p.2)
    rw [hscore, ← hrow] at hgood
    exact hgood
  have hread : readCode (after events w).files c.row.functionFile = p.1.code := by
    rw [readCode, hcode]
    rfl
  obtain ⟨hid, -, -⟩ := preannotate_function (U := T.unicode) T.setOrder p.1.code
    (templateRow c.row.read.id c.row.read.functionName c.row.read.functionFile).reread
  have hproposed := proposed_of_logic T.unicode T.setOrder
    (templateRow c.row.read.id c.row.read.functionName c.row.read.functionFile).reread hlogic
  rw [← hread] at hid hproposed
  refine ⟨hid, _, hcode, ?_⟩
  rw [← hread]
  exact hproposed

theorem selected_proposed_sample :
    ∃ final pre, (after sampleHistory (.initial [])).tables .finalSelected = some final ∧
      (after sampleHistory (.initial [])).tables .preannotated = some pre ∧
      List.Forall₂ (fun c row => row.id = c.row.id ∧
          ∃ code, (after sampleHistory (.initial [])).files c.row.functionFile = some code ∧
            (row.bvaApplicable = some "review_yes".toList ∨
              row.ecpApplicable = some "review_yes".toList ∨
              hasBoundaryLogic code = false ∧ hasPartitionLogic code = false ∧
                ("==".toList <:+: code ∨ "!=".toList <:+: code)))
        final.rows pre.rows :=
  selected_proposed plainTools sampleHistory (.initial []) fun s _ => ran_sampleHistory s

/-! ## What counts -/

theorem Unreviewed.isYes_eq_false {mark : Cell} (h : Unreviewed mark) (U : UnicodeData) :
    isYes U (handOff mark) = false := by
  have hlower {t : Text} (ht : ∀ c ∈ t, isAscii c) (hne : t.map Char.toLower ≠ "yes".toList) :
      decide (U.lower t = "yes".toList) = false := by
    rw [U.lower_of_ascii ht]
    exact decide_eq_false hne
  unfold isYes
  rcases h with rfl | rfl | rfl
  · exact hlower (t := "nan".toList) (forall_mem_of_all (by decide)) (by decide)
  · have hread : handOff (some "review_yes".toList) = some "review_yes".toList := by decide
    rw [hread]
    exact hlower (t := "review_yes".toList) (forall_mem_of_all (by decide)) (by decide)
  · have hread : handOff (some "review_no".toList) = some "review_no".toList := by decide
    rw [hread]
    exact hlower (t := "review_no".toList) (forall_mem_of_all (by decide)) (by decide)

/-- A row without a marked technique has the placeholders for its scores. -/
structure Placeholders (row : TtcRow) : Prop where
  bva : row.bvaScore = if row.testAvailable then 1 else 0
  ecp : row.ecpScore = if row.testAvailable then 1 else 0
  ttc : row.ttcScore = 0

theorem placeholders_scoreRow {A : Arithmetic} {row : GroundTruthRow}
    (hbva : isYes U row.bvaApplicable = false) (hecp : isYes U row.ecpApplicable = false)
    (found : Option TestFile) : Placeholders (scoreRow A U row found) := by
  have hone {applicable : Cell} (h : isYes U applicable = false) (t : Text) (cell : Cell) :
      A.round (techniqueScore A U t applicable cell).1 3 = 1 := by
    rw [techniqueScore, if_neg (by simp [h])]
    exact A.round_one 3
  cases found with
  | none => exact ⟨rfl, rfl, rfl⟩
  | some file =>
      refine ⟨hone hbva _ _, hone hecp _ _, ?_⟩
      change A.round (averageApplicable A U row _ _) 3 = 0
      rw [averageApplicable_of_none hbva hecp]
      exact A.round_zero 3

theorem truthRows_unreviewed {files : Text → Option Text} {gt : SourceTable annotationSources}
    (h : AnnotationsSound files gt.rows) (U : UnicodeData) :
    ∀ row ∈ truthRows gt,
      isYes U row.bvaApplicable = false ∧ isYes U row.ecpApplicable = false :=
  List.forall_mem_map.mpr fun row hrow =>
    ⟨(h.unreviewed row hrow).1.isYes_eq_false U, (h.unreviewed row hrow).2.isYes_eq_false U⟩

/-- In every folder that can arise, the template and the pre-annotation mark nothing: evaluated as
they are, all total scores are zero, whatever the tests, no function counts as applicable, and every
function with a test has the placeholder one for both techniques. -/
theorem unreviewed_scores (raw : List ParquetTable) (events : List Event)
    {gt : SourceTable annotationSources}
    (h : (after events (.initial raw)).tables .template = some gt ∨
      (after events (.initial raw)).tables .preannotated = some gt) (T : Tools) (dir : TestDir) :
    (∀ row ∈ ttcTable T dir gt, Placeholders row) ∧
      ("BVA applicable functions".toList, 0) ∈
        datasetSummary T.unicode (truthRows gt) (ttcTable T dir gt) ∧
      ("ECP applicable functions".toList, 0) ∈
        datasetSummary T.unicode (truthRows gt) (ttcTable T dir gt) := by
  have hsound : AnnotationsSound (after events (.initial raw)).files gt.rows := by
    rcases h with h | h
    · exact (sound_after raw events).tables .template gt h
    · exact (sound_after raw events).tables .preannotated gt h
  have hmarks := truthRows_unreviewed hsound T.unicode
  have hbva : (truthRows gt).countP (fun row => isYes T.unicode row.bvaApplicable) = 0 :=
    List.countP_eq_zero.mpr fun row hrow => by simp [(hmarks row hrow).1]
  have hecp : (truthRows gt).countP (fun row => isYes T.unicode row.ecpApplicable) = 0 :=
    List.countP_eq_zero.mpr fun row hrow => by simp [(hmarks row hrow).2]
  refine ⟨List.forall_mem_map.mpr fun row hrow => ?_, ?_, ?_⟩
  · exact placeholders_scoreRow (hmarks row hrow).1 (hmarks row hrow).2 _
  · simp [datasetSummary, hbva]
  · simp [datasetSummary, hecp]

theorem rows_template_eq_nil_iff {T : Tools} {metadata : SourceTable rowSources}
    {files : Text → Option Text} :
    (templateTable (finalTable (selectedTable T metadata) files)).rows = [] ↔
      (selectCandidates T.sortValues (metadata.rows.map MetadataRow.rewrite)).take 60 = [] := by
  have hselected : (templateTable (finalTable (selectedTable T metadata) files)).rows = [] ↔
      ((selectCandidates T.sortValues (metadata.rows.map MetadataRow.rewrite)).map
        Candidate.rewrite).take 60 = [] :=
    List.map_eq_nil_iff
  rw [hselected, ← List.map_take, List.map_eq_nil_iff]

/-- The function of the sample code is selected. -/
theorem sampleTemplate_ne_nil (files : Text → Option Text) :
    (templateTable (finalTable (selectedTable plainTools
      (cellTable asciiData [singleTable sampleCode])) files)).rows ≠ [] := by
  have hblank : strip sampleCode ≠ [] := by decide
  have hscore : 7 ≤ scoreFunction ((singleCell sampleCode).metadataRow asciiData 1).rewrite := by
    decide +kernel
  have hrows : (cellTable asciiData [singleTable sampleCode]).rows =
      [(singleCell sampleCode).metadataRow asciiData 1] := by
    change cellRows asciiData (numberedCells asciiData [singleTable sampleCode]) = _
    rw [numberedCells_singleTable hblank]
    rfl
  have hlength := (isTopSelection_take plainTools.sortValues
    [((singleCell sampleCode).metadataRow asciiData 1).rewrite]).length_eq
  rw [List.countP_cons_of_pos (by simpa using hscore), List.countP_nil] at hlength
  rw [ne_eq, rows_template_eq_nil_iff, hrows, List.map_singleton]
  intro hnil
  rw [hnil] at hlength
  cases hlength

theorem unreviewed_scores_sample :
    ∃ gt, (after sampleHistory (.initial [])).tables .template = some gt ∧ gt.rows ≠ [] ∧
      (∀ row ∈ ttcTable plainTools sampleDir gt, Placeholders row) ∧
      ("BVA applicable functions".toList, 0) ∈
        datasetSummary asciiData (truthRows gt) (ttcTable plainTools sampleDir gt) ∧
      ("ECP applicable functions".toList, 0) ∈
        datasetSummary asciiData (truthRows gt) (ttcTable plainTools sampleDir gt) := by
  have hraw : (after sampleHistory (.initial [])).raw = [singleTable sampleCode] :=
    (fullHistory_end plainTools _ _ _ _).1
  obtain ⟨hmetadata, -⟩ := (ran_sampleHistory .buildMetadata).upToDate.metadata
  have hselected := (ran_sampleHistory .selectCandidateFunctions).upToDate.selected hmetadata
  have hfinal := ((ran_sampleHistory .createFinalDataset).upToDate.final hselected).1
  have htemplate := (ran_sampleHistory .createGroundTruthTemplate).upToDate.template hfinal
  refine ⟨_, htemplate, ?_, unreviewed_scores [] sampleHistory (Or.inl htemplate) plainTools _⟩
  rw [hraw]
  exact sampleTemplate_ne_nil _

end TTCEvaluation.Pipeline
