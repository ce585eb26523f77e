import TTCEvaluation.Evaluation.Agreement
import TTCEvaluation.Scoring.Lines
import TTCEvaluation.Tables.Monotone

/-!
# More tests never lower a reported score

If lines are added to the generated tests, or tests for functions that had
none, no row of the results table falls, and so none of the averages, medians
and extremes that stages 11 to 15 make of them.
-/

namespace TTCEvaluation

open Tables

/-- Neither cell of expected values has a line break. -/
def GroundTruthRow.OneLine (row : GroundTruthRow) : Prop :=
  (∀ text ∈ row.bvaExpectedValues, '\n' ∉ text) ∧ ∀ text ∈ row.ecpExpectedValues, '\n' ∉ text

/-- Each function that has a test in the first folder has one with all its lines in the second. -/
def Improves (dir dir' : TestDir) (gt : List GroundTruthRow) : Prop :=
  ∀ row ∈ gt, ∀ file ∈ findGeneratedTest dir row.id,
    ∃ file' ∈ findGeneratedTest dir' row.id, ∀ l ∈ lines file.readText, l ∈ lines file'.readText

/-- The same function, with recorded scores that are no less. -/
structure TtcRow.ScoresLe (row row' : TtcRow) : Prop where
  function_id : row.functionId = row'.functionId
  scores : ∀ column : ScoreColumn, column.value row ≤ column.value row'

/-- The same labels, with values that are no less. -/
def LabelledLe (l l' : List (Text × Option ℚ)) : Prop :=
  List.Forall₂ (fun p p' => p.1 = p'.1 ∧ Option.Rel (· ≤ ·) p.2 p'.2) l l'

structure SummaryRow.Le (row row' : SummaryRow) : Prop where
  metric : row.metric = row'.metric
  count : row.count = row'.count
  mean : Option.Rel (· ≤ ·) row.mean row'.mean
  median : Option.Rel (· ≤ ·) row.median row'.median
  min : Option.Rel (· ≤ ·) row.min row'.min
  max : Option.Rel (· ≤ ·) row.max row'.max

/-- No score that the reports show is less in the second ones: neither in the metrics, nor in the
figures, nor in the three score rows of the summary, nor in table 4.2. -/
structure Reports.ScoresLe (r r' : Reports) : Prop where
  metrics : LabelledLe (r.metrics.take 1) (r'.metrics.take 1)
  averages : LabelledLe r.figures.averageScores r'.figures.averageScores
  distribution : List.Forall₂ (· ≤ ·) r.figures.scoreDistribution r'.figures.scoreDistribution
  summary : List.Forall₂ SummaryRow.Le (r.summary.take 3) (r'.summary.take 3)
  table : LabelledLe r.thesis.ttcSummary r'.thesis.ttcSummary

variable {A : Arithmetic} {U : UnicodeData} {dir dir' : TestDir} {gt : List GroundTruthRow}
  {std std' : List ℚ → Option ℚ}

/-! ## One row -/

theorem TestScores.Le.value_le {row : GroundTruthRow} {file file' : TestFile}
    (h : (recordedScores A U row file.readText).Le (recordedScores A U row file'.readText))
    (column : ScoreColumn) :
    column.value (scoreTest A U row file) ≤ column.value (scoreTest A U row file') := by
  cases column with
  | bva => exact h.bva_score
  | ecp => exact h.ecp_score
  | ttc => exact h.ttc_score

theorem value_scoreRow_le {row : GroundTruthRow} (hrow : row.OneLine)
    {found found' : Option TestFile}
    (h : ∀ file ∈ found, ∃ file' ∈ found', ∀ l ∈ lines file.readText, l ∈ lines file'.readText)
    (column : ScoreColumn) :
    column.value (scoreRow A U row found) ≤ column.value (scoreRow A U row found') := by
  cases found with
  | none =>
      have hzero : column.value (scoreRow A U row none) = 0 := by cases column <;> rfl
      rw [hzero]
      exact ((scoreRow_inRange row found').value column).1
  | some file =>
      obtain ⟨file', rfl, hlines⟩ := h file rfl
      exact (recordedScores_le_of_lines hrow.1 hrow.2 hlines).value_le column

theorem forall₂_ttcRows (hrows : ∀ row ∈ gt, row.OneLine) (h : Improves dir dir' gt) :
    List.Forall₂ TtcRow.ScoresLe (ttcRows A U dir gt) (ttcRows A U dir' gt) := by
  rw [ttcRows, ttcRows, List.forall₂_map_left_iff, List.forall₂_map_right_iff, List.forall₂_same]
  intro row hrow
  exact
    { function_id := (scoreRow_functionId row _).trans (scoreRow_functionId row _).symm
      scores := value_scoreRow_le (hrows row hrow) (h row hrow) }

theorem forall₂_values {ttc ttc' : List TtcRow} (h : List.Forall₂ TtcRow.ScoresLe ttc ttc')
    (column : ScoreColumn) :
    List.Forall₂ (· ≤ ·) (ttc.map column.value) (ttc'.map column.value) := by
  rw [List.forall₂_map_left_iff, List.forall₂_map_right_iff]
  exact h.imp fun _ _ hrow => hrow.scores column

/-! ## The reports -/

theorem take_finalMetrics {ttc : List TtcRow} {compile : List CompileRow}
    {metrics : List (Text × Option ℚ)} (h : finalMetrics ttc compile = some metrics) :
    metrics.take 1 =
      [("Average TTC Score".toList, (mean (ttc.map TtcRow.ttcScore)).map (roundTo 4))] := by
  unfold finalMetrics at h
  split_ifs at h
  rw [← Option.some.inj h]
  rfl

section

variable {ttc ttc' : List TtcRow} {compile compile' : List CompileRow}
  (h : ∀ column : ScoreColumn,
    List.Forall₂ (· ≤ ·) (ttc.map column.value) (ttc'.map column.value))

include h

theorem summaryRow_le (column : ScoreColumn) :
    (summaryRow std column ttc).Le (summaryRow std' column ttc') where
  metric := rfl
  count := (h column).length_eq
  mean := rel_map (roundTo_mono 4) (mean_mono (h column))
  median := rel_map (roundTo_mono 4) (median_mono (h column))
  min := rel_map (roundTo_mono 4) (min_mono (h column))
  max := rel_map (roundTo_mono 4) (max_mono (h column))

theorem scoresLe {r r' : Reports} (hr : r ∈ reports U std gt ttc compile)
    (hr' : r' ∈ reports U std' gt ttc' compile') : r.ScoresLe r' := by
  obtain ⟨metrics, hmetrics, rfl⟩ := Option.map_eq_some_iff.mp hr
  obtain ⟨metrics', hmetrics', rfl⟩ := Option.map_eq_some_iff.mp hr'
  have hmean (column : ScoreColumn) := mean_mono (h column)
  have hrounded (column : ScoreColumn) := rel_map (roundTo_mono 4) (hmean column)
  exact
    { metrics := by
        rw [take_finalMetrics hmetrics, take_finalMetrics hmetrics']
        exact .cons ⟨rfl, hrounded .ttc⟩ .nil
      averages := .cons ⟨rfl, hmean .bva⟩ (.cons ⟨rfl, hmean .ecp⟩ (.cons ⟨rfl, hmean .ttc⟩ .nil))
      distribution := h .ttc
      summary := .cons (summaryRow_le h .bva)
        (.cons (summaryRow_le h .ecp) (.cons (summaryRow_le h .ttc) .nil))
      table := .cons ⟨rfl, hrounded .bva⟩ (.cons ⟨rfl, hrounded .ecp⟩
        (.cons ⟨rfl, hrounded .ttc⟩ (.cons ⟨rfl, rel_map (roundTo_mono 4) (min_mono (h .ttc))⟩
          (.cons ⟨rfl, rel_map (roundTo_mono 4) (max_mono (h .ttc))⟩ .nil)))) }

end

end TTCEvaluation
