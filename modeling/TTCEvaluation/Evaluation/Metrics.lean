import TTCEvaluation.Evaluation.Reports

/-!
# The reported numbers

Stages 11, 13 and 15 report the average total score and the share of tests that
compile, each by a formula of its own.  The scores are rounded once in each row
and the results once more; this moves the average by half a unit of the third
decimal and half a unit of the fourth at most.
-/

namespace TTCEvaluation

open Tables

/-- The number of tests that compile: a sum of Booleans. -/
def compiledTests (compile : List CompileRow) : ℕ :=
  (compile.map fun row => if row.compileSuccess then 1 else 0).sum

/-! ## Stage 11 -/

/-- The metrics with their names; the division stops the script on an empty table. -/
def finalMetrics (ttc : List TtcRow) (compile : List CompileRow) :
    Option (List (Text × Option ℚ)) :=
  if compile = [] then none
  else
    let avgTtc := mean (ttc.map TtcRow.ttcScore)
    let compileRate : ℚ := compiledTests compile / compile.length * 100
    some
      [("Average TTC Score".toList, avgTtc.map (roundTo 4)),
        ("Compile Success Rate (%)".toList, some (roundTo 2 compileRate)),
        ("Functions Evaluated".toList, some (ttc.length : ℚ))]

def metricValue (metric : Text) (ttc : List TtcRow) (compile : List CompileRow) : Option ℚ :=
  ((finalMetrics ttc compile).bind (·.find? (·.1 = metric))).bind Prod.snd

/-! ## Stage 13 -/

def summaryRate (std : List ℚ → Option ℚ) (ttc : List TtcRow) (compile : List CompileRow) :
    Option ℚ :=
  ((statisticalSummary std ttc compile).find? (·.metric = "compile_success_rate".toList)).bind
    SummaryRow.mean

/-! ## Table 4.3 -/

def compileSummary (compile : List CompileRow) : List (Text × ℚ) :=
  let totalCompile := compile.length
  let compiled := compiledTests compile
  let failed : ℤ := totalCompile - compiled
  [("Total generated tests".toList, totalCompile),
    ("Compiled successfully".toList, compiled),
    ("Compile failures".toList, failed),
    ("Compile success rate (%)".toList,
      if totalCompile = 0 then 0 else roundTo 2 (compiled / totalCompile * 100))]

def tableRate (compile : List CompileRow) : Option ℚ :=
  ((compileSummary compile).find? (·.1 = "Compile success rate (%)".toList)).map Prod.snd

/-! ## The three rates -/

/-- The percentage of tests that compile. -/
def exactRate (compile : List CompileRow) : ℚ :=
  100 * (compile.countP CompileRow.compileSuccess / compile.length)

variable {compile : List CompileRow} {ttc : List TtcRow}

theorem compiledTests_eq_countP (compile : List CompileRow) :
    compiledTests compile = compile.countP CompileRow.compileSuccess :=
  sum_map_boole CompileRow.compileSuccess compile

theorem compiledTests_rate (compile : List CompileRow) :
    (compiledTests compile : ℚ) / compile.length * 100 = exactRate compile := by
  rw [compiledTests_eq_countP, exactRate, mul_comm]

theorem metricValue_average (hcompile : compile ≠ []) :
    metricValue "Average TTC Score".toList ttc compile =
      (mean (ttc.map TtcRow.ttcScore)).map (roundTo 4) := by
  rw [metricValue, finalMetrics, if_neg hcompile]
  rfl

theorem metricValue_rate (hcompile : compile ≠ []) :
    metricValue "Compile Success Rate (%)".toList ttc compile =
      some (roundTo 2 (exactRate compile)) := by
  rw [metricValue, finalMetrics, if_neg hcompile, compiledTests_rate]
  rfl

theorem summaryRate_eq (std : List ℚ → Option ℚ) (hcompile : compile ≠ []) :
    summaryRate std ttc compile = some (roundTo 2 (exactRate compile)) := by
  have hrate : compileRate compile = some (exactRate compile) := by
    have hones : (compile.map fun row => if row.compileSuccess then (1 : ℚ) else 0) ≠ [] := by
      simpa using hcompile
    rw [compileRate, mean_of_ne_nil hones, sum_map_boole, List.length_map, Option.map_some,
      exactRate, mul_comm]
  have hsummary : summaryRate std ttc compile = (compileRate compile).map (roundTo 2) := rfl
  rw [hsummary, hrate]
  rfl

theorem tableRate_eq (hcompile : compile ≠ []) :
    tableRate compile = some (roundTo 2 (exactRate compile)) := by
  have hlength : compile.length ≠ 0 := by
    simpa only [ne_eq, List.length_eq_zero_iff] using hcompile
  rw [tableRate, compileSummary, if_neg hlength, compiledTests_rate]
  rfl

theorem abs_roundTo_exactRate_sub_le (compile : List CompileRow) :
    |roundTo 2 (exactRate compile) - exactRate compile| ≤ 0.005 := by
  have hround := abs_roundTo_sub_le 2 (exactRate compile)
  norm_num at hround ⊢
  exact hround

/-! ## The average -/

section

variable (U : UnicodeData) (dir : TestDir)

/-- The total score of a function before stage 09 rounds it; it is zero for a missing test. -/
def unroundedScore (row : GroundTruthRow) : ℚ :=
  match findGeneratedTest dir row.id with
  | none => 0
  | some file => (testScores .exact U row file.readText).ttcScore

def unroundedAverage (gt : List GroundTruthRow) : ℚ :=
  (gt.map (unroundedScore U dir)).sum / gt.length

end

variable {gt : List GroundTruthRow}

theorem abs_ttcScore_sub_le (U : UnicodeData) (dir : TestDir) (row : GroundTruthRow) :
    |(scoreRow .exact U row (findGeneratedTest dir row.id)).ttcScore - unroundedScore U dir row| ≤
      1 / 2 / 10 ^ 3 := by
  unfold unroundedScore
  cases findGeneratedTest dir row.id with
  | none =>
      change |(0 : ℚ) - 0| ≤ _
      norm_num
  | some file => exact abs_roundTo_sub_le 3 _

/-- The average of the recorded scores, rounded to four decimals, is off by at most half a unit of
the third decimal from the rows and half a unit of the fourth from the result. -/
theorem exists_recorded_average (U : UnicodeData) (dir : TestDir) (hgt : gt ≠ []) :
    ∃ m, mean ((ttcRows .exact U dir gt).map TtcRow.ttcScore) = some m ∧
      |roundTo 4 m - unroundedAverage U dir gt| ≤ 0.00055 := by
  let recorded (row : GroundTruthRow) : ℚ :=
    (scoreRow .exact U row (findGeneratedTest dir row.id)).ttcScore
  have hcolumn : (ttcRows .exact U dir gt).map TtcRow.ttcScore = gt.map recorded := List.map_map
  have hne : gt.map recorded ≠ [] := by simpa using hgt
  have hmean : mean ((ttcRows .exact U dir gt).map TtcRow.ttcScore) =
      some ((gt.map recorded).sum / gt.length) := by
    rw [hcolumn, mean_of_ne_nil hne, List.length_map]
  refine ⟨_, hmean, ?_⟩
  have hrows := abs_mean_sub_le hgt fun row _ => abs_ttcScore_sub_le U dir row
  have hresult := abs_roundTo_sub_le 4 ((gt.map recorded).sum / gt.length)
  calc
    _ ≤ |roundTo 4 ((gt.map recorded).sum / gt.length) - (gt.map recorded).sum / gt.length| +
        |(gt.map recorded).sum / gt.length - unroundedAverage U dir gt| := abs_sub_le _ _ _
    _ ≤ 1 / 2 / 10 ^ 4 + 1 / 2 / 10 ^ 3 := add_le_add hresult hrows
    _ = 0.00055 := by norm_num

/-- Stages 11, 13 and 15 report one average total score and one share of compiled tests, as close to
the exact numbers as their decimals allow, unless a compiler message stops stage 10. -/
theorem reported_results_agree (U : UnicodeData) (dir : TestDir) (gpp : Compiler)
    (std : List ℚ → Option ℚ) (hgt : gt ≠ []) :
    ∃ ttc, scoreTests .exact U dir gt = .ok ttc ∧
      match compileTests gpp dir gt with
      | .error error =>
        error = .unicodeDecodeError ∧ ∃ row ∈ gt, undecodable gpp dir row = true
      | .ok compile =>
        ∃ average rate,
          metricValue "Average TTC Score".toList ttc compile = some average ∧
          summaryAverage std .ttc ttc compile = some average ∧
          tableAverage .ttc ttc = some average ∧
          |average - unroundedAverage U dir gt| ≤ 0.00055 ∧
          metricValue "Compile Success Rate (%)".toList ttc compile = some rate ∧
          summaryRate std ttc compile = some rate ∧
          tableRate compile = some rate ∧
          |rate - exactRate compile| ≤ 0.005 := by
  refine ⟨ttcRows .exact U dir gt, if_neg hgt, ?_⟩
  rcases compileTests_cases gpp dir hgt with hrows | ⟨herror, hmessage⟩
  swap
  · rw [herror]
    exact ⟨rfl, hmessage⟩
  rw [hrows]
  obtain ⟨m, hmean, hclose⟩ := exists_recorded_average U dir hgt
  have hcompile : compileRows gpp dir gt ≠ [] := by
    simpa [compileRows] using hgt
  have haverage : (mean ((ttcRows .exact U dir gt).map TtcRow.ttcScore)).map (roundTo 4) =
      some (roundTo 4 m) := by
    rw [hmean]
    rfl
  refine ⟨roundTo 4 m, roundTo 2 (exactRate (compileRows gpp dir gt)), ?_, ?_, ?_, hclose,
    metricValue_rate hcompile, summaryRate_eq std hcompile, tableRate_eq hcompile,
    abs_roundTo_exactRate_sub_le _⟩
  · exact (metricValue_average hcompile).trans haverage
  · exact (summaryAverage_eq std .ttc _ _).trans haverage
  · exact (tableAverage_eq .ttc _).trans haverage

theorem reported_results_agree_sample :
    ∃ ttc, scoreTests .exact asciiData boundaryDir [boundaryRow, partitionRow] = .ok ttc ∧
      ∃ compile, compileTests quietCompiler boundaryDir [boundaryRow, partitionRow] = .ok compile ∧
        ∃ average rate,
          metricValue "Average TTC Score".toList ttc compile = some average ∧
          summaryAverage (fun _ => none) .ttc ttc compile = some average ∧
          tableAverage .ttc ttc = some average ∧
          |average - unroundedAverage asciiData boundaryDir [boundaryRow, partitionRow]| ≤ 0.00055 ∧
          metricValue "Compile Success Rate (%)".toList ttc compile = some rate ∧
          summaryRate (fun _ => none) ttc compile = some rate ∧
          tableRate compile = some rate ∧
          |rate - exactRate compile| ≤ 0.005 := by
  have hcompile : compileTests quietCompiler boundaryDir [boundaryRow, partitionRow] =
      .ok (compileRows quietCompiler boundaryDir [boundaryRow, partitionRow]) := by decide
  obtain ⟨ttc, hscored, hreported⟩ := @reported_results_agree [boundaryRow, partitionRow] asciiData
    boundaryDir quietCompiler (fun _ => none) (by decide)
  rw [hcompile] at hreported
  exact ⟨ttc, hscored, _, hcompile, hreported⟩

end TTCEvaluation
