import TTCEvaluation.Evaluation.Metrics
import TTCEvaluation.Evaluation.TopBottom
import TTCEvaluation.Tables.Counts

/-!
# The figures and the overview of the dataset

Stage 12 plots the columns of the result tables, and table 4.1 of stage 15
counts the functions to which the techniques apply and the tests that were
found.  All stages count the same functions, tests and compiler results.
-/

namespace TTCEvaluation

open Tables

/-! ## Stage 12 -/

/-- The data of the four figures: what is handed to the plotting functions. -/
structure Figures where
  scoreDistribution : List ℚ
  averageScores : List (Text × Option ℚ)
  compileLabels : List Text
  compileValues : List ℕ
  scorePerFunction : List (ℕ × ℚ)
deriving DecidableEq

def figureAverages (ttc : List TtcRow) : List (Text × Option ℚ) :=
  [("BVA".toList, mean (ttc.map TtcRow.bvaScore)),
    ("ECP".toList, mean (ttc.map TtcRow.ecpScore)),
    ("TTC".toList, mean (ttc.map TtcRow.ttcScore))]

def compileLabel (v : Bool) : Text := if v then "Compiled".toList else "Failed".toList

def figures (ttc : List TtcRow) (compile : List CompileRow) : Figures :=
  let compileCounts := valueCounts (compile.map CompileRow.compileSuccess)
  { scoreDistribution := ttc.map TtcRow.ttcScore
    averageScores := figureAverages ttc
    compileLabels := compileCounts.map fun p => compileLabel p.1
    compileValues := compileCounts.map Prod.snd
    scorePerFunction := (List.range ttc.length).zip (ttc.map TtcRow.ttcScore) }

/-- The slices of figure 3. -/
def Figures.slices (f : Figures) : List (Text × ℕ) := f.compileLabels.zip f.compileValues

/-! ## Table 4.1 -/

/-- The number of rows whose test was found: a sum of Booleans. -/
def availableTests (ttc : List TtcRow) : ℕ :=
  (ttc.map fun row => if row.testAvailable then 1 else 0).sum

section

variable (U : UnicodeData)

def datasetSummary (gt : List GroundTruthRow) (ttc : List TtcRow) : List (Text × ℕ) :=
  [("Total selected functions".toList, gt.length),
    ("BVA applicable functions".toList, gt.countP fun row => isYes U row.bvaApplicable),
    ("ECP applicable functions".toList, gt.countP fun row => isYes U row.ecpApplicable),
    ("Generated GPT-5.5 test files evaluated".toList, availableTests ttc)]

/-! ## Stage 15 -/

/-- Tables 4.1 to 4.4. -/
structure ThesisTables where
  datasetSummary : List (Text × ℕ)
  ttcSummary : List (Text × Option ℚ)
  compileSummary : List (Text × ℚ)
  topBottom : List TopBottomRow
deriving DecidableEq

def thesisTables (gt : List GroundTruthRow) (ttc : List TtcRow) (compile : List CompileRow) :
    ThesisTables where
  datasetSummary := datasetSummary U gt ttc
  ttcSummary := ttcSummary ttc
  compileSummary := compileSummary compile
  topBottom := topBottom ttc

end

end TTCEvaluation
