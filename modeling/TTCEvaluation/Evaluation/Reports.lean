import TTCEvaluation.Evaluation.Lookup
import TTCEvaluation.Tables.Statistics

/-!
# The reported averages

Stage 13 and table 4.2 of stage 15 average the score columns of stage 09 over
all functions.  A function to which a technique does not apply counts with the
placeholder score that stage 09 recorded for it, so adding one moves the
average towards the placeholder.
-/

namespace TTCEvaluation

open Tables

inductive ScoreColumn where
  | bva
  | ecp
  | ttc
deriving DecidableEq

namespace ScoreColumn

def name : ScoreColumn → Text
  | bva => "bva_score".toList
  | ecp => "ecp_score".toList
  | ttc => "ttc_score".toList

def value : ScoreColumn → TtcRow → ℚ
  | bva => TtcRow.bvaScore
  | ecp => TtcRow.ecpScore
  | ttc => TtcRow.ttcScore

end ScoreColumn

/-! ## Stage 13 -/

structure SummaryRow where
  metric : Text
  count : ℕ
  mean : Option ℚ
  median : Option ℚ
  std : Option ℚ
  min : Option ℚ
  max : Option ℚ
deriving DecidableEq

section

-- `Series.std` takes a square root; what it returns is a parameter
variable (std : List ℚ → Option ℚ)

def summaryRow (column : ScoreColumn) (ttc : List TtcRow) : SummaryRow :=
  let values := ttc.map column.value
  { metric := column.name
    count := values.length
    mean := (mean values).map (roundTo 4)
    median := (median values).map (roundTo 4)
    std := (std values).map (roundTo 4)
    min := values.min?.map (roundTo 4)
    max := values.max?.map (roundTo 4) }

def compileRate (compile : List CompileRow) : Option ℚ :=
  (mean (compile.map fun row => if row.compileSuccess then 1 else 0)).map (· * 100)

def statisticalSummary (ttc : List TtcRow) (compile : List CompileRow) : List SummaryRow :=
  [.bva, .ecp, .ttc].map (summaryRow std · ttc) ++
    [{ metric := "compile_success_rate".toList
       count := compile.length
       mean := (compileRate compile).map (roundTo 2)
       median := none
       std := none
       min := none
       max := none }]

def summaryAverage (column : ScoreColumn) (ttc : List TtcRow) (compile : List CompileRow) :
    Option ℚ :=
  ((statisticalSummary std ttc compile).find? (·.metric = column.name)).bind SummaryRow.mean

end

/-! ## Table 4.2 -/

def ttcSummary (ttc : List TtcRow) : List (Text × Option ℚ) :=
  [("Average BVA Score".toList, (mean (ttc.map TtcRow.bvaScore)).map (roundTo 4)),
    ("Average ECP Score".toList, (mean (ttc.map TtcRow.ecpScore)).map (roundTo 4)),
    ("Average TTC Score".toList, (mean (ttc.map TtcRow.ttcScore)).map (roundTo 4)),
    ("Minimum TTC Score".toList, (ttc.map TtcRow.ttcScore).min?.map (roundTo 4)),
    ("Maximum TTC Score".toList, (ttc.map TtcRow.ttcScore).max?.map (roundTo 4))]

def ScoreColumn.label : ScoreColumn → Text
  | bva => "Average BVA Score".toList
  | ecp => "Average ECP Score".toList
  | ttc => "Average TTC Score".toList

def tableAverage (column : ScoreColumn) (ttc : List TtcRow) : Option ℚ :=
  ((ttcSummary ttc).find? (·.1 = column.label)).bind Prod.snd

/-! ## What the averages range over -/

section

variable (A : Arithmetic) (U : UnicodeData)

/-- The technique, or one of the two techniques, applies to the function. -/
def ScoreColumn.appliesTo (row : GroundTruthRow) : ScoreColumn → Bool
  | bva => isYes U row.bvaApplicable
  | ecp => isYes U row.ecpApplicable
  | ttc => isYes U row.bvaApplicable || isYes U row.ecpApplicable

end

/-- What stage 09 records for a tested function to which the technique does not apply. -/
def ScoreColumn.placeholder : ScoreColumn → ℚ
  | bva => 1
  | ecp => 1
  | ttc => 0

variable {A : Arithmetic} {U : UnicodeData}

/-- The two reports show the mean of the column over all rows, with four decimals. -/
theorem summaryAverage_eq (std : List ℚ → Option ℚ) (column : ScoreColumn) (ttc : List TtcRow)
    (compile : List CompileRow) :
    summaryAverage std column ttc compile = (mean (ttc.map column.value)).map (roundTo 4) := by
  cases column <;> rfl

theorem tableAverage_eq (column : ScoreColumn) (ttc : List TtcRow) :
    tableAverage column ttc = (mean (ttc.map column.value)).map (roundTo 4) := by
  cases column <;> rfl

theorem techniqueScore_of_not_isYes {applicable : Cell} (h : isYes U applicable = false)
    (t : Text) (cell : Cell) : techniqueScore A U t applicable cell = (1, 0, 0) := by
  rw [techniqueScore, h]
  rfl

theorem averageApplicable_of_none {row : GroundTruthRow} (hbva : isYes U row.bvaApplicable = false)
    (hecp : isYes U row.ecpApplicable = false) (b e : ℚ) : averageApplicable A U row b e = 0 := by
  simp [averageApplicable, addApplicable, hbva, hecp]

theorem value_scoreTest {column : ScoreColumn} {row : GroundTruthRow}
    (h : column.appliesTo U row = false) (file : TestFile) :
    column.value (scoreTest A U row file) = column.placeholder := by
  cases column with
  | bva =>
      change A.round (techniqueScore A U _ row.bvaApplicable _).1 3 = 1
      rw [techniqueScore_of_not_isYes h]
      exact A.round_one 3
  | ecp =>
      change A.round (techniqueScore A U _ row.ecpApplicable _).1 3 = 1
      rw [techniqueScore_of_not_isYes h]
      exact A.round_one 3
  | ttc =>
      obtain ⟨hbva, hecp⟩ := Bool.or_eq_false_iff.mp h
      change A.round (averageApplicable A U row _ _) 3 = 0
      rw [averageApplicable_of_none hbva hecp]
      exact A.round_zero 3

section

variable {gt₁ gt₂ : List GroundTruthRow} {row : GroundTruthRow} {dir dir' : TestDir}

/-- The added function inserts its placeholder into the column and keeps the other scores. -/
theorem column_insert (column : ScoreColumn)
    (hsame : ∀ r ∈ gt₁ ++ gt₂, findGeneratedTest dir' r.id = findGeneratedTest dir r.id)
    (htest : (findGeneratedTest dir' row.id).isSome) (happly : column.appliesTo U row = false) :
    ∃ s₁ s₂ : List ℚ, (s₁ ++ s₂).length = (gt₁ ++ gt₂).length ∧
      (ttcRows A U dir (gt₁ ++ gt₂)).map column.value = s₁ ++ s₂ ∧
      (ttcRows A U dir' (gt₁ ++ row :: gt₂)).map column.value =
        s₁ ++ column.placeholder :: s₂ := by
  obtain ⟨file, hfile⟩ := Option.isSome_iff_exists.mp htest
  let score (r : GroundTruthRow) : ℚ := column.value (scoreRow A U r (findGeneratedTest dir r.id))
  have hscore {gt : List GroundTruthRow} (hgt : ∀ r ∈ gt, r ∈ gt₁ ++ gt₂) :
      gt.map (column.value ∘ fun r => scoreRow A U r (findGeneratedTest dir' r.id)) =
        gt.map score := by
    apply List.map_congr_left
    intro r hr
    rw [Function.comp_apply, hsame r (hgt r hr)]
  refine ⟨gt₁.map score, gt₂.map score, ?_, ?_, ?_⟩
  · rw [← List.map_append, List.length_map]
  · rw [ttcRows, List.map_map, List.map_append]
    rfl
  · rw [ttcRows, List.map_map, List.map_append, List.map_cons,
      hscore fun r hr => List.mem_append_left _ hr, hscore fun r hr => List.mem_append_right _ hr,
      Function.comp_apply, hfile, scoreRow, value_scoreTest happly]

theorem scoreTests_eq_ok {gt : List GroundTruthRow} {ttc : List TtcRow}
    (h : scoreTests A U dir gt = .ok ttc) : gt ≠ [] ∧ ttc = ttcRows A U dir gt := by
  rw [scoreTests] at h
  split_ifs at h with hgt
  exact ⟨hgt, (Except.ok.inj h).symm⟩

/-- Adding a tested function to which the technique does not apply moves the average over `n`
functions towards the placeholder, and leaves it unchanged only if it was the placeholder. -/
theorem average_diluted (column : ScoreColumn) {before after : List TtcRow}
    (hbefore : scoreTests A U dir (gt₁ ++ gt₂) = .ok before)
    (hafter : scoreTests A U dir' (gt₁ ++ row :: gt₂) = .ok after)
    (hsame : ∀ r ∈ gt₁ ++ gt₂, findGeneratedTest dir' r.id = findGeneratedTest dir r.id)
    (htest : (findGeneratedTest dir' row.id).isSome) (happly : column.appliesTo U row = false)
    (std : List ℚ → Option ℚ) (compile compile' : List CompileRow) :
    ∃ (n : ℕ) (m m' : ℚ), n = (gt₁ ++ gt₂).length ∧ 0 < n ∧
      mean (before.map column.value) = some m ∧ mean (after.map column.value) = some m' ∧
      summaryAverage std column before compile = some (roundTo 4 m) ∧
      tableAverage column before = some (roundTo 4 m) ∧
      summaryAverage std column after compile' = some (roundTo 4 m') ∧
      tableAverage column after = some (roundTo 4 m') ∧
      m' = (n * m + column.placeholder) / (n + 1) ∧ (m' = m ↔ m = column.placeholder) := by
  obtain ⟨hne, rfl⟩ := scoreTests_eq_ok hbefore
  obtain ⟨-, rfl⟩ := scoreTests_eq_ok hafter
  obtain ⟨s₁, s₂, hlength, hold, hnew⟩ := column_insert (A := A) column hsame htest happly
  have hpos : 0 < (s₁ ++ s₂).length := by
    rw [hlength]
    exact List.length_pos_iff.mpr hne
  have hmean := mean_of_ne_nil (List.length_pos_iff.mp hpos)
  have hinsert := mean_insert hmean column.placeholder
  simp only [summaryAverage_eq, tableAverage_eq, hold, hnew, hmean, hinsert, Option.map_some]
  exact ⟨_, _, _, hlength, hpos, rfl, rfl, rfl, rfl, rfl, rfl, rfl, insert_mean_eq_iff⟩

end

def boundaryRow : GroundTruthRow :=
  ⟨"function_0001".toList, some "add".toList, some "yes".toList, some "7".toList, none, none⟩

def partitionRow : GroundTruthRow :=
  ⟨"function_0002".toList, some "sub".toList, some "no".toList, none, some "yes".toList,
    some "x".toList⟩

def boundaryDir : TestDir :=
  TestDir.ofListing [⟨"function_0001_add_gpt_test.cpp".toList, "EXPECT_EQ(x, y);".toList⟩,
    ⟨"function_0002_sub_gpt_test.cpp".toList, "EXPECT_EQ(x, y);".toList⟩]

theorem average_diluted_sample :
    ∃ (n : ℕ) (m m' : ℚ), n = 1 ∧ 0 < n ∧
      mean ((ttcRows Arithmetic.exact asciiData boundaryDir [boundaryRow]).map
        ScoreColumn.bva.value) = some m ∧
      mean ((ttcRows Arithmetic.exact asciiData boundaryDir [boundaryRow, partitionRow]).map
        ScoreColumn.bva.value) = some m' ∧
      summaryAverage (fun _ => none) .bva
        (ttcRows Arithmetic.exact asciiData boundaryDir [boundaryRow]) [] = some (roundTo 4 m) ∧
      tableAverage .bva (ttcRows Arithmetic.exact asciiData boundaryDir [boundaryRow]) =
        some (roundTo 4 m) ∧
      summaryAverage (fun _ => none) .bva
        (ttcRows Arithmetic.exact asciiData boundaryDir [boundaryRow, partitionRow]) [] =
          some (roundTo 4 m') ∧
      tableAverage .bva
        (ttcRows Arithmetic.exact asciiData boundaryDir [boundaryRow, partitionRow]) =
          some (roundTo 4 m') ∧
      m' = (n * m + ScoreColumn.bva.placeholder) / (n + 1) ∧
      (m' = m ↔ m = ScoreColumn.bva.placeholder) :=
  @average_diluted Arithmetic.exact asciiData [boundaryRow] [] partitionRow boundaryDir boundaryDir
    .bva _ _ rfl rfl (fun _ _ => rfl) (by decide) (by decide) (fun _ => none) [] []

/-- The average BVA score of one function that misses its value rises from zero to one half with a
function to which BVA does not apply. -/
theorem average_raised_by_inapplicable :
    ScoreColumn.bva.appliesTo asciiData boundaryRow = true ∧
      ScoreColumn.bva.appliesTo asciiData partitionRow = false ∧
      summaryAverage (fun _ => none) .bva
        (ttcRows Arithmetic.exact asciiData boundaryDir [boundaryRow]) [] = some 0 ∧
      tableAverage .bva (ttcRows Arithmetic.exact asciiData boundaryDir [boundaryRow]) = some 0 ∧
      summaryAverage (fun _ => none) .bva
        (ttcRows Arithmetic.exact asciiData boundaryDir [boundaryRow, partitionRow]) [] =
          some (1 / 2) ∧
      tableAverage .bva
        (ttcRows Arithmetic.exact asciiData boundaryDir [boundaryRow, partitionRow]) =
          some (1 / 2) := by
  decide +kernel

end TTCEvaluation
