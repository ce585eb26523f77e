import TTCEvaluation.Evaluation.Agreement

/-!
# The range of everything reported

From scores that are fractions, stages 11 to 15 make averages that are
fractions and rates that are percentages, so that no bar or point of the figures
falls outside the plotted range.  No number is missing.
-/

namespace TTCEvaluation

open Tables

/-! ## Ranges -/

/-- The three rows of the final metrics, with an average score and a percentage. -/
def MetricsInRange (rows : List (Text × Option ℚ)) : Prop :=
  ∃ average ∈ Set.Icc (0 : ℚ) 1, ∃ rate ∈ Set.Icc (0 : ℚ) 100, ∃ n : ℕ, 0 < n ∧
    rows = [("Average TTC Score".toList, some average),
      ("Compile Success Rate (%)".toList, some rate), ("Functions Evaluated".toList, some (n : ℚ))]

/-- All bars and points lie in the plotted range, and no slice is empty. -/
structure Figures.InRange (f : Figures) : Prop where
  distribution : f.scoreDistribution ≠ [] ∧ ∀ v ∈ f.scoreDistribution, v ∈ Set.Icc (0 : ℚ) 1
  averages : ∀ bar ∈ f.averageScores, ∃ v ∈ Set.Icc (0 : ℚ) 1, bar.2 = some v
  slices : f.slices ≠ [] ∧ ∀ slice ∈ f.slices, 0 < slice.2
  points : ∀ point ∈ f.scorePerFunction, point.2 ∈ Set.Icc (0 : ℚ) 1

/-- The row counts something, its mean is there, and its numbers are not above `high`. -/
structure SummaryRow.InRange (high : ℚ) (row : SummaryRow) : Prop where
  count : 0 < row.count
  mean : ∃ v ∈ Set.Icc 0 high, row.mean = some v
  others : ∀ v ∈ row.median.toList ++ row.min.toList ++ row.max.toList, v ∈ Set.Icc 0 high

def SummaryInRange (rows : List SummaryRow) : Prop :=
  ∃ bva ecp ttc rate, rows = [bva, ecp, ttc, rate] ∧ bva.InRange 1 ∧ ecp.InRange 1 ∧
    ttc.InRange 1 ∧ rate.InRange 100

structure FinalRow.InRange (row : FinalRow) : Prop where
  bva_score : row.bvaScore ∈ Set.Icc (0 : ℚ) 1
  ecp_score : row.ecpScore ∈ Set.Icc (0 : ℚ) 1
  ttc_score : row.ttcScore ∈ Set.Icc (0 : ℚ) 1

structure ThesisTables.InRange (t : ThesisTables) : Prop where
  ttc_summary : ∀ p ∈ t.ttcSummary, ∃ v ∈ Set.Icc (0 : ℚ) 1, p.2 = some v
  compile_summary : ∃ total compiled failed : ℕ, ∃ rate ∈ Set.Icc (0 : ℚ) 100,
    0 < total ∧ compiled + failed = total ∧
      t.compileSummary = [("Total generated tests".toList, (total : ℚ)),
        ("Compiled successfully".toList, (compiled : ℚ)),
        ("Compile failures".toList, (failed : ℚ)), ("Compile success rate (%)".toList, rate)]
  top_bottom : t.topBottom ≠ [] ∧ t.topBottom.length ≤ 10 ∧
    ∀ row ∈ t.topBottom, row.ttcScore ∈ Set.Icc (0 : ℚ) 1

/-! ## Averages and rates -/

theorem roundTo_mem_percent (k : ℕ) {v : ℚ} (h : v ∈ Set.Icc (0 : ℚ) 100) :
    roundTo k v ∈ Set.Icc (0 : ℚ) 100 := by
  have hrounded := @roundTo_mem_Icc_intCast k 0 100 v
  push_cast at hrounded
  exact hrounded h

theorem exactRate_mem_percent (compile : List CompileRow) :
    exactRate compile ∈ Set.Icc (0 : ℚ) 100 := by
  have hle : ((compile.countP CompileRow.compileSuccess : ℕ) : ℚ) ≤ compile.length :=
    Nat.cast_le.mpr List.countP_le_length
  have hshare : ((compile.countP CompileRow.compileSuccess : ℕ) : ℚ) / compile.length ≤ 1 :=
    div_le_one_of_le₀ hle (Nat.cast_nonneg _)
  have hnonneg : 0 ≤ ((compile.countP CompileRow.compileSuccess : ℕ) : ℚ) / compile.length := by
    positivity
  unfold exactRate
  constructor <;> linarith

variable {ttc : List TtcRow} {compile : List CompileRow}

section

variable (hne : ttc ≠ []) (h : ∀ row ∈ ttc, row.InRange)

include hne h

theorem exists_average (column : ScoreColumn) :
    ∃ v ∈ Set.Icc (0 : ℚ) 1, mean (ttc.map column.value) = some v := by
  have hvalues : ttc.map column.value ≠ [] := by simpa using hne
  have hmean := mean_of_ne_nil hvalues
  refine ⟨_, mean_mem_Icc ?_ hmean, hmean⟩
  exact List.forall_mem_map.mpr fun row hrow => (h row hrow).value column

theorem exists_rounded_average (column : ScoreColumn) :
    ∃ v ∈ Set.Icc (0 : ℚ) 1, (mean (ttc.map column.value)).map (roundTo 4) = some v := by
  obtain ⟨v, hv, hmean⟩ := exists_average hne h column
  exact ⟨roundTo 4 v, roundTo_mem_unit 4 hv, congrArg (Option.map (roundTo 4)) hmean⟩

/-! ## The reports -/

theorem metricsInRange {rows : List (Text × Option ℚ)} (hrows : finalMetrics ttc compile = some rows) :
    MetricsInRange rows := by
  unfold finalMetrics at hrows
  split_ifs at hrows
  obtain ⟨average, haverage, hmean⟩ := exists_rounded_average hne h .ttc
  refine ⟨average, haverage, roundTo 2 (exactRate compile),
    roundTo_mem_percent 2 (exactRate_mem_percent compile), ttc.length,
    List.length_pos_iff.mpr hne, ?_⟩
  rw [← compiledTests_rate, ← hmean]
  exact (Option.some.inj hrows).symm

theorem figures_inRange (hcompile : compile ≠ []) : (figures ttc compile).InRange where
  distribution := by
    refine ⟨by simpa [figures] using hne, ?_⟩
    exact List.forall_mem_map.mpr fun row hrow => (h row hrow).ttc_score
  averages := by
    obtain ⟨bva, hbva, hbva'⟩ := exists_average hne h .bva
    obtain ⟨ecp, hecp, hecp'⟩ := exists_average hne h .ecp
    obtain ⟨total, htotal, htotal'⟩ := exists_average hne h .ttc
    intro bar hbar
    simp only [figures, figureAverages, List.mem_cons, List.not_mem_nil, or_false] at hbar
    rcases hbar with rfl | rfl | rfl
    · exact ⟨bva, hbva, hbva'⟩
    · exact ⟨ecp, hecp, hecp'⟩
    · exact ⟨total, htotal, htotal'⟩
  slices := by
    refine ⟨?_, fun slice hslice => ?_⟩
    · have hslices : (figures ttc compile).slices =
          (valueCounts (compile.map CompileRow.compileSuccess)).map fun p =>
            (compileLabel p.1, p.2) :=
        List.zip_map' ..
      intro hnil
      rw [hslices, List.map_eq_nil_iff] at hnil
      have hsum := sum_valueCounts (compile.map CompileRow.compileSuccess)
      rw [hnil, List.length_map] at hsum
      exact hcompile (List.length_eq_zero_iff.mp hsum.symm)
    · have hmem := (slices_figures ttc compile).mem_iff.mp hslice
      exact of_decide_eq_true (List.mem_filter.mp hmem).2
  points := by
    intro point hpoint
    have hvalue := (List.of_mem_zip hpoint).2
    obtain ⟨row, hrow, heq⟩ := List.mem_map.mp hvalue
    rw [← heq]
    exact (h row hrow).ttc_score

theorem summaryRow_inRange (std : List ℚ → Option ℚ) (column : ScoreColumn) :
    (summaryRow std column ttc).InRange 1 := by
  obtain ⟨low, mid, average, high, hdescribes⟩ := summaryRow_describes std column hne
  have hunit : ∀ v ∈ (ttc.map column.value).map (roundTo 4), v ∈ Set.Icc (0 : ℚ) 1 := by
    rw [List.forall_mem_map, List.forall_mem_map]
    exact fun row hrow => roundTo_mem_unit 4 ((h row hrow).value column)
  have hlow := hunit low hdescribes.low_mem
  have hhigh := hunit high hdescribes.high_mem
  have hbetween {v : ℚ} (hv : v ∈ Set.Icc low high) : v ∈ Set.Icc (0 : ℚ) 1 :=
    ⟨hlow.1.trans hv.1, hv.2.trans hhigh.2⟩
  exact
    { count := by
        change 0 < (ttc.map column.value).length
        rw [List.length_map]
        exact List.length_pos_iff.mpr hne
      mean := ⟨average, hbetween hdescribes.average_mem, hdescribes.mean⟩
      others := by
        rw [hdescribes.median, hdescribes.min, hdescribes.max]
        intro v hv
        simp only [Option.toList_some, List.cons_append, List.nil_append, List.mem_cons,
          List.not_mem_nil, or_false] at hv
        rcases hv with rfl | rfl | rfl
        · exact hbetween hdescribes.mid_mem
        · exact hlow
        · exact hhigh }

theorem summaryInRange (std : List ℚ → Option ℚ) (hcompile : compile ≠ []) :
    SummaryInRange (statisticalSummary std ttc compile) := by
  refine ⟨_, _, _, _, rfl, summaryRow_inRange hne h std .bva, summaryRow_inRange hne h std .ecp,
    summaryRow_inRange hne h std .ttc, List.length_pos_iff.mpr hcompile, ?_, by simp⟩
  have hrate : summaryRate std ttc compile = some (roundTo 2 (exactRate compile)) :=
    summaryRate_eq std hcompile
  exact ⟨_, roundTo_mem_percent 2 (exactRate_mem_percent compile), hrate⟩

theorem finalResults_inRange (compile : List CompileRow) :
    finalResults ttc compile ≠ [] ∧ ∀ row ∈ finalResults ttc compile, row.InRange := by
  constructor
  · obtain ⟨row, hrow⟩ := List.exists_mem_of_ne_nil ttc hne
    obtain ⟨partner, hpair⟩ :=
      @exists_mem_leftJoin _ _ _ _ TtcRow.functionId CompileRow.functionId ttc compile row hrow
    exact List.ne_nil_of_mem (List.mem_map_of_mem hpair)
  · refine List.forall_mem_map.mpr fun pair hpair => ?_
    have hrow := h pair.1 (mem_of_mem_leftJoin hpair)
    exact ⟨hrow.bva_score, hrow.ecp_score, hrow.ttc_score⟩

theorem ttcSummary_inRange : ∀ p ∈ ttcSummary ttc, ∃ v ∈ Set.Icc (0 : ℚ) 1, p.2 = some v := by
  obtain ⟨bva, hbva, hbva'⟩ := exists_rounded_average hne h .bva
  obtain ⟨ecp, hecp, hecp'⟩ := exists_rounded_average hne h .ecp
  obtain ⟨total, htotal, htotal'⟩ := exists_rounded_average hne h .ttc
  obtain ⟨low, hlow, high, hhigh, hmin, hmax, -⟩ :=
    exists_min_max (l := ttc.map TtcRow.ttcScore) (by simpa using hne)
  have hunit : ∀ v ∈ ttc.map TtcRow.ttcScore, roundTo 4 v ∈ Set.Icc (0 : ℚ) 1 :=
    List.forall_mem_map.mpr fun row hrow => roundTo_mem_unit 4 (h row hrow).ttc_score
  intro p hp
  simp only [ttcSummary, List.mem_cons, List.not_mem_nil, or_false] at hp
  rcases hp with rfl | rfl | rfl | rfl | rfl
  · exact ⟨bva, hbva, hbva'⟩
  · exact ⟨ecp, hecp, hecp'⟩
  · exact ⟨total, htotal, htotal'⟩
  · exact ⟨_, hunit low hlow, congrArg (Option.map (roundTo 4)) hmin⟩
  · exact ⟨_, hunit high hhigh, congrArg (Option.map (roundTo 4)) hmax⟩

theorem thesisTables_inRange (U : UnicodeData) (gt : List GroundTruthRow)
    (hcompile : compile ≠ []) : (thesisTables U gt ttc compile).InRange where
  ttc_summary := ttcSummary_inRange hne h
  compile_summary := by
    have htable := compileSummary_take_three compile
    have hle : compile.countP CompileRow.compileSuccess ≤ compile.length := List.countP_le_length
    have hlength : compile.length ≠ 0 := by simpa using hcompile
    refine ⟨compile.length, _, _, roundTo 2 (exactRate compile),
      roundTo_mem_percent 2 (exactRate_mem_percent compile), List.length_pos_iff.mpr hcompile,
      Nat.add_sub_cancel' hle, ?_⟩
    rw [← List.take_append_drop 3 (thesisTables U gt ttc compile).compileSummary]
    change (compileSummary compile).take 3 ++ (compileSummary compile).drop 3 = _
    rw [htable, ← compiledTests_rate]
    change _ ++ [(_, if compile.length = 0 then _ else _)] = _
    rw [if_neg hlength]
    rfl
  top_bottom := by
    have hsubset : ∀ row ∈ highest ttc ++ lowest ttc, row ∈ ttc := by
      intro row hrow
      rcases List.mem_append.mp hrow with hrow | hrow
      · exact (topRows_highest ttc).subperm.subset hrow
      · exact (topRows_lowest ttc).subperm.subset hrow
    refine ⟨?_, ?_, List.forall_mem_map.mpr fun row hrow => (h row (hsubset row hrow)).ttc_score⟩
    · obtain ⟨top, htop, -⟩ := head_highest hne
      exact List.ne_nil_of_mem
        (List.mem_map_of_mem (List.mem_append_left _ (List.mem_of_head? htop)))
    · change ((highest ttc ++ lowest ttc).map topBottomRow).length ≤ 10
      rw [List.length_map, List.length_append, (topRows_highest ttc).length_eq,
        (topRows_lowest ttc).length_eq]
      omega

end

end TTCEvaluation
