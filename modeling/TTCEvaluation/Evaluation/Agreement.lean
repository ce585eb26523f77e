import TTCEvaluation.Evaluation.Figures
import TTCEvaluation.Evaluation.Results
import TTCEvaluation.Scoring.Bounds
import TTCEvaluation.Tables.Spread

/-!
# The reports agree

Stages 11 to 15 count the functions, the tests and the compiler results, each in
its own way, and come to the same numbers.  The least, the middle and the
greatest score they show are in order, and the rows at the ends of table 4.4 are
the extremes of table 4.2.
-/

namespace TTCEvaluation

open Tables

/-- What stages 11 to 15 report. -/
structure Reports where
  metrics : List (Text × Option ℚ)
  figures : Figures
  summary : List SummaryRow
  results : List FinalRow
  thesis : ThesisTables

section

variable (U : UnicodeData) (std : List ℚ → Option ℚ)

def reports (gt : List GroundTruthRow) (ttc : List TtcRow) (compile : List CompileRow) :
    Option Reports :=
  (finalMetrics ttc compile).map fun metrics =>
    { metrics
      figures := figures ttc compile
      summary := statisticalSummary std ttc compile
      results := finalResults ttc compile
      thesis := thesisTables U gt ttc compile }

end

/-- All reports count `total` functions, with a test for `available` of them, `compiled` tests that
compile and `failed` that do not. -/
structure Reports.Tallied (r : Reports) (total available compiled failed : ℕ) : Prop where
  compiled_add_failed : compiled + failed = total
  compiled_le_available : compiled ≤ available
  available_le_total : available ≤ total
  metrics : ("Functions Evaluated".toList, some (total : ℚ)) ∈ r.metrics
  average : ("Average TTC Score".toList,
    (mean (r.results.map FinalRow.ttcScore)).map (roundTo 4)) ∈ r.metrics
  points : r.figures.scorePerFunction =
    (List.range total).zip (r.results.map FinalRow.ttcScore)
  slices : r.figures.slices.Perm
    ([("Compiled".toList, compiled), ("Failed".toList, failed)].filter (0 < ·.2))
  summary : ∀ row ∈ r.summary, row.count = total
  results : r.results.length = total ∧
    r.results.countP (fun row => row.compileSuccess = some true) = compiled
  dataset : ("Total selected functions".toList, total) ∈ r.thesis.datasetSummary ∧
    ("Generated GPT-5.5 test files evaluated".toList, available) ∈ r.thesis.datasetSummary
  compile_table : r.thesis.compileSummary.take 3 =
    [("Total generated tests".toList, (total : ℚ)), ("Compiled successfully".toList, compiled),
      ("Compile failures".toList, failed)]

variable {U : UnicodeData} {std : List ℚ → Option ℚ} {gt : List GroundTruthRow}

/-! ## Counting -/

theorem perm_valueCounts_bool (l : List Bool) :
    (valueCounts l).Perm ([(true, l.count true), (false, l.count false)].filter (0 < ·.2)) := by
  have hpairs : ([(true, l.count true), (false, l.count false)].filter (0 < ·.2)).Nodup :=
    List.Nodup.filter _ (by simp)
  rw [List.perm_ext_iff_of_nodup (List.Nodup.of_map _ (nodup_valueCounts l)) hpairs]
  rintro ⟨v, n⟩
  rw [mem_valueCounts, List.mem_filter, List.mem_cons, List.mem_singleton]
  cases v with
  | true =>
      simp only [Prod.mk.injEq, true_and, reduceCtorEq, false_and, or_false, decide_eq_true_eq]
      rw [and_comm, eq_comm]
  | false =>
      simp only [Prod.mk.injEq, true_and, reduceCtorEq, false_and, false_or, decide_eq_true_eq]
      rw [and_comm, eq_comm]

theorem slices_figures (ttc : List TtcRow) (compile : List CompileRow) :
    (figures ttc compile).slices.Perm
      ([("Compiled".toList, compile.countP CompileRow.compileSuccess),
        ("Failed".toList, compile.countP fun row => !row.compileSuccess)].filter (0 < ·.2)) := by
  let results := compile.map CompileRow.compileSuccess
  have hslices : (figures ttc compile).slices =
      (valueCounts results).map fun p => (compileLabel p.1, p.2) :=
    List.zip_map' ..
  have htrue : results.count true = compile.countP CompileRow.compileSuccess := by
    rw [List.count_eq_countP, List.countP_map]
    exact List.countP_congr fun row _ => by simp
  have hfalse : results.count false = compile.countP fun row => !row.compileSuccess := by
    rw [List.count_eq_countP, List.countP_map]
    exact List.countP_congr fun row _ => by simp
  have hcounts := (perm_valueCounts_bool results).map fun p => (compileLabel p.1, p.2)
  rw [hslices]
  refine hcounts.trans (List.Perm.of_eq ?_)
  rw [htrue, hfalse]
  simp only [List.filter_cons, List.filter_nil]
  split_ifs <;> rfl

section

variable (A : Arithmetic) (gpp : Compiler) (dir : TestDir)

theorem availableTests_eq_countP (ttc : List TtcRow) :
    availableTests ttc = ttc.countP TtcRow.testAvailable :=
  sum_map_boole TtcRow.testAvailable ttc

theorem finalScores_eq (h : (gt.map (·.id)).Nodup) :
    (finalResults (ttcRows A U dir gt) (compileRows gpp dir gt)).map FinalRow.ttcScore =
      (ttcRows A U dir gt).map TtcRow.ttcScore := by
  rw [finalResults_eq_map h, ttcRows, List.map_map, List.map_map]
  rfl

theorem countP_finalResults (h : (gt.map (·.id)).Nodup) :
    (finalResults (ttcRows A U dir gt) (compileRows gpp dir gt)).countP
        (fun row => row.compileSuccess = some true) =
      (compileRows gpp dir gt).countP CompileRow.compileSuccess := by
  rw [finalResults_eq_map h, compileRows, List.countP_map, List.countP_map]
  exact List.countP_congr fun row _ => by simp [finalRow]

/-- The number of functions for which a test was found. -/
def foundTests (gt : List GroundTruthRow) : ℕ :=
  gt.countP fun row => (findGeneratedTest dir row.id).isSome

/-- The number of functions whose test compiles. -/
def compilingTests (gt : List GroundTruthRow) : ℕ :=
  gt.countP fun row => (compileRow gpp row (findGeneratedTest dir row.id)).compileSuccess

theorem availableTests_ttcRows (gt : List GroundTruthRow) :
    availableTests (ttcRows A U dir gt) = foundTests dir gt := by
  rw [availableTests_eq_countP, ttcRows, List.countP_map, foundTests]
  apply List.countP_congr
  intro row _
  cases hfound : findGeneratedTest dir row.id <;> simp [hfound, scoreRow, missingTest, scoreTest]

theorem countP_compileRows (gt : List GroundTruthRow) :
    (compileRows gpp dir gt).countP CompileRow.compileSuccess = compilingTests gpp dir gt :=
  List.countP_map

theorem compilingTests_le (gt : List GroundTruthRow) :
    compilingTests gpp dir gt ≤ foundTests dir gt := by
  refine List.countP_mono_left fun row _ h => ?_
  cases hfound : findGeneratedTest dir row.id with
  | none =>
      rw [hfound] at h
      cases h
  | some file => rfl

theorem exists_finalMetrics {compile : List CompileRow} (hcompile : compile ≠ [])
    (ttc : List TtcRow) :
    ∃ metrics, finalMetrics ttc compile = some metrics ∧
      ("Average TTC Score".toList, (mean (ttc.map TtcRow.ttcScore)).map (roundTo 4)) ∈ metrics ∧
      ("Functions Evaluated".toList, some (ttc.length : ℚ)) ∈ metrics :=
  ⟨_, if_neg hcompile, List.mem_cons_self, by simp⟩

theorem compileSummary_take_three (compile : List CompileRow) :
    (compileSummary compile).take 3 =
      [("Total generated tests".toList, (compile.length : ℚ)),
        ("Compiled successfully".toList, ((compile.countP CompileRow.compileSuccess : ℕ) : ℚ)),
        ("Compile failures".toList,
          ((compile.length - compile.countP CompileRow.compileSuccess : ℕ) : ℚ))] := by
  have hfailed : (((compile.length : ℤ) - compiledTests compile : ℤ) : ℚ) =
      ((compile.length - compile.countP CompileRow.compileSuccess : ℕ) : ℚ) := by
    rw [compiledTests_eq_countP, Nat.cast_sub List.countP_le_length]
    push_cast
    rfl
  rw [← compiledTests_eq_countP] at hfailed ⊢
  rw [← hfailed]
  rfl

/-- With distinct identifiers, all reports count the same functions, tests and compiler results. -/
theorem reports_tallied (hgt : gt ≠ []) (h : (gt.map (·.id)).Nodup) :
    ∃ r, reports U std gt (ttcRows A U dir gt) (compileRows gpp dir gt) = some r ∧
      r.Tallied gt.length (foundTests dir gt) (compilingTests gpp dir gt)
        (gt.length - compilingTests gpp dir gt) := by
  have hcompile : compileRows gpp dir gt ≠ [] := by
    simpa [compileRows] using hgt
  have hlength : (compileRows gpp dir gt).length = gt.length := List.length_map _
  have hlength' : (ttcRows A U dir gt).length = gt.length := List.length_map _
  have hle : compilingTests gpp dir gt ≤ gt.length := List.countP_le_length
  have hfailed : (compileRows gpp dir gt).countP (fun row => !row.compileSuccess) =
      gt.length - compilingTests gpp dir gt := by
    have hsplit := (compileRows gpp dir gt).length_eq_countP_add_countP CompileRow.compileSuccess
    rw [hlength, countP_compileRows] at hsplit
    simp only [Bool.not_eq_true, Bool.decide_eq_false] at hsplit
    omega
  have hslices := slices_figures (ttcRows A U dir gt) (compileRows gpp dir gt)
  rw [countP_compileRows, hfailed] at hslices
  have hscores := finalScores_eq (U := U) A gpp dir h
  have hrows : (finalResults (ttcRows A U dir gt) (compileRows gpp dir gt)).length = gt.length := by
    have hcolumn := congrArg List.length hscores
    rwa [List.length_map, List.length_map, hlength'] at hcolumn
  have htable := compileSummary_take_three (compileRows gpp dir gt)
  rw [hlength, countP_compileRows] at htable
  obtain ⟨metrics, hmetrics, haverage, hcount⟩ := exists_finalMetrics hcompile (ttcRows A U dir gt)
  refine ⟨_, congrArg (Option.map _) hmetrics, ?_⟩
  exact
    { compiled_add_failed := by omega
      compiled_le_available := compilingTests_le gpp dir gt
      available_le_total := List.countP_le_length
      metrics := by rwa [hlength'] at hcount
      average := by rwa [← hscores] at haverage
      points := by
        change (List.range (ttcRows A U dir gt).length).zip _ = _
        rw [hlength', hscores]
      slices := hslices
      summary := by
        simp [statisticalSummary, summaryRow, hlength, hlength']
      results := ⟨hrows, (countP_finalResults A gpp dir h).trans (countP_compileRows gpp dir gt)⟩
      dataset := by
        refine ⟨List.mem_cons_self, ?_⟩
        rw [← availableTests_ttcRows A (U := U)]
        simp [thesisTables, datasetSummary]
      compile_table := htable }

/-- The final table has one row for each function exactly if the identifiers are distinct. -/
theorem finalResults_length_iff (gt : List GroundTruthRow) :
    (finalResults (ttcRows A U dir gt) (compileRows gpp dir gt)).length =
        (gt.map fun row => gt.countP (·.id = row.id)).sum ∧
      ((finalResults (ttcRows A U dir gt) (compileRows gpp dir gt)).length = gt.length ↔
        (gt.map (·.id)).Nodup) := by
  have hlength : (finalResults (ttcRows A U dir gt) (compileRows gpp dir gt)).length =
      (gt.map fun row => gt.countP (·.id = row.id)).sum := by
    rw [finalResults, List.length_map]
    exact length_leftJoin_map_map gt (fun row => scoreRow_functionId row _)
      fun row => compileRow_functionId row _
  refine ⟨hlength, ?_⟩
  rw [hlength]
  exact sum_countP_eq_length_iff

end

/-! ## The order of the values -/

/-- The row describes the values: its least, middle, average and greatest values are in order, the
least and the greatest occur, and half of the values are on either side of the middle one. -/
structure SummaryRow.Describes (row : SummaryRow) (values : List ℚ) (low mid average high : ℚ) :
    Prop where
  min : row.min = some low
  median : row.median = some mid
  mean : row.mean = some average
  max : row.max = some high
  mid_mem : mid ∈ Set.Icc low high
  average_mem : average ∈ Set.Icc low high
  low_mem : low ∈ values.map (roundTo 4)
  high_mem : high ∈ values.map (roundTo 4)
  between : ∀ v ∈ values.map (roundTo 4), v ∈ Set.Icc low high
  half_below : values.length ≤ 2 * (values.map (roundTo 4)).countP (· ≤ mid)
  half_above : values.length ≤ 2 * (values.map (roundTo 4)).countP (mid ≤ ·)

theorem exists_min_max {l : List ℚ} (hne : l ≠ []) :
    ∃ low ∈ l, ∃ high ∈ l, l.min? = some low ∧ l.max? = some high ∧
      ∀ a ∈ l, a ∈ Set.Icc low high := by
  obtain ⟨low, hlow⟩ := Option.isSome_iff_exists.mp (List.isSome_min?_of_ne_nil hne)
  obtain ⟨high, hhigh⟩ := Option.isSome_iff_exists.mp (List.isSome_max?_of_ne_nil hne)
  obtain ⟨hlowMem, hleast⟩ := List.min?_eq_some_iff.mp hlow
  obtain ⟨hhighMem, hgreatest⟩ := List.max?_eq_some_iff.mp hhigh
  exact ⟨low, hlowMem, high, hhighMem, hlow, hhigh, fun a ha => ⟨hleast a ha, hgreatest a ha⟩⟩

theorem roundTo_mem_Icc {low high v : ℚ} (h : v ∈ Set.Icc low high) :
    roundTo 4 v ∈ Set.Icc (roundTo 4 low) (roundTo 4 high) :=
  ⟨roundTo_mono 4 h.1, roundTo_mono 4 h.2⟩

theorem summaryRow_describes (std : List ℚ → Option ℚ) (column : ScoreColumn) {ttc : List TtcRow}
    (hne : ttc ≠ []) :
    ∃ low mid average high,
      (summaryRow std column ttc).Describes (ttc.map column.value) low mid average high := by
  have hvalues : ttc.map column.value ≠ [] := by simpa using hne
  obtain ⟨low, hlow, high, hhigh, hmin, hmax, hmem⟩ := exists_min_max hvalues
  obtain ⟨mid, hmid⟩ : ∃ mid, median (ttc.map column.value) = some mid :=
    Option.ne_none_iff_exists'.mp (median_ne_none hvalues)
  have hmean := mean_of_ne_nil hvalues
  obtain ⟨hbelow, habove⟩ := median_splits hmid
  refine ⟨roundTo 4 low, roundTo 4 mid, roundTo 4 _, roundTo 4 high,
    { min := congrArg (Option.map (roundTo 4)) hmin
      median := congrArg (Option.map (roundTo 4)) hmid
      mean := congrArg (Option.map (roundTo 4)) hmean
      max := congrArg (Option.map (roundTo 4)) hmax
      mid_mem := roundTo_mem_Icc (median_mem_Icc hmem hmid)
      average_mem := roundTo_mem_Icc (mean_mem_Icc hmem hmean)
      low_mem := List.mem_map_of_mem hlow
      high_mem := List.mem_map_of_mem hhigh
      between := List.forall_mem_map.mpr fun v hv => roundTo_mem_Icc (hmem v hv)
      half_below := ?_
      half_above := ?_ }⟩
  · refine hbelow.trans (Nat.mul_le_mul_left 2 ?_)
    refine le_of_le_of_eq (List.countP_mono_left fun v _ h => ?_) List.countP_map.symm
    exact decide_eq_true (roundTo_mono 4 (of_decide_eq_true h))
  · refine habove.trans (Nat.mul_le_mul_left 2 ?_)
    refine le_of_le_of_eq (List.countP_mono_left fun v _ h => ?_) List.countP_map.symm
    exact decide_eq_true (roundTo_mono 4 (of_decide_eq_true h))

theorem TtcRow.InRange.value {row : TtcRow} (h : row.InRange) (column : ScoreColumn) :
    column.value row ∈ Set.Icc (0 : ℚ) 1 := by
  cases column with
  | bva => exact h.bva_score
  | ecp => exact h.ecp_score
  | ttc => exact h.ttc_score

theorem summaryRow_mem (std : List ℚ → Option ℚ) (column : ScoreColumn) (ttc : List TtcRow)
    (compile : List CompileRow) :
    summaryRow std column ttc ∈ statisticalSummary std ttc compile := by
  cases column <;> simp [statisticalSummary]

/-- Stage 13, if it takes the mean exactly, describes each column of scores: they lie between zero and
one, and what it shows of them is in order. -/
theorem statisticalSummary_describes (A : Arithmetic) (dir : TestDir) (compile : List CompileRow)
    (hgt : gt ≠ []) (column : ScoreColumn) :
    ∃ row ∈ statisticalSummary std (ttcRows A U dir gt) compile, row.metric = column.name ∧
      ∃ low mid average high,
        row.Describes ((ttcRows A U dir gt).map column.value) low mid average high ∧
          0 ≤ low ∧ high ≤ 1 := by
  have hne : ttcRows A U dir gt ≠ [] := by simpa [ttcRows] using hgt
  obtain ⟨low, mid, average, high, hdescribes⟩ := summaryRow_describes std column hne
  have hunit : ∀ v ∈ ((ttcRows A U dir gt).map column.value).map (roundTo 4),
      v ∈ Set.Icc (0 : ℚ) 1 := by
    rw [List.forall_mem_map, List.forall_mem_map, ttcRows, List.forall_mem_map]
    exact fun row _ => roundTo_mem_unit 4 ((scoreRow_inRange row _).value column)
  exact ⟨_, summaryRow_mem std column _ compile, rfl, low, mid, average, high, hdescribes,
    (hunit low hdescribes.low_mem).1, (hunit high hdescribes.high_mem).2⟩

theorem statisticalSummary_describes_sample :
    ∃ row ∈ statisticalSummary (fun _ => none)
        (ttcRows .exact asciiData sampleDir sampleTruth) [],
      row.metric = ScoreColumn.ttc.name ∧
        ∃ low mid average high,
          row.Describes ((ttcRows .exact asciiData sampleDir sampleTruth).map ScoreColumn.ttc.value)
            low mid average high ∧ 0 ≤ low ∧ high ≤ 1 := by
  have hgt : sampleTruth ≠ [] := List.cons_ne_nil _ _
  exact statisticalSummary_describes .exact sampleDir [] hgt .ttc

/-! ## The ends of table 4.4 -/

theorem head_highest {ttc : List TtcRow} (hne : ttc ≠ []) :
    ∃ top, (highest ttc).head? = some top ∧
      (ttc.map TtcRow.ttcScore).max? = some top.ttcScore := by
  obtain ⟨top, rest, hsorted, htop, hgreatest⟩ :=
    exists_stableSort_eq_cons (fun row : TtcRow => OrderDual.toDual row.ttcScore) hne
  refine ⟨top, ?_, List.max?_eq_some_iff.mpr ⟨List.mem_map_of_mem htop, ?_⟩⟩
  · change ((stableSort (fun row : TtcRow => OrderDual.toDual row.ttcScore) ttc).take 5).head? = _
    rw [hsorted]
    rfl
  · rw [List.forall_mem_map]
    exact hgreatest

theorem head_lowest {ttc : List TtcRow} (hne : ttc ≠ []) :
    ∃ bottom, (lowest ttc).head? = some bottom ∧
      (ttc.map TtcRow.ttcScore).min? = some bottom.ttcScore := by
  obtain ⟨bottom, rest, hsorted, hbottom, hleast⟩ :=
    exists_stableSort_eq_cons TtcRow.ttcScore hne
  refine ⟨bottom, ?_, List.min?_eq_some_iff.mpr ⟨List.mem_map_of_mem hbottom, ?_⟩⟩
  · change ((stableSort TtcRow.ttcScore ttc).take 5).head? = _
    rw [hsorted]
    rfl
  · rw [List.forall_mem_map]
    exact hleast

/-- The first rows of the two halves of table 4.4 have the greatest and the least score of table 4.2
and of stage 13. -/
theorem extremes_agree (std : List ℚ → Option ℚ) {ttc : List TtcRow} (hne : ttc ≠ []) :
    ∃ top bottom, (topBottom ttc).head? = some top ∧
      (topBottom ttc)[min 5 ttc.length]? = some bottom ∧
      ("Maximum TTC Score".toList, some (roundTo 4 top.ttcScore)) ∈ ttcSummary ttc ∧
      ("Minimum TTC Score".toList, some (roundTo 4 bottom.ttcScore)) ∈ ttcSummary ttc ∧
      (summaryRow std .ttc ttc).max = some (roundTo 4 top.ttcScore) ∧
      (summaryRow std .ttc ttc).min = some (roundTo 4 bottom.ttcScore) := by
  obtain ⟨top, htop, hmax⟩ := head_highest hne
  obtain ⟨bottom, hbottom, hmin⟩ := head_lowest hne
  have hmax' : (ttc.map TtcRow.ttcScore).max?.map (roundTo 4) = some (roundTo 4 top.ttcScore) :=
    congrArg (Option.map (roundTo 4)) hmax
  have hmin' : (ttc.map TtcRow.ttcScore).min?.map (roundTo 4) =
      some (roundTo 4 bottom.ttcScore) :=
    congrArg (Option.map (roundTo 4)) hmin
  refine ⟨topBottomRow top, topBottomRow bottom, ?_, ?_, ?_, ?_, hmax', hmin'⟩
  · rw [topBottom, List.head?_map, List.head?_append, htop]
    rfl
  · have hlength : (highest ttc).length = min 5 ttc.length := (topRows_highest ttc).length_eq
    rw [topBottom, List.getElem?_map, List.getElem?_append_right hlength.le, hlength, Nat.sub_self,
      ← List.head?_eq_getElem?, hbottom]
    rfl
  · change (_, some (roundTo 4 top.ttcScore)) ∈ _
    rw [← hmax']
    simp [ttcSummary]
  · change (_, some (roundTo 4 bottom.ttcScore)) ∈ _
    rw [← hmin']
    simp [ttcSummary]

theorem extremes_agree_ranked :
    ∃ top bottom, (topBottom rankedTable).head? = some top ∧
      (topBottom rankedTable)[min 5 rankedTable.length]? = some bottom ∧
      ("Maximum TTC Score".toList, some (roundTo 4 top.ttcScore)) ∈ ttcSummary rankedTable ∧
      ("Minimum TTC Score".toList, some (roundTo 4 bottom.ttcScore)) ∈ ttcSummary rankedTable ∧
      (summaryRow (fun _ => none) .ttc rankedTable).max = some (roundTo 4 top.ttcScore) ∧
      (summaryRow (fun _ => none) .ttc rankedTable).min = some (roundTo 4 bottom.ttcScore) :=
  extremes_agree (fun _ => none) (by decide)

end TTCEvaluation
