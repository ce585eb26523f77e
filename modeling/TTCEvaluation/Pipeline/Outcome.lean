import TTCEvaluation.Evaluation.Improvement
import TTCEvaluation.Pipeline.Completion

/-!
# What a finished evaluation leaves

Where the stages of the evaluation are up to date, each function of the ground
truth has a prompt file of its own, all reports in the folder count the same
functions, tests and compiler results, and tests with more lines never lower a
reported score.
-/

namespace TTCEvaluation.Pipeline

open Workflow

variable {T : Tools} {w : Workspace} {gt : SourceTable annotationSources}

/-! ## Prompt files -/

/-- Identifiers that stage 01 issued give distinct names to prompt files. -/
theorem promptFileName_injective {n m : ℕ} {name name' : Cell}
    (h : promptsDir ++ promptFileName (itemId n) name =
      promptsDir ++ promptFileName (itemId m) name') : n = m :=
  eq_of_itemId_append_eq (List.append_cancel_left h)

theorem groundTruth_sampleHistory :
    (after sampleHistory (.initial [])).tables .groundTruth = some sampleTruthTable := by
  unfold sampleHistory
  exact (fullHistory_end plainTools [singleTable sampleCode] sampleTruthTable (.ofListing [])
    (.initial [])).2.2

theorem nodup_sampleTruthTable : (sampleTruthTable.rows.map AnnotationRow.id).Nodup :=
  List.nodup_singleton (itemId 1)

/-- The folder has the sample code as the source of the sample function. -/
theorem files_sampleSource : ∀ row ∈ sampleTruthTable.rows,
    (after sampleHistory (.initial [])).files row.functionFile = some sampleCode := by
  intro row hrow
  have hraw : (after sampleHistory (.initial [])).raw = [singleTable sampleCode] := by
    unfold sampleHistory
    exact (fullHistory_end plainTools [singleTable sampleCode] sampleTruthTable (.ofListing [])
      (.initial [])).1
  have hsources := (ran_sampleHistory .buildMetadata).upToDate.metadata.2
  generalize after sampleHistory (.initial []) = w at hraw hsources ⊢
  have hfile := @files_functionFile asciiData _ w.files _ (mem_sampleCells [])
  rw [← hsources, hraw, List.mem_singleton.mp hrow]
  exact hfile

/-- After stages 06 and 07, every function of a ground truth with distinct issued identifiers whose
source is there has its prompt, with the source as it is now, in a file of its own. -/
theorem prompt_file_current (T : Tools) (events : List Event) (w : Workspace)
    (h₆ : Ran T .createPrompts events w) (h₇ : Ran T .exportPrompts events w)
    (hgt : (after events w).tables .groundTruth = some gt)
    (hdistinct : (gt.rows.map AnnotationRow.id).Nodup)
    (hissued : ∀ row ∈ gt.rows, ∃ n, row.id = itemId n) :
    ∀ row ∈ gt.rows, ∀ code, (after events w).files row.functionFile = some code →
      (after events w).files (promptsDir ++ promptFileName row.id (handOff row.functionName)) =
        some (promptText (universalNewlines code)) := by
  have hprompts := h₆.upToDate
  have hexport := h₇.upToDate
  generalize after events w = v at hgt hprompts hexport ⊢
  have htable := hprompts.promptTable_eq hgt
  have hfiles := (hexport.promptFiles htable).2
  rw [reread_promptTable] at hfiles
  change Store.writeAll v.files ((promptTable v.files gt).map fun row => (row.path, row.prompt)) = _
    at hfiles
  intro row hrow code hcode
  have hmem : (promptsDir ++ promptFileName row.id (handOff row.functionName),
      promptText (universalNewlines code)) ∈
        (promptTable v.files gt).map fun row => (row.path, row.prompt) := by
    refine List.mem_map.mpr ⟨⟨row.id, handOff row.functionName, row.functionFile,
      promptText (universalNewlines code)⟩, ?_, rfl⟩
    refine List.mem_filterMap.mpr ⟨row.reread, List.mem_map_of_mem hrow, ?_⟩
    change (v.files row.functionFile).map _ = _
    rw [hcode]
    rfl
  rw [← hfiles]
  refine Store.writeAll_of_agree v.files hmem fun p hp hpath => ?_
  -- a prompt at the same path is for the same row
  obtain ⟨prompt, hprompt, rfl⟩ := List.mem_map.mp hp
  obtain ⟨reread, hreread, heq⟩ := List.mem_filterMap.mp hprompt
  obtain ⟨code', hcode', rfl⟩ := Option.map_eq_some_iff.mp heq
  obtain ⟨row', hrow', rfl⟩ := List.mem_map.mp hreread
  obtain ⟨n, hn⟩ := hissued row hrow
  obtain ⟨m, hm⟩ := hissued row' hrow'
  change promptsDir ++ promptFileName row'.id _ = promptsDir ++ promptFileName row.id _ at hpath
  rw [hn, hm] at hpath
  have hid : row'.id = row.id := by rw [hn, hm, promptFileName_injective hpath]
  obtain rfl := List.inj_on_of_nodup_map hdistinct hrow' hrow hid
  change v.files row'.functionFile = some code' at hcode'
  rw [hcode] at hcode'
  rw [Option.some.inj hcode']

theorem prompt_file_current_sample :
    ∃ row ∈ sampleTruthTable.rows,
      (after sampleHistory (.initial [])).files row.functionFile = some sampleCode ∧
      (after sampleHistory (.initial [])).files
          (promptsDir ++ promptFileName row.id (handOff row.functionName)) =
        some (promptText (universalNewlines sampleCode)) := by
  obtain ⟨row, hrow⟩ := List.exists_mem_of_ne_nil sampleTruthTable.rows (List.cons_ne_nil _ _)
  have hsource := files_sampleSource row hrow
  exact ⟨row, hrow, hsource, prompt_file_current plainTools sampleHistory (.initial [])
    (ran_sampleHistory _) (ran_sampleHistory _) groundTruth_sampleHistory nodup_sampleTruthTable
    issued_sampleTruthTable row hrow sampleCode hsource⟩

/-! ## Reports -/

/-- The reports in the folder. -/
structure Holds (w : Workspace) (r : Reports) : Prop where
  metrics : w.tables .finalMetrics = some r.metrics
  figures : w.tables .figures = some r.figures
  summary : w.tables .statisticalSummary = some r.summary
  results : w.tables .finalResults = some r.results
  thesis : w.tables .thesisTables = some r.thesis

/-- The reports in a folder with an up-to-date evaluation. -/
theorem exists_reports {events : List Event} {w : Workspace}
    (h : ∀ s ∈ evaluationStages, Ran T s events w)
    (hgt : (after events w).tables .groundTruth = some gt) :
    truthRows gt ≠ [] ∧
      ∃ r ∈ reports T.unicode T.std (truthRows gt) (ttcTable T (after events w).tests gt)
        (compileTable T (after events w) gt), Holds (after events w) r := by
  obtain ⟨gt', hcurrent⟩ := evaluation_current_of_upToDate fun s hs => (h s hs).upToDate
  have hscored := (h .ttcScore (by decide)).upToDate
  generalize after events w = v at hgt hcurrent hscored ⊢
  have hsame := hcurrent.truth
  rw [hgt] at hsame
  obtain rfl := Option.some.inj hsame
  have hrows : truthRows gt ≠ [] := by
    obtain ⟨gt', hread, hne⟩ := ready_of_success hscored.1
    rw [Table.eq_of_read hread hgt] at hne
    simpa [truthRows] using hne
  have hcompile : compileTable T v gt ≠ [] := by
    rw [compileTable, compileRows]
    exact fun hnil => hrows (List.map_eq_nil_iff.mp hnil)
  obtain ⟨metrics, hmetrics, -⟩ := exists_finalMetrics hcompile (ttcTable T v.tests gt)
  refine ⟨hrows, _, congrArg (Option.map _) hmetrics, ?_⟩
  exact
    { metrics := hcurrent.metrics.trans hmetrics
      figures := hcurrent.figures
      summary := hcurrent.summary
      results := hcurrent.results
      thesis := hcurrent.thesis }

/-- How many of the tests that are found in the folder compile there. -/
def compilingIn (T : Tools) (w : Workspace) (gt : SourceTable annotationSources) : ℕ :=
  compilingTests (T.compiler w.includePath) w.tests (truthRows gt)

/-- After stages 06 to 15 have run on a ground truth with distinct identifiers, in the order of their
inputs and with success, all reports count the same functions, tests and compiler results. -/
theorem reports_agree (T : Tools) (events : List Event) (w : Workspace)
    (h : ∀ s ∈ evaluationStages, Ran T s events w)
    (hgt : (after events w).tables .groundTruth = some gt)
    (hdistinct : (gt.rows.map AnnotationRow.id).Nodup) :
    ∃ r, Holds (after events w) r ∧
      r.Tallied gt.rows.length (foundTests (after events w).tests (truthRows gt))
        (compilingIn T (after events w) gt)
        (gt.rows.length - compilingIn T (after events w) gt) := by
  obtain ⟨hrows, r, hr, hholds⟩ := exists_reports h hgt
  have hids : ((truthRows gt).map (·.id)).Nodup := by
    have heq : (truthRows gt).map (·.id) = gt.rows.map AnnotationRow.id := List.map_map
    rw [heq]
    exact hdistinct
  obtain ⟨r', hr', htallied⟩ := @reports_tallied T.unicode T.std (truthRows gt) T.arithmetic
    (T.compiler (after events w).includePath) (after events w).tests hrows hids
  have hlength : (truthRows gt).length = gt.rows.length := List.length_map _
  have hsame : r' = r := Option.some.inj (hr'.symm.trans hr)
  rw [hlength, hsame] at htallied
  exact ⟨r, hholds, htallied⟩

def testedHistory (dir : TestDir) : List Event :=
  fullHistory plainTools [singleTable sampleCode] sampleTruthTable dir

theorem ran_testedHistory (dir : TestDir) (s : Stage) :
    Ran plainTools s (testedHistory dir) (.initial []) :=
  settled_of_succeeds (pairwise_fullHistory ..) (succeeds_sampleCode [] dir _)
    (List.mem_map_of_mem (run_mem_fullHistory ..))

theorem testedHistory_end (dir : TestDir) :
    (after (testedHistory dir) (.initial [])).tests = dir ∧
      (after (testedHistory dir) (.initial [])).tables .groundTruth = some sampleTruthTable := by
  unfold testedHistory
  exact (fullHistory_end plainTools [singleTable sampleCode] sampleTruthTable dir _).2

/-- The sample function has a test, and it compiles. -/
theorem reports_agree_sample :
    ∃ r, Holds (after (testedHistory sampleDir) (.initial [])) r ∧ r.Tallied 1 1 1 0 := by
  obtain ⟨htests, hgt⟩ := testedHistory_end sampleDir
  obtain ⟨r, hholds, htallied⟩ := reports_agree plainTools (testedHistory sampleDir) (.initial [])
    (fun s _ => ran_testedHistory sampleDir s) hgt nodup_sampleTruthTable
  have hcompiling : compilingIn plainTools (after (testedHistory sampleDir) (.initial []))
      sampleTruthTable = 1 := by
    rw [compilingIn, htests]
    change compilingTests quietCompiler sampleDir (truthRows sampleTruthTable) = 1
    decide
  have hfound : foundTests sampleDir (truthRows sampleTruthTable) = 1 := by decide
  rw [hcompiling, htests, hfound] at htallied
  exact ⟨r, hholds, htallied⟩

/-! ## Better tests -/

/-- Two evaluations of a ground truth with one-line cells, in any folders and with any compilers: if
the tests of the second have all lines of those of the first, no function scores less in any of its
three scores, and no score in the reports is less. -/
theorem better_tests (T T' : Tools) (harithmetic : T'.arithmetic = T.arithmetic)
    (hunicode : T'.unicode = T.unicode) (events events' : List Event) (w w' : Workspace)
    (h : ∀ s ∈ evaluationStages, Ran T s events w)
    (h' : ∀ s ∈ evaluationStages, Ran T' s events' w')
    (hgt : (after events w).tables .groundTruth = some gt)
    (hgt' : (after events' w').tables .groundTruth = some gt)
    (hcells : ∀ row ∈ truthRows gt, row.OneLine)
    (hbetter : Improves (after events w).tests (after events' w').tests (truthRows gt)) :
    ∃ ttc ttc' r r', (after events w).tables .ttcResults = some ttc ∧
      (after events' w').tables .ttcResults = some ttc' ∧
      Holds (after events w) r ∧ Holds (after events' w') r' ∧
      List.Forall₂ TtcRow.ScoresLe ttc ttc' ∧ r.ScoresLe r' := by
  obtain ⟨-, r, hr, hholds⟩ := exists_reports h hgt
  obtain ⟨-, r', hr', hholds'⟩ := exists_reports h' hgt'
  have hscored := (h .ttcScore (by decide)).upToDate.scored hgt
  have hscored' := (h' .ttcScore (by decide)).upToDate.scored hgt'
  have hrows : List.Forall₂ TtcRow.ScoresLe (ttcTable T (after events w).tests gt)
      (ttcTable T' (after events' w').tests gt) := by
    unfold ttcTable
    rw [harithmetic, hunicode]
    exact forall₂_ttcRows hcells hbetter
  rw [hunicode] at hr'
  exact ⟨_, _, r, r', hscored, hscored', hholds, hholds', hrows,
    scoresLe (forall₂_values hrows) hr hr'⟩

/-- The sample test with two more lines. -/
def longerDir : TestDir :=
  TestDir.ofListing [⟨"function_0001_add_gpt_test.cpp".toList,
    "// limits\nTEST(A, b) { add(7); }\nTEST(A, c) { add(0); }".toList⟩]

/-- The expected value is in the longer test alone, and raises the score from zero to one. -/
theorem better_tests_sample :
    ∃ ttc ttc' r r', (after (testedHistory sampleDir) (.initial [])).tables .ttcResults = some ttc ∧
      (after (testedHistory longerDir) (.initial [])).tables .ttcResults = some ttc' ∧
      Holds (after (testedHistory sampleDir) (.initial [])) r ∧
      Holds (after (testedHistory longerDir) (.initial [])) r' ∧
      List.Forall₂ TtcRow.ScoresLe ttc ttc' ∧ r.ScoresLe r' ∧
      ttc.map TtcRow.ttcScore = [0] ∧ ttc'.map TtcRow.ttcScore = [1] := by
  obtain ⟨htests, hgt⟩ := testedHistory_end sampleDir
  obtain ⟨htests', hgt'⟩ := testedHistory_end longerDir
  have hcells : ∀ row ∈ truthRows sampleTruthTable, row.OneLine := by
    intro row hrow
    rw [List.mem_singleton.mp hrow]
    exact ⟨fun text htext => Option.some.inj htext ▸ by decide, nofun⟩
  have hbetter : Improves sampleDir longerDir (truthRows sampleTruthTable) := by
    intro row hrow file hfile
    rw [List.mem_singleton.mp hrow] at hfile ⊢
    obtain rfl : file = ⟨"function_0001_add_gpt_test.cpp".toList,
        "TEST(A, b) { add(7); }".toList⟩ := (Option.some.inj hfile).symm
    exact ⟨_, rfl, by decide⟩
  have hscores (dir : TestDir) : ∀ ttc,
      (after (testedHistory dir) (.initial [])).tables .ttcResults = some ttc →
        ttc = ttcRows .binary64 asciiData dir (truthRows sampleTruthTable) := by
    intro ttc httc
    obtain ⟨htests, hgt⟩ := testedHistory_end dir
    have hscored := (ran_testedHistory dir .ttcScore).upToDate.scored hgt
    rw [htests, httc] at hscored
    exact Option.some.inj hscored
  obtain ⟨ttc, ttc', r, r', httc, httc', hholds, hholds', hrows, hreports⟩ :=
    better_tests plainTools plainTools rfl rfl (testedHistory sampleDir) (testedHistory longerDir)
      (.initial []) (.initial []) (fun s _ => ran_testedHistory sampleDir s)
      (fun s _ => ran_testedHistory longerDir s) hgt hgt' hcells (by rwa [htests, htests'])
  refine ⟨ttc, ttc', r, r', httc, httc', hholds, hholds', hrows, hreports, ?_, ?_⟩
  · rw [hscores sampleDir ttc httc]
    decide +kernel
  · rw [hscores longerDir ttc' httc']
    decide +kernel

end TTCEvaluation.Pipeline
