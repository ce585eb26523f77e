import TTCEvaluation.Pipeline.Orders

/-!
# When a stage fails

A stage succeeds exactly if the tables it reads are there and have columns; the
four stages that can stop later need data as well.  A table that a failing stage
has written by then cannot be read, so no later stage takes it for a result.
-/

namespace TTCEvaluation.Pipeline

open Workflow

variable {T : Tools} {w : Workspace} {e : StageError}

/-- `pd.read_csv` returns the table. -/
def Readable (w : Workspace) (t : Table) : Prop := ∃ content, w.read t = .ok content

/-- What a stage needs in order to succeed. -/
def Ready (T : Tools) (w : Workspace) : Stage → Prop
  | .buildMetadata =>
      (∀ table ∈ w.raw, (detectCodeColumn T.unicode table.columns).isSome) ∧
        numberedCells T.unicode w.raw ≠ []
  | .exportPrompts =>
      ∃ prompts, w.read .prompts = .ok prompts ∧ ∀ row ∈ prompts, row.reread.opens = true
  | .ttcScore => ∃ gt, w.read .groundTruth = .ok gt ∧ gt.rows ≠ []
  | .compileScore =>
      ∃ gt, w.read .groundTruth = .ok gt ∧ gt.rows ≠ [] ∧
        ∀ row ∈ truthRows gt, undecodable (T.compiler w.includePath) w.tests row = false
  | s => ∀ t, Place.table t ∈ s.reads → Readable w t

/-! ## Reading -/

theorem bind_eq_ok_iff {ε α β : Type} {x : Except ε α} {f : α → Except ε β} {b : β} :
    (x >>= f) = .ok b ↔ ∃ a, x = .ok a ∧ f a = .ok b := by
  cases x with
  | error e => simp [bind, Except.bind]
  | ok a => simp [bind, Except.bind]

theorem bind_eq_error_iff {ε α β : Type} {x : Except ε α} {f : α → Except ε β} {e : ε} :
    (x >>= f) = .error e ↔ x = .error e ∨ ∃ a, x = .ok a ∧ f a = .error e := by
  cases x with
  | error e' => simp [bind, Except.bind]
  | ok a => simp [bind, Except.bind]

theorem map_eq_ok_iff {ε α β : Type} {x : Except ε α} {f : α → β} {b : β} :
    x.map f = .ok b ↔ ∃ a, x = .ok a ∧ f a = b := by
  cases x with
  | error e => simp [Except.map]
  | ok a => simp [Except.map]

theorem map_eq_error_iff {ε α β : Type} {x : Except ε α} {f : α → β} {e : ε} :
    x.map f = .error e ↔ x = .error e := by
  cases x with
  | error e' => simp [Except.map]
  | ok a => simp [Except.map]

theorem readTruth_eq_ok_iff {p : TestDir × List GroundTruthRow} :
    w.readTruth = .ok p ↔ ∃ gt, w.read .groundTruth = .ok gt ∧ (w.tests, truthRows gt) = p := by
  unfold Workspace.readTruth
  rw [bind_eq_ok_iff]
  simp only [Except.ok.injEq]

theorem readResults_eq_ok {p : List TtcRow × List CompileRow} (h : w.readResults = .ok p) :
    ∃ ttc compile, w.read .ttcResults = .ok ttc ∧ w.read .compileResults = .ok compile ∧
      p = (ttc.map rereadTtcRow, compile.map rereadCompileRow) := by
  obtain ⟨ttc, httc, h⟩ := bind_eq_ok_iff.mp h
  obtain ⟨compile, hcompile, h⟩ := bind_eq_ok_iff.mp h
  exact ⟨ttc, compile, httc, hcompile, (Except.ok.inj h).symm⟩

/-- Results that can be read are not empty. -/
theorem ne_nil_of_readResults {p : List TtcRow × List CompileRow} (h : w.readResults = .ok p) :
    p.1 ≠ [] ∧ p.2 ≠ [] := by
  obtain ⟨ttc, compile, httc, hcompile, rfl⟩ := readResults_eq_ok h
  have hrows := (Table.read_eq_ok_iff.mp httc).2
  have hrows' := (Table.read_eq_ok_iff.mp hcompile).2
  simpa [Table.columnless] using And.intro hrows hrows'

theorem readResults_eq_error (h : w.readResults = .error e) :
    w.read .ttcResults = .error e ∨ w.read .compileResults = .error e := by
  rcases bind_eq_error_iff.mp h with h | ⟨ttc, -, h⟩
  · exact Or.inl h
  · rcases bind_eq_error_iff.mp h with h | ⟨compile, -, h⟩
    · exact Or.inr h
    · cases h

/-! ## Stages that stop -/

/-- A stage stopped because it could not read a table, and did nothing. -/
def StoppedAtRead (T : Tools) (s : Stage) (w : Workspace) (e : StageError) : Prop :=
  (∃ t, Place.table t ∈ s.reads ∧ w.read t = .error e) ∧ (script T s).run w = w

theorem tableStage_failure {t : Table} {stage : TableStage t}
    (h : stage.script.failure w = some e) :
    (stage.load w = .error e ∧ stage.script.run w = w) ∨
      ∃ data, stage.load w = .ok data ∧ stage.stop data = some e ∧
        stage.script.run w = w.record t (stage.result data) := by
  change stage.failure (stage.load w) = some e at h
  have hrun : stage.script.run w = stage.put w (stage.load w) := rfl
  cases hload : stage.load w with
  | error e' =>
      rw [hload] at h hrun
      obtain rfl : e' = e := Option.some.inj h
      exact Or.inl ⟨rfl, hrun⟩
  | ok data =>
      rw [hload] at h hrun
      exact Or.inr ⟨data, rfl, h, hrun⟩

theorem stoppedAtRead_of_failure {s : Stage} {t : Table} (stage : TableStage t)
    (hs : script T s = stage.script)
    (hstop : ∀ data, stage.load w = .ok data → stage.stop data = none)
    (hload : stage.load w = .error e → ∃ t, Place.table t ∈ s.reads ∧ w.read t = .error e)
    (h : (script T s).failure w = some e) : StoppedAtRead T s w e := by
  unfold StoppedAtRead
  rw [hs] at h ⊢
  rcases tableStage_failure h with ⟨herror, hrun⟩ | ⟨data, hdata, hsome, -⟩
  · exact ⟨hload herror, hrun⟩
  · rw [hstop data hdata] at hsome
    cases hsome

/-- The reports of stages 11 to 14 only stop at their two tables: a share of no tests is not taken,
since a table without rows cannot be read. -/
theorem stoppedAtRead_of_report {s : Stage} {t : Table}
    {result : List TtcRow → List CompileRow → Option t.Content}
    {htable : Place.table t ∉ ({.table .ttcResults, .table .compileResults} : Finset Place)}
    (hs : script T s = (reportStage t result htable).script)
    (hreads : s.reads = {.table .ttcResults, .table .compileResults})
    (hresult : ∀ ttc compile, compile ≠ [] → (result ttc compile).isSome)
    (h : (script T s).failure w = some e) : StoppedAtRead T s w e := by
  refine stoppedAtRead_of_failure _ hs (fun p hp => ?_) (fun herror => ?_) h
  · have hsome := hresult p.1 p.2 (ne_nil_of_readResults hp).2
    refine if_neg ?_
    rwa [Option.isNone_iff_eq_none, ← Option.not_isSome_iff_eq_none, not_not]
  · rw [hreads]
    rcases readResults_eq_error herror with hread | hread
    · exact ⟨.ttcResults, by decide, hread⟩
    · exact ⟨.compileResults, by decide, hread⟩

/-- Stage 09 stops for want of rows, after it wrote an empty table. -/
theorem truthStage_failure {s : Stage} {t : Table}
    {result : TestDir → List GroundTruthRow → t.Content}
    {stop : TestDir → List GroundTruthRow → Option StageError}
    {htable : Place.table t ∉ ({.table .groundTruth, .tests} : Finset Place)}
    (hs : script T s = (truthStage t result stop htable).script)
    (hreads : s.reads = {.table .groundTruth, .tests})
    (h : (script T s).failure w = some e) :
    StoppedAtRead T s w e ∨ ∃ gt, w.read .groundTruth = .ok gt ∧
      stop w.tests (truthRows gt) = some e ∧
      (script T s).run w = w.write t (result w.tests (truthRows gt)) := by
  unfold StoppedAtRead
  rw [hs] at h ⊢
  rcases tableStage_failure h with ⟨herror, hrun⟩ | ⟨p, hp, hstop, hrun⟩
  · refine Or.inl ⟨⟨.groundTruth, by rw [hreads]; decide, ?_⟩, hrun⟩
    rcases bind_eq_error_iff.mp herror with hread | ⟨gt, -, hok⟩
    · exact hread
    · cases hok
  · obtain ⟨gt, hread, rfl⟩ := readTruth_eq_ok_iff.mp hp
    exact Or.inr ⟨gt, hread, hstop, hrun⟩

theorem scoreTests_stop {gt : SourceTable annotationSources}
    (h : stopOf (scoreTests T.arithmetic T.unicode w.tests (truthRows gt)) = some e) :
    gt.rows = [] ∧ e = .raised (.keyError "ttc_score".toList) := by
  unfold scoreTests at h
  split_ifs at h with hrows
  · exact ⟨List.map_eq_nil_iff.mp hrows, (Option.some.inj h).symm⟩
  · cases h

theorem compileTests_stop {gpp : Compiler} {gt : SourceTable annotationSources}
    (h : stopOf (compileTests gpp w.tests (truthRows gt)) = some e) :
    ((truthRows gt).any (undecodable gpp w.tests) = true ∧ e = .raised .unicodeDecodeError) ∨
      gt.rows = [] ∧ e = .raised (.keyError "compile_success".toList) := by
  unfold compileTests at h
  split_ifs at h with hany hrows
  · exact Or.inl ⟨hany, (Option.some.inj h).symm⟩
  · exact Or.inr ⟨List.map_eq_nil_iff.mp hrows, (Option.some.inj h).symm⟩
  · cases h

/-- How a stage fails: it could not read one of its tables and did nothing, or it is stage 01; or it is
stage 07 and came to a prompt that it cannot open; or stage 09 or 10 with a ground truth without rows,
and wrote an empty table; or stage 10 with a compiler message that it cannot decode. -/
inductive Stopped (T : Tools) (w : Workspace) : Stage → StageError → Prop
  | atRead {s : Stage} {e : StageError} (h : StoppedAtRead T s w e) : Stopped T w s e
  | building (error : PyError) : Stopped T w .buildMetadata (.raised error)
  | opening {prompts : List PromptRow} {path : Text} (hread : w.read .prompts = .ok prompts)
      (hpath : (exportPrompts (prompts.map PromptRow.reread)).2 = some path) :
      Stopped T w .exportPrompts (.noSuchFile path)
  | unscored {gt : SourceTable annotationSources} (hread : w.read .groundTruth = .ok gt)
      (hrows : gt.rows = []) (hrun : (script T .ttcScore).run w = w.write .ttcResults []) :
      Stopped T w .ttcScore (.raised (.keyError "ttc_score".toList))
  | uncompiled {gt : SourceTable annotationSources} (hread : w.read .groundTruth = .ok gt)
      (hrows : gt.rows = []) (hrun : (script T .compileScore).run w = w.write .compileResults []) :
      Stopped T w .compileScore (.raised (.keyError "compile_success".toList))
  | undecoded {gt : SourceTable annotationSources} (hread : w.read .groundTruth = .ok gt)
      (hmessage : (truthRows gt).any (undecodable (T.compiler w.includePath) w.tests) = true)
      (hrun : (script T .compileScore).run w = w) :
      Stopped T w .compileScore (.raised .unicodeDecodeError)

theorem stopped_compileScore (h : (script T .compileScore).failure w = some e) :
    Stopped T w .compileScore e := by
  have hstage : (compileStage T).script.failure w = some e := h
  rcases tableStage_failure hstage with ⟨herror, hrun⟩ | ⟨p, hp, hstop, hrun⟩
  · refine .atRead ⟨⟨.groundTruth, by decide, ?_⟩, hrun⟩
    rcases bind_eq_error_iff.mp (map_eq_error_iff.mp herror) with hread | ⟨gt, -, hok⟩
    · exact hread
    · cases hok
  · obtain ⟨p, hload, rfl⟩ := map_eq_ok_iff.mp hp
    obtain ⟨gt, hread, rfl⟩ := readTruth_eq_ok_iff.mp hload
    change (script T .compileScore).run w = w.record .compileResults (if _ then _ else _) at hrun
    rcases compileTests_stop hstop with ⟨hmessage, rfl⟩ | ⟨hrows, rfl⟩
    · rw [if_pos hmessage] at hrun
      exact .undecoded hread hmessage hrun
    · have hempty : truthRows gt = [] := by rw [truthRows, hrows, List.map_nil]
      rw [hempty] at hrun
      exact .uncompiled hread hrows hrun

theorem stopped_exportPrompts (h : (script T .exportPrompts).failure w = some e) :
    Stopped T w .exportPrompts e := by
  change exportPromptsScript.error (w.read .prompts) = some e at h
  cases hread : w.read .prompts with
  | error e' =>
      rw [hread] at h
      obtain rfl : e' = e := Option.some.inj h
      refine .atRead ⟨⟨.prompts, by decide, hread⟩, ?_⟩
      change exportPromptsScript.put (w.read .prompts) w = w
      rw [hread]
      rfl
  | ok prompts =>
      rw [hread] at h
      obtain ⟨path, hpath, rfl⟩ := Option.map_eq_some_iff.mp h
      exact .opening hread hpath

theorem stopped_of_failure {s : Stage} (h : (script T s).failure w = some e) :
    Stopped T w s e := by
  cases s with
  | buildMetadata =>
      obtain ⟨error, -, rfl⟩ := Option.map_eq_some_iff.mp h
      exact .building error
  | selectCandidateFunctions =>
      exact .atRead (stoppedAtRead_of_failure (selectStage T) rfl (fun _ _ => rfl)
        (fun herror => ⟨.metadata, by decide, herror⟩) h)
  | createFinalDataset =>
      change createFinalDatasetScript.error (w.read .selectedCandidates) = some e at h
      cases hread : w.read .selectedCandidates with
      | ok selected =>
          rw [hread] at h
          cases h
      | error e' =>
          rw [hread] at h
          obtain rfl : e' = e := Option.some.inj h
          refine .atRead ⟨⟨.selectedCandidates, by decide, hread⟩, ?_⟩
          change createFinalDatasetScript.put (w.read .selectedCandidates) w = w
          rw [hread]
          rfl
  | createGroundTruthTemplate =>
      exact .atRead (stoppedAtRead_of_failure templateStage rfl (fun _ _ => rfl)
        (fun herror => ⟨.finalSelected, by decide, herror⟩) h)
  | preannotateGroundTruth =>
      exact .atRead (stoppedAtRead_of_failure (preannotateStage T) rfl (fun _ _ => rfl)
        (fun herror => ⟨.template, by decide, map_eq_error_iff.mp herror⟩) h)
  | createPrompts =>
      exact .atRead (stoppedAtRead_of_failure promptStage rfl (fun _ _ => rfl)
        (fun herror => ⟨.groundTruth, by decide, map_eq_error_iff.mp herror⟩) h)
  | exportPrompts => exact stopped_exportPrompts h
  | collectGeneratedTests =>
      rcases truthStage_failure rfl rfl h with hread | ⟨gt, -, hstop, -⟩
      · exact .atRead hread
      · cases hstop
  | ttcScore =>
      rcases truthStage_failure rfl rfl h with hread | ⟨gt, hread, hstop, hrun⟩
      · exact .atRead hread
      · obtain ⟨hrows, rfl⟩ := scoreTests_stop hstop
        rw [truthRows, hrows] at hrun
        exact .unscored hread hrows hrun
  | compileScore => exact stopped_compileScore h
  | generateMetrics =>
      refine .atRead (stoppedAtRead_of_report rfl rfl (fun ttc compile hne => ?_) h)
      rw [finalMetrics, if_neg hne]
      rfl
  | generateFigures =>
      exact .atRead (stoppedAtRead_of_report rfl rfl (fun _ _ _ => rfl) h)
  | statisticalAnalysis =>
      exact .atRead (stoppedAtRead_of_report rfl rfl (fun _ _ _ => rfl) h)
  | createFinalResultsTable =>
      exact .atRead (stoppedAtRead_of_report rfl rfl (fun _ _ _ => rfl) h)
  | generateThesisTables =>
      refine .atRead (stoppedAtRead_of_failure (thesisStage T) rfl (fun _ _ => rfl) ?_ h)
      intro herror
      rcases bind_eq_error_iff.mp herror with hread | ⟨gt, -, herror⟩
      · exact ⟨.groundTruth, by decide, hread⟩
      · rcases bind_eq_error_iff.mp herror with hread | ⟨results, -, hok⟩
        · rcases readResults_eq_error hread with hread | hread
          · exact ⟨.ttcResults, by decide, hread⟩
          · exact ⟨.compileResults, by decide, hread⟩
        · cases hok

/-! ## Stages that succeed -/

/-- Stage 01 can only fail for want of a code column or of code. -/
theorem buildMetadata_failure_iff :
    (script T .buildMetadata).failure w = none ↔
      (∀ table ∈ w.raw, (detectCodeColumn T.unicode table.columns).isSome) ∧
        numberedCells T.unicode w.raw ≠ [] := by
  have hfailure : (script T .buildMetadata).failure w =
      (runBuildMetadata T.unicode w.raw fun _ => none).error.map StageError.raised := rfl
  rw [hfailure, Option.map_eq_none_iff, runBuildMetadata_error_eq_none_iff]

theorem exists_load_of_success {t : Table} (stage : TableStage t)
    (h : stage.script.failure w = none) :
    ∃ data, stage.load w = .ok data ∧ stage.stop data = none := by
  change stage.failure (stage.load w) = none at h
  cases hload : stage.load w with
  | error e =>
      rw [hload] at h
      cases h
  | ok data =>
      rw [hload] at h
      exact ⟨data, rfl, h⟩

theorem readable_of_readResults {p : List TtcRow × List CompileRow} (h : w.readResults = .ok p) :
    ∀ t, Place.table t ∈ ({.table .ttcResults, .table .compileResults} : Finset Place) →
      Readable w t := by
  obtain ⟨ttc, compile, httc, hcompile, -⟩ := readResults_eq_ok h
  intro t ht
  simp only [Finset.mem_insert, Finset.mem_singleton, Place.table.injEq] at ht
  rcases ht with rfl | rfl
  · exact ⟨ttc, httc⟩
  · exact ⟨compile, hcompile⟩

theorem readable_of_read {t : Table} {content : t.Content} (h : w.read t = .ok content)
    {K : Finset Place} (hK : ∀ t', Place.table t' ∈ K → t' = t) :
    ∀ t', Place.table t' ∈ K → Readable w t' := by
  intro t' ht'
  obtain rfl := hK t' ht'
  exact ⟨content, h⟩

theorem ready_of_success {s : Stage} (h : (script T s).failure w = none) : Ready T w s := by
  cases s with
  | buildMetadata => exact buildMetadata_failure_iff.mp h
  | selectCandidateFunctions =>
      obtain ⟨metadata, hload, -⟩ := exists_load_of_success (selectStage T) h
      exact readable_of_read hload (by simp [Stage.reads])
  | createFinalDataset =>
      change createFinalDatasetScript.error (w.read .selectedCandidates) = none at h
      cases hread : w.read .selectedCandidates with
      | error e =>
          rw [hread] at h
          cases h
      | ok selected => exact readable_of_read hread (by simp [Stage.reads])
  | createGroundTruthTemplate =>
      obtain ⟨final, hload, -⟩ := exists_load_of_success templateStage h
      exact readable_of_read hload (by simp [Stage.reads])
  | preannotateGroundTruth =>
      obtain ⟨table, hload, -⟩ := exists_load_of_success (preannotateStage T) h
      obtain ⟨template, hread, -⟩ := map_eq_ok_iff.mp hload
      exact readable_of_read hread (by simp [Stage.reads])
  | createPrompts =>
      obtain ⟨prompts, hload, -⟩ := exists_load_of_success promptStage h
      obtain ⟨gt, hread, -⟩ := map_eq_ok_iff.mp hload
      exact readable_of_read hread (by simp [Stage.reads])
  | exportPrompts =>
      change exportPromptsScript.error (w.read .prompts) = none at h
      cases hread : w.read .prompts with
      | error e =>
          rw [hread] at h
          cases h
      | ok prompts =>
          rw [hread] at h
          have hopens := exportPrompts_error_eq_none_iff.mp (Option.map_eq_none_iff.mp h)
          exact ⟨prompts, hread, List.forall_mem_map.mp hopens⟩
  | collectGeneratedTests =>
      obtain ⟨p, hload, -⟩ := exists_load_of_success collectStage h
      obtain ⟨gt, hread, -⟩ := readTruth_eq_ok_iff.mp hload
      exact readable_of_read hread (by simp [Stage.reads])
  | ttcScore =>
      obtain ⟨p, hload, hstop⟩ := exists_load_of_success (ttcStage T) h
      obtain ⟨gt, hread, rfl⟩ := readTruth_eq_ok_iff.mp hload
      refine ⟨gt, hread, fun hrows => ?_⟩
      change stopOf (scoreTests T.arithmetic T.unicode w.tests (truthRows gt)) = none at hstop
      rw [truthRows, hrows] at hstop
      cases hstop
  | compileScore =>
      obtain ⟨p, hload, hstop⟩ := exists_load_of_success (compileStage T) h
      obtain ⟨q, htruth, rfl⟩ := map_eq_ok_iff.mp hload
      obtain ⟨gt, hread, rfl⟩ := readTruth_eq_ok_iff.mp htruth
      change stopOf (compileTests (T.compiler w.includePath) w.tests (truthRows gt)) = none at hstop
      unfold compileTests at hstop
      split_ifs at hstop with hany hrows
      · cases hstop
      · cases hstop
      · exact ⟨gt, hread, fun hnil => hrows (by rw [truthRows, hnil, List.map_nil]),
          by simpa using hany⟩
  | generateMetrics =>
      obtain ⟨p, hload, -⟩ := exists_load_of_success metricsStage h
      exact readable_of_readResults hload
  | generateFigures =>
      obtain ⟨p, hload, -⟩ := exists_load_of_success figuresStage h
      exact readable_of_readResults hload
  | statisticalAnalysis =>
      obtain ⟨p, hload, -⟩ := exists_load_of_success (summaryStage T) h
      exact readable_of_readResults hload
  | createFinalResultsTable =>
      obtain ⟨p, hload, -⟩ := exists_load_of_success resultsStage h
      exact readable_of_readResults hload
  | generateThesisTables =>
      obtain ⟨p, hload, -⟩ := exists_load_of_success (thesisStage T) h
      obtain ⟨gt, hread, hload⟩ := bind_eq_ok_iff.mp hload
      obtain ⟨results, hresults, -⟩ := bind_eq_ok_iff.mp hload
      intro t ht
      rcases Finset.mem_insert.mp ht with heq | ht
      · obtain rfl := Place.table.inj heq
        exact ⟨gt, hread⟩
      · exact readable_of_readResults hresults t ht

/-- What a stage needs lets it read its tables. -/
theorem readable_of_ready {s : Stage} (h : Ready T w s) {t : Table}
    (ht : Place.table t ∈ s.reads) : Readable w t := by
  cases s with
  | buildMetadata => cases Finset.mem_singleton.mp ht
  | exportPrompts =>
      obtain ⟨prompts, hread, -⟩ := h
      exact readable_of_read hread (by simp [Stage.reads]) t ht
  | ttcScore | compileScore =>
      obtain ⟨gt, hread, -⟩ := h
      exact readable_of_read hread (by simp [Stage.reads]) t ht
  | _ => exact h t ht

/-- A stage succeeds exactly if it has what it needs. -/
theorem failure_eq_none_iff {s : Stage} : (script T s).failure w = none ↔ Ready T w s := by
  constructor
  · exact ready_of_success
  · intro hready
    by_contra hfailure
    obtain ⟨e, he⟩ := Option.ne_none_iff_exists'.mp hfailure
    cases stopped_of_failure he with
    | atRead hstopped =>
        obtain ⟨⟨t, ht, hread⟩, -⟩ := hstopped
        obtain ⟨content, hcontent⟩ := readable_of_ready hready ht
        rw [hread] at hcontent
        cases hcontent
    | building error =>
        rw [buildMetadata_failure_iff.mpr hready] at he
        cases he
    | opening hread hpath =>
        obtain ⟨prompts, hprompts, hopens⟩ := hready
        rw [hread] at hprompts
        obtain rfl := Except.ok.inj hprompts
        have hnone := exportPrompts_error_eq_none_iff.mpr (List.forall_mem_map.mpr hopens)
        rw [hnone] at hpath
        cases hpath
    | unscored hread hrows =>
        obtain ⟨gt, hgt, hne⟩ := hready
        rw [hread] at hgt
        exact hne (Except.ok.inj hgt ▸ hrows)
    | uncompiled hread hrows =>
        obtain ⟨gt, hgt, hne, -⟩ := hready
        rw [hread] at hgt
        exact hne (Except.ok.inj hgt ▸ hrows)
    | undecoded hread hmessage =>
        obtain ⟨gt, hgt, -, hdecoded⟩ := hready
        rw [hread] at hgt
        obtain rfl := Except.ok.inj hgt
        obtain ⟨row, hrow, htrue⟩ := List.any_eq_true.mp hmessage
        rw [hdecoded row hrow] at htrue
        cases htrue

/-! ## What is left behind -/

/-- A table that a stage has written without columns, over the one that was there. -/
def Overwritten (s : Stage) (w : Workspace) (t : Table) : Prop :=
  s.output = some t ∧ ∃ content, w.tables t = some content ∧ t.columnless content = true

/-- Every table is as it was, or the stage has written its own without columns. -/
def TablesKept (s : Stage) (w w' : Workspace) : Prop :=
  ∀ t, w'.tables t = w.tables t ∨ Overwritten s w' t

/-- A table without columns cannot be read, so a stage that fails makes no table readable. -/
theorem TablesKept.read_eq {s : Stage} {w' : Workspace} (h : TablesKept s w w') {t : Table}
    {content : t.Content} (hread : w'.read t = .ok content) : w.read t = .ok content := by
  rcases h t with hsame | ⟨-, content', hfile, hcolumns⟩
  · rwa [Workspace.read, hsame] at hread
  · have hnot := (Table.read_eq_ok_iff.mp hread).2
    rw [Table.eq_of_read hread hfile, hcolumns] at hnot
    cases hnot

end TTCEvaluation.Pipeline
