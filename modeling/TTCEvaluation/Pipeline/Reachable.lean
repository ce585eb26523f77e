import TTCEvaluation.Extraction.Selection
import TTCEvaluation.Pipeline.Completion
import TTCEvaluation.Pipeline.Invariant

/-!
# Every folder that can arise is sound

Stages run in any order, fail or succeed, with any tools, while raw tables,
tests and ground truth are exchanged by hand.  Each of these steps keeps the
folder sound.
-/

namespace TTCEvaluation.Pipeline

open Workflow

variable {T : Tools} {w : Workspace} {U : UnicodeData} {files : Text → Option Text}

/-! ## Stage 01 -/

theorem strip_ne_nil_of_mem_numberedCells {tables : List ParquetTable} {p : CodeCell × ℕ}
    (hp : p ∈ numberedCells U tables) : strip p.1.code ≠ [] := by
  have hcell : p.1 ∈ tables.flatMap (codeCells U) := by
    rw [← map_fst_numberedCells]
    exact List.mem_map_of_mem hp
  obtain ⟨table, -, hcell⟩ := List.mem_flatMap.mp hcell
  unfold codeCells at hcell
  cases hcol : detectCodeColumn U table.columns with
  | none =>
      rw [hcol] at hcell
      cases hcell
  | some codeColumn =>
      rw [hcol] at hcell
      obtain ⟨row, -, hrow⟩ := List.mem_filterMap.mp hcell
      obtain ⟨code, hcode, hrow⟩ := Option.map_eq_some_iff.mp hrow
      rw [← hrow]
      unfold nonBlank at hcode
      split at hcode
      · cases hcode
      · split_ifs at hcode with hblank
        rw [← Option.some.inj hcode]
        exact hblank

theorem looksLike_of_humanTest {cell : RawCell} {test : Text} (h : humanTest cell = some test) :
    looksLikeCppTestCode (.text test) = true := by
  unfold humanTest at h
  split at h
  · cases h
  · split_ifs at h with hlooks
    rw [← Option.some.inj h]
    exact hlooks

theorem filesSound_extraction (hfiles : FilesSound files) (tables : List ParquetTable) :
    FilesSound (extraction U tables files).files := by
  refine hfiles.writeAll fun w hw => ?_
  obtain ⟨p, hp, rfl | ⟨test, htest, rfl⟩⟩ := mem_cellWrites.mp hw
  · exact .function (Or.inl rfl) p.2 (strip_ne_nil_of_mem_numberedCells hp)
  · refine .test (Or.inl rfl) p.2 (looksLike_of_humanTest htest) ?_
    have hfunction : (extraction U tables files).files (p.1.functionFile p.2) = some p.1.code :=
      files_functionFile hp
    exact Option.isSome_iff_exists.mpr ⟨_, hfunction⟩

theorem filed_metadataRow {tables : List ParquetTable} {p : CodeCell × ℕ}
    (hp : p ∈ numberedCells U tables) :
    Filed (extraction U tables files).files (p.1.metadataRow U p.2) where
  number := by
    refine ⟨p.2, p.1.functionName, ?_, rfl, rfl, ?_⟩
    · exact fun hslash => absurd (isWordChar_of_mem_extractFunctionName hslash) (by decide)
    · exact (humanTestFile_metadataRow p.1 p.2).imp_right fun ⟨_, _, hpath⟩ => hpath
  function := Option.isSome_iff_exists.mpr ⟨_, files_functionFile hp⟩
  test := by
    intro hne
    obtain ⟨test, htest, hpath⟩ := (humanTestFile_metadataRow p.1 p.2).resolve_left hne
    rw [hpath]
    exact Option.isSome_iff_exists.mpr ⟨_, files_testFile hp htest⟩

theorem sound_buildMetadata (h : Sound w) : Sound ((buildMetadataScript T).run w) := by
  change Sound ((w.withFiles (runBuildMetadata T.unicode w.raw w.files).files).record .metadata
    (metadataTable T w.raw w.files))
  have hfolder : Sound (w.withFiles (runBuildMetadata T.unicode w.raw w.files).files) := by
    rw [runBuildMetadata_files]
    exact h.withFiles (kept_writeAll _ _) (filesSound_extraction h.files _)
  refine hfolder.record fun content hcontent => ?_
  obtain ⟨rows, hrows, hmetadata, rfl⟩ := Option.pmap_eq_some_iff.mp hcontent
  obtain ⟨hcells, hfiles, -⟩ := runBuildMetadata_metadata hmetadata
  change (rows.map MetadataRow.id).Nodup ∧
    ∀ row ∈ rows, Filed (runBuildMetadata T.unicode w.raw w.files).files row
  rw [hcells, hfiles]
  exact ⟨nodup_itemIds w.raw, List.forall_mem_map.mpr fun p hp => filed_metadataRow hp⟩

/-! ## Stages 02 to 05 -/

/-- A stage that writes one table keeps the folder sound if its result is. -/
theorem sound_tableStage {t : Table} (stage : TableStage t) (h : Sound w)
    (hresult : ∀ data, stage.load w = .ok data → ∀ content, stage.result data = some content →
      t.Sound w.files content) : Sound (stage.script.run w) := by
  change Sound (stage.put w (stage.load w))
  cases hload : stage.load w with
  | error e => exact h
  | ok data => exact h.record (hresult data hload)

theorem Sound.of_read (h : Sound w) {t : Table} {content : t.Content}
    (hread : w.read t = .ok content) : t.Sound w.files content :=
  h.tables t content (Table.read_eq_ok_iff.mp hread).1

theorem Filed.rewrite {row : MetadataRow} (h : Filed files row) : Filed files row.rewrite where
  number := h.number
  function := h.function
  test := h.test

theorem selectionSound_selectCandidates (order : SortValues) {metadata : List MetadataRow}
    (hdistinct : (metadata.map MetadataRow.id).Nodup) (hfiled : ∀ row ∈ metadata, Filed files row) :
    SelectionSound files (selectCandidates order metadata) where
  distinct := by
    have hperm := (perm_rows_selectCandidates order metadata).map MetadataRow.id
    rw [List.map_map] at hperm
    exact hperm.nodup_iff.mpr (hdistinct.sublist (List.filter_sublist.map _))
  filed c hc := hfiled _ (selectionScore_of_mem_selectCandidates hc).1
  scored c hc := (selectionScore_of_mem_selectCandidates hc).2
  sorted := order.sorted _

theorem sound_select (h : Sound w) : Sound ((selectStage T).script.run w) := by
  refine sound_tableStage (selectStage T) h fun metadata hload content hcontent => ?_
  obtain ⟨hdistinct, hfiled⟩ := h.of_read hload
  rw [← Option.some.inj hcontent]
  refine selectionSound_selectCandidates T.sortValues ?_ ?_
  · rw [List.map_map]
    exact hdistinct
  · exact List.forall_mem_map.mpr fun row hrow => (hfiled row hrow).rewrite

theorem SelectionSound.rewrite {rows : List Candidate} (h : SelectionSound files rows) :
    SelectionSound files (rows.map Candidate.rewrite) where
  distinct := by
    rw [List.map_map]
    exact h.distinct
  filed := List.forall_mem_map.mpr fun c hc => (h.filed c hc).rewrite
  scored := List.forall_mem_map.mpr h.scored
  sorted := List.pairwise_map.mpr h.sorted

theorem SelectionSound.take {rows : List Candidate} (h : SelectionSound files rows) (k : ℕ) :
    SelectionSound files (rows.take k) where
  distinct := h.distinct.sublist ((List.take_sublist k rows).map _)
  filed c hc := h.filed c (List.mem_of_mem_take hc)
  scored c hc := h.scored c (List.mem_of_mem_take hc)
  sorted := h.sorted.sublist (List.take_sublist k rows)

theorem append_ne_append {dir dir' : Text} (h : ¬dir <+: dir' ∧ ¬dir' <+: dir) (a b : Text) :
    dir ++ a ≠ dir' ++ b := by
  intro heq
  have hprefix : dir' <+: dir ++ a := heq ▸ List.prefix_append dir' b
  exact (List.prefix_or_prefix_of_prefix (List.prefix_append dir a) hprefix).elim h.1 h.2

/-- A source file in the folder of functions is code under the name found in it. -/
theorem SourceFile.of_function {name content : Text}
    (h : SourceFile files (functionsDir ++ name) content) :
    strip content ≠ [] ∧ ∃ n, name = functionFileName n (extractFunctionName (.text content)) := by
  generalize hpath : functionsDir ++ name = path at h
  cases h with
  | function hdir n hcode =>
      rcases hdir with rfl | rfl
      · exact ⟨hcode, n, List.append_cancel_left hpath⟩
      · exact absurd hpath (append_ne_append (by decide) _ _)
  | test hdir n htest hfunction =>
      rcases hdir with rfl | rfl <;> exact absurd hpath (append_ne_append (by decide) _ _)
  | prompt name hcode => exact absurd hpath (append_ne_append (by decide) _ _)

theorem SourceFile.of_test {name content : Text}
    (h : SourceFile files (humanTestsDir ++ name) content) :
    looksLikeCppTestCode (.text content) = true ∧ ∃ n functionName,
      name = testFileName n functionName ∧
        (files (functionsDir ++ functionFileName n functionName)).isSome := by
  generalize hpath : humanTestsDir ++ name = path at h
  cases h with
  | function hdir n hcode =>
      rcases hdir with rfl | rfl <;> exact absurd hpath (append_ne_append (by decide) _ _)
  | test hdir n htest hfunction =>
      rcases hdir with rfl | rfl
      · exact ⟨htest, n, _, List.append_cancel_left hpath, hfunction⟩
      · exact absurd hpath (append_ne_append (by decide) _ _)
  | prompt name hcode => exact absurd hpath (append_ne_append (by decide) _ _)

/-- What stage 03 copies of a row are source files again. -/
theorem sourceFile_of_copy (hfiles : FilesSound files) {row : MetadataRow} (hrow : Filed files row)
    {c : Text × Text} (hc : c ∈ finalCopies row) {content : Text}
    (hcontent : files c.1 = some content) : SourceFile files c.2 content := by
  obtain ⟨n, name, hname, -, hfunction, htest⟩ := hrow.number
  obtain ⟨hslash, hslash'⟩ := slash_notMem_fileNames n hname
  rcases mem_finalCopies.mp hc with rfl | ⟨hne, rfl⟩
  · change files row.functionFile = some content at hcontent
    change SourceFile files (finalFunctionsDir ++ baseName row.functionFile) content
    rw [hfunction] at hcontent ⊢
    obtain ⟨hcode, m, heq⟩ := (hfiles _ _ hcontent).of_function
    rw [baseName_append rfl hslash, heq]
    exact .function (Or.inr rfl) m hcode
  · change files row.humanTestFile = some content at hcontent
    change SourceFile files (finalTestsDir ++ baseName row.humanTestFile) content
    rw [htest.resolve_left hne] at hcontent ⊢
    obtain ⟨hlooks, m, functionName, heq, hthere⟩ := (hfiles _ _ hcontent).of_test
    rw [baseName_append rfl hslash', heq]
    exact .test (Or.inr rfl) m hlooks hthere

theorem kept_finalFiles (selected : SourceTable candidateSources) (files : Text → Option Text) :
    Kept files (finalFiles selected files) := by
  change Kept files (Store.copyAll files _)
  rw [Store.copyAll_eq_writeAll final_source_ne_target]
  exact kept_writeAll _ _

theorem sound_createFinalDataset (h : Sound w) : Sound (createFinalDatasetScript.run w) := by
  change Sound (createFinalDatasetScript.put (w.read .selectedCandidates) w)
  cases hread : w.read .selectedCandidates with
  | error e => exact h
  | ok selected =>
      have hselected : SelectionSound w.files ((selected.rows.map Candidate.rewrite).take 60) :=
        (SelectionSound.rewrite (h.of_read hread)).take 60
      have hsources := @final_source_ne_target selected
      have hcopies := Store.copyAll_eq_writeAll (s := w.files) hsources
      have hkept := kept_finalFiles selected w.files
      have hfolder : Sound (w.withFiles (finalFiles selected w.files)) := by
        refine h.withFiles hkept ?_
        change FilesSound (Store.copyAll w.files _)
        rw [hcopies]
        refine h.files.writeAll fun p hp => ?_
        obtain ⟨c, hc, hp⟩ := List.mem_filterMap.mp hp
        obtain ⟨content, hcontent, rfl⟩ := Option.map_eq_some_iff.mp hp
        obtain ⟨d, hd, hc⟩ := List.mem_flatMap.mp hc
        exact (sourceFile_of_copy h.files (hselected.filed d hd) hc hcontent).mono
          (kept_writeAll _ _)
      change Sound ((w.withFiles (finalFiles selected w.files)).record .finalSelected
        (some (finalTable selected w.files)))
      refine hfolder.record fun content hcontent => ?_
      rw [← Option.some.inj hcontent]
      exact ⟨hselected.mono hkept, List.length_take_le 60 _⟩

theorem sound_template (h : Sound w) : Sound (templateStage.script.run w) := by
  refine sound_tableStage templateStage h fun final hload content hcontent => ?_
  obtain ⟨hfinal, hlength⟩ := h.of_read hload
  rw [← Option.some.inj hcontent]
  exact
    { length := by
        change (final.rows.map _).length ≤ 60
        rwa [List.length_map]
      distinct := by
        change ((final.rows.map _).map AnnotationRow.id).Nodup
        rw [List.map_map]
        exact hfinal.distinct
      issued := by
        refine List.forall_mem_map.mpr fun c hc => ?_
        obtain ⟨n, name, -, hid, hfile, -⟩ := (hfinal.filed c hc).number
        exact ⟨n, name, hid, hfile⟩
      filed := List.forall_mem_map.mpr fun c hc => (hfinal.filed c hc).function
      unreviewed := List.forall_mem_map.mpr fun c _ => ⟨Or.inl rfl, Or.inl rfl⟩ }

theorem unreviewed_preannotate (T : Tools) (code : Text) (row : AnnotationRow) :
    Unreviewed (preannotate T.unicode T.setOrder code row).bvaApplicable ∧
      Unreviewed (preannotate T.unicode T.setOrder code row).ecpApplicable := by
  obtain ⟨hbva, hecp⟩ := preannotate_marks (U := T.unicode) T.setOrder code row
  rw [hbva, hecp]
  constructor
  · split_ifs
    · exact Or.inr (Or.inl rfl)
    · exact Or.inr (Or.inr rfl)
  · split_ifs
    · exact Or.inr (Or.inl rfl)
    · exact Or.inr (Or.inr rfl)

theorem sound_preannotate (h : Sound w) : Sound ((preannotateStage T).script.run w) := by
  refine sound_tableStage (preannotateStage T) h fun table hload content hcontent => ?_
  obtain rfl : table = content := Option.some.inj hcontent
  obtain ⟨template, hread, rfl⟩ := map_eq_ok_iff.mp hload
  have htemplate : AnnotationsSound w.files template.rows := h.of_read hread
  -- each row is annotated in its place
  let annotate (row : AnnotationRow) : AnnotationRow :=
    preannotate T.unicode T.setOrder (readCode w.files row.functionFile) row.reread
  have hrows : (preannotatedTable T w.files template).rows = template.rows.map annotate :=
    List.map_map
  have hkeeps (row : AnnotationRow) :=
    preannotate_function (U := T.unicode) T.setOrder (readCode w.files row.functionFile) row.reread
  change AnnotationsSound w.files (preannotatedTable T w.files template).rows
  rw [hrows]
  exact
    { length := by
        rw [List.length_map]
        exact htemplate.length
      distinct := by
        have hids : (template.rows.map annotate).map AnnotationRow.id =
            template.rows.map AnnotationRow.id := by
          rw [List.map_map]
          exact List.map_congr_left fun row _ => (hkeeps row).1
        rw [hids]
        exact htemplate.distinct
      issued := by
        refine List.forall_mem_map.mpr fun row hrow => ?_
        rw [(hkeeps row).1, (hkeeps row).2.2]
        exact htemplate.issued row hrow
      filed := by
        refine List.forall_mem_map.mpr fun row hrow => ?_
        rw [(hkeeps row).2.2]
        exact htemplate.filed row hrow
      unreviewed := List.forall_mem_map.mpr fun row _ => unreviewed_preannotate T _ row.reread }

/-! ## Stages 06 and 07 -/

theorem strip_ne_nil_of_looksLike {text : Text}
    (h : looksLikeCppTestCode (.text text) = true) : strip text ≠ [] := by
  intro hblank
  have hindicators : ([] : Text) ∉ testIndicators := by decide
  unfold looksLikeCppTestCode at h
  dsimp only at h
  rw [hblank] at h
  exact hindicators (by simpa using h)

/-- Every source file that stage 01 wrote has something in it. -/
theorem SourceFile.code_of_extracted {path content : Text} (h : SourceFile files path content)
    (hpath : extractedDir <+: path) : strip content ≠ [] := by
  cases h with
  | function hdir n hcode => exact hcode
  | test hdir n htest hfunction => exact strip_ne_nil_of_looksLike htest
  | prompt name hcode =>
      have hprompts : Folder.prompts.dir <+: promptsDir ++ name := List.prefix_append _ _
      exact absurd hpath (not_isPrefix_of_ne hprompts (g := .extracted) (by decide))

theorem sound_prompts (h : Sound w) : Sound (promptStage.script.run w) := by
  refine sound_tableStage promptStage h fun prompts hload content hcontent => ?_
  obtain rfl : prompts = content := Option.some.inj hcontent
  obtain ⟨gt, -, rfl⟩ := map_eq_ok_iff.mp hload
  intro prompt hprompt
  obtain ⟨row, hrow, heq⟩ := List.mem_filterMap.mp hprompt
  obtain ⟨code, hcode, rfl⟩ := Option.map_eq_some_iff.mp heq
  obtain ⟨original, horiginal, rfl⟩ := List.mem_map.mp hrow
  have hextracted := gt.extracted original horiginal _ (List.mem_singleton_self _)
  exact ⟨code, (h.files _ code hcode).code_of_extracted hextracted, rfl⟩

theorem sound_exportPrompts (h : Sound w) : Sound (exportPromptsScript.run w) := by
  change Sound (exportPromptsScript.put (w.read .prompts) w)
  cases hread : w.read .prompts with
  | error e => exact h
  | ok prompts =>
      refine h.withFiles (kept_writeAll _ _) (h.files.writeAll fun p hp => ?_)
      obtain ⟨prompt, hprompt, rfl⟩ := exists_prompt_of_mem_exportPrompts hp
      obtain ⟨original, horiginal, rfl⟩ := List.mem_map.mp hprompt
      obtain ⟨code, hcode, htext⟩ := h.of_read hread original horiginal
      change SourceFile _ (promptsDir ++ _) original.prompt
      rw [htext]
      exact .prompt _ hcode

/-! ## Stages 08 to 10 -/

theorem sound_collect (h : Sound w) : Sound (collectStage.script.run w) :=
  sound_tableStage collectStage h fun _ _ _ _ => trivial

theorem sound_ttc (h : Sound w) : Sound ((ttcStage T).script.run w) := by
  refine sound_tableStage (ttcStage T) h fun data _ content hcontent => ?_
  rw [← Option.some.inj hcontent]
  exact List.forall_mem_map.mpr fun row _ => scoreRow_inRange row _

theorem compileSound_compileRow (gpp : Compiler) (row : GroundTruthRow)
    (found : Option TestFile) : CompileSound (compileRow gpp row found) := by
  cases found with
  | none =>
      have hmessage : "Generated test file missing".toList.length ≤ 3000 := by decide
      exact ⟨hmessage, fun _ => rfl⟩
  | some file =>
      refine ⟨List.length_take_le 3000 _, fun hpath => ?_⟩
      cases hpath

theorem sound_compile (h : Sound w) : Sound ((compileStage T).script.run w) := by
  refine sound_tableStage (compileStage T) h fun data _ content hcontent => ?_
  change (if _ then none else some _) = some content at hcontent
  split_ifs at hcontent
  rw [← Option.some.inj hcontent]
  exact List.forall_mem_map.mpr fun row _ => compileSound_compileRow _ row _

/-! ## Stages 11 to 15 -/

/-- Results that are read are not empty, and the scores are in range. -/
theorem Sound.of_readResults (h : Sound w) {p : List TtcRow × List CompileRow}
    (hread : w.readResults = .ok p) : p.1 ≠ [] ∧ p.2 ≠ [] ∧ ∀ row ∈ p.1, row.InRange := by
  obtain ⟨hne, hne'⟩ := ne_nil_of_readResults hread
  obtain ⟨ttc, compile, httc, -, rfl⟩ := readResults_eq_ok hread
  refine ⟨hne, hne', List.forall_mem_map.mpr fun row hrow => ?_⟩
  obtain ⟨hbva, hecp, hscore, hbvaCount, hecpCount⟩ := h.of_read httc row hrow
  exact ⟨hbva, hecp, hscore, hbvaCount, hecpCount⟩

theorem sound_metrics (h : Sound w) : Sound (metricsStage.script.run w) := by
  refine sound_tableStage metricsStage h fun p hload content hcontent => ?_
  obtain ⟨hne, -, hrange⟩ := h.of_readResults hload
  exact metricsInRange hne hrange hcontent

theorem sound_figures (h : Sound w) : Sound (figuresStage.script.run w) := by
  refine sound_tableStage figuresStage h fun p hload content hcontent => ?_
  obtain ⟨hne, hcompile, hrange⟩ := h.of_readResults hload
  rw [← Option.some.inj hcontent]
  exact figures_inRange hne hrange hcompile

theorem sound_summary (h : Sound w) : Sound ((summaryStage T).script.run w) := by
  refine sound_tableStage (summaryStage T) h fun p hload content hcontent => ?_
  obtain ⟨hne, hcompile, hrange⟩ := h.of_readResults hload
  rw [← Option.some.inj hcontent]
  exact summaryInRange hne hrange T.std hcompile

theorem sound_results (h : Sound w) : Sound (resultsStage.script.run w) := by
  refine sound_tableStage resultsStage h fun p hload content hcontent => ?_
  obtain ⟨hne, -, hrange⟩ := h.of_readResults hload
  rw [← Option.some.inj hcontent]
  exact finalResults_inRange hne hrange p.2

theorem sound_thesis (h : Sound w) : Sound ((thesisStage T).script.run w) := by
  refine sound_tableStage (thesisStage T) h fun p hload content hcontent => ?_
  obtain ⟨gt, -, hload⟩ := bind_eq_ok_iff.mp hload
  obtain ⟨results, hresults, hload⟩ := bind_eq_ok_iff.mp hload
  obtain ⟨hne, hcompile, hrange⟩ := h.of_readResults hresults
  rw [← Option.some.inj hcontent, ← Except.ok.inj hload]
  exact thesisTables_inRange hne hrange T.unicode (truthRows gt) hcompile

/-! ## All steps -/

theorem sound_run (T : Tools) (s : Stage) (h : Sound w) : Sound ((script T s).run w) := by
  cases s with
  | buildMetadata => exact sound_buildMetadata h
  | selectCandidateFunctions => exact sound_select h
  | createFinalDataset => exact sound_createFinalDataset h
  | createGroundTruthTemplate => exact sound_template h
  | preannotateGroundTruth => exact sound_preannotate h
  | createPrompts => exact sound_prompts h
  | exportPrompts => exact sound_exportPrompts h
  | collectGeneratedTests => exact sound_collect h
  | ttcScore => exact sound_ttc h
  | compileScore => exact sound_compile h
  | generateMetrics => exact sound_metrics h
  | generateFigures => exact sound_figures h
  | statisticalAnalysis => exact sound_summary h
  | createFinalResultsTable => exact sound_results h
  | generateThesisTables => exact sound_thesis h

theorem sound_event (e : Event) (h : Sound w) : Sound (e.script.run w) := by
  cases e with
  | run T s => exact sound_run T s h
  | newRaw tables => exact ⟨h.files, h.tables⟩
  | newTests dir => exact ⟨h.files, h.tables⟩
  | newProject files => exact ⟨h.files, h.tables⟩
  | newGroundTruth gt =>
      change Sound (w.record .groundTruth (some gt))
      exact h.record fun _ _ => trivial

theorem sound_after (raw : List ParquetTable) (events : List Event) :
    Sound (after events (.initial raw)) := by
  refine runAll_induction (fun a ha w hw => ?_) (sound_initial raw)
  obtain ⟨e, -, rfl⟩ := List.mem_map.mp ha
  exact sound_event e hw

theorem kept_tableStage {t : Table} (stage : TableStage t) (w : Workspace) :
    Kept w.files (stage.script.run w).files := by
  change Kept w.files (stage.put w (stage.load w)).files
  cases stage.load w with
  | error e => exact fun _ h => h
  | ok data =>
      change Kept w.files (w.record t (stage.result data)).files
      rw [Workspace.files_record]
      exact fun _ h => h

theorem kept_run (T : Tools) (s : Stage) (w : Workspace) :
    Kept w.files ((script T s).run w).files := by
  cases s with
  | buildMetadata =>
      change Kept w.files ((w.withFiles (runBuildMetadata T.unicode w.raw w.files).files).record
        .metadata (metadataTable T w.raw w.files)).files
      rw [Workspace.files_record, Workspace.files_withFiles, runBuildMetadata_files]
      exact kept_writeAll _ _
  | createFinalDataset =>
      change Kept w.files (createFinalDatasetScript.put (w.read .selectedCandidates) w).files
      cases w.read .selectedCandidates with
      | error e => exact fun _ h => h
      | ok selected => exact kept_finalFiles selected w.files
  | exportPrompts =>
      change Kept w.files (exportPromptsScript.put (w.read .prompts) w).files
      cases w.read .prompts with
      | error e => exact fun _ h => h
      | ok prompts => exact kept_writeAll _ _
  | selectCandidateFunctions => exact kept_tableStage (selectStage T) w
  | createGroundTruthTemplate => exact kept_tableStage templateStage w
  | preannotateGroundTruth => exact kept_tableStage (preannotateStage T) w
  | createPrompts => exact kept_tableStage promptStage w
  | collectGeneratedTests => exact kept_tableStage collectStage w
  | ttcScore => exact kept_tableStage (ttcStage T) w
  | compileScore => exact kept_tableStage (compileStage T) w
  | generateMetrics => exact kept_tableStage metricsStage w
  | generateFigures => exact kept_tableStage figuresStage w
  | statisticalAnalysis => exact kept_tableStage (summaryStage T) w
  | createFinalResultsTable => exact kept_tableStage resultsStage w
  | generateThesisTables => exact kept_tableStage (thesisStage T) w

theorem kept_after (events : List Event) (w : Workspace) :
    Kept w.files (after events w).files := by
  refine runAll_induction (P := fun w' : Workspace => Kept w.files w'.files) (fun a ha w' hw' => ?_)
    fun _ h => h
  obtain ⟨e, -, rfl⟩ := List.mem_map.mp ha
  cases e with
  | run T s => exact fun path hpath => kept_run T s w' path (hw' path hpath)
  | newRaw | newTests | newProject | newGroundTruth => exact hw'

/-! ## Reachable folders -/

/-- In every folder that arises from raw tables alone, by stages in any order, failing or not, with
any tools, and by changes of the raw tables, the tests, other project files and the ground truth, every
source file is code named after itself, a test next to its function or a prompt; and no file is ever
deleted. -/
theorem reachable_files (raw : List ParquetTable) (events later : List Event) :
    FilesSound (after events (.initial raw)).files ∧
      Kept (after events (.initial raw)).files (after (events ++ later) (.initial raw)).files := by
  refine ⟨(sound_after raw events).files, ?_⟩
  rw [after_append]
  exact kept_after later (after events (.initial raw))

/-- In every such folder, the tables up to the pre-annotation have distinct identifiers issued by
stage 01 and name files that are there, the selections are sorted and large enough in score, and all
scores, averages and rates that were recorded or reported are in range. -/
theorem reachable_tables (raw : List ParquetTable) (events : List Event) (t : Table)
    (content : t.Content) (h : (after events (.initial raw)).tables t = some content) :
    t.Sound (after events (.initial raw)).files content :=
  (sound_after raw events).tables t content h

theorem reachable_tables_sample :
    ∃ content, (after sampleHistory (.initial [])).tables .metadata = some content ∧
      Table.Sound (after sampleHistory (.initial [])).files .metadata content := by
  obtain ⟨hmetadata, -⟩ := (ran_sampleHistory .buildMetadata).upToDate.metadata
  exact ⟨_, hmetadata, reachable_tables [] sampleHistory .metadata _ hmetadata⟩

end TTCEvaluation.Pipeline
