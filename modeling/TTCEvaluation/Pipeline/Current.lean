import TTCEvaluation.Pipeline.Orders

/-!
# Folders that are up to date

A stage that ran with success and whose places nobody has written to since is
up to date: its output is what it computes from its input as it is now.  Where
all stages are up to date, the tables are those of one run of the pipeline on
the raw tables, whatever happened before.
-/

namespace TTCEvaluation.Pipeline

open Workflow

/-- What the functions of the stages depend on in the folder. -/
def Tools.setting (T : Tools) (review : Review) (w : Workspace) : Setting where
  arithmetic := T.arithmetic
  unicode := T.unicode
  sortValues := T.sortValues
  setOrder := T.setOrder
  review := review
  testDir := w.tests
  compiler := T.compiler w.includePath

/-- The stage last ran with success, and since then nobody wrote to its places. -/
def Ran (T : Tools) (s : Stage) (events : List Event) (w : Workspace) : Prop :=
  Settled (script T s) (events.map Event.script) w

def UpToDate (T : Tools) (s : Stage) (w : Workspace) : Prop := (script T s).UpToDate w

theorem Ran.upToDate {T : Tools} {s : Stage} {events : List Event} {w : Workspace}
    (h : Ran T s events w) : UpToDate T s (after events w) :=
  Settled.upToDate (fun _ _ => Workspace.ext_view) h

/-- The table of an up-to-date stage is made from what the stage loads. -/
theorem exists_load_of_upToDate {t : Table} {stage : TableStage t} {w : Workspace}
    (h : stage.script.UpToDate w) :
    ∃ data, stage.load w = .ok data ∧ stage.stop data = none ∧
      (stage.result data).or (w.tables t) = w.tables t := by
  obtain ⟨hfailure, hrun⟩ := h
  change stage.failure (stage.load w) = none at hfailure
  change stage.put w (stage.load w) = w at hrun
  cases hw : stage.load w with
  | error e =>
      rw [hw] at hfailure
      cases hfailure
  | ok data =>
      rw [hw] at hfailure hrun
      refine ⟨data, rfl, hfailure, ?_⟩
      exact (w.tables_record (stage.result data)).symm.trans (congrArg (fun w => w.tables t) hrun)

/-! ## The dataset -/

variable {T : Tools} {w : Workspace}

def cellTable (U : UnicodeData) (tables : List ParquetTable) : SourceTable rowSources :=
  ⟨cellRows U (numberedCells U tables), extracted_cellRows⟩

theorem metadataTable_of_success {tables : List ParquetTable} {files : Text → Option Text}
    (h : (runBuildMetadata T.unicode tables files).error = none) :
    metadataTable T tables files = some (cellTable T.unicode tables) := by
  unfold metadataTable
  simp only [runBuildMetadata_of_success h, Option.pmap_some]
  rfl

theorem UpToDate.metadata (h : UpToDate T .buildMetadata w) :
    w.tables .metadata = some (cellTable T.unicode w.raw) ∧
      (extraction T.unicode w.raw w.files).files = w.files := by
  obtain ⟨hfailure, hrun⟩ := h
  have herror : (runBuildMetadata T.unicode w.raw w.files).error = none := by
    rw [(runBuildMetadata_congr w.raw w.files fun _ => none).2]
    exact Option.map_eq_none_iff.mp hfailure
  change (w.withFiles (runBuildMetadata T.unicode w.raw w.files).files).record .metadata
    (metadataTable T w.raw w.files) = w at hrun
  rw [metadataTable_of_success herror, runBuildMetadata_of_success herror] at hrun
  exact ⟨congrArg (fun w => w.tables .metadata) hrun.symm, congrArg Workspace.files hrun⟩

theorem UpToDate.selected (h : UpToDate T .selectCandidateFunctions w)
    {metadata : SourceTable rowSources} (hmetadata : w.tables .metadata = some metadata) :
    w.tables .selectedCandidates = some (selectedTable T metadata) := by
  obtain ⟨a, hload, -, htable⟩ := exists_load_of_upToDate h
  rw [← htable, Table.eq_of_read hload hmetadata]
  rfl

theorem UpToDate.final (h : UpToDate T .createFinalDataset w)
    {selected : SourceTable candidateSources}
    (hselected : w.tables .selectedCandidates = some selected) :
    w.tables .finalSelected = some (finalTable selected w.files) ∧
      finalFiles selected w.files = w.files := by
  obtain ⟨hfailure, hrun⟩ := h
  have hread : w.read .selectedCandidates = .ok selected :=
    Table.read_eq_ok_iff.mpr ⟨hselected, rfl⟩
  change createFinalDatasetScript.put (w.read .selectedCandidates) w = w at hrun
  rw [hread] at hrun
  exact ⟨congrArg (fun w => w.tables .finalSelected) hrun.symm, congrArg Workspace.files hrun⟩

theorem UpToDate.template (h : UpToDate T .createGroundTruthTemplate w)
    {final : SourceTable candidateSources} (hfinal : w.tables .finalSelected = some final) :
    w.tables .template = some (templateTable final) := by
  obtain ⟨a, hload, -, htable⟩ := exists_load_of_upToDate h
  rw [← htable, Table.eq_of_read hload hfinal]
  rfl

theorem UpToDate.preannotated (h : UpToDate T .preannotateGroundTruth w)
    {template : SourceTable annotationSources} (htemplate : w.tables .template = some template) :
    w.tables .preannotated = some (preannotatedTable T w.files template) := by
  obtain ⟨a, hload, -, htable⟩ := exists_load_of_upToDate h
  have hread : w.read .template = .ok template := Table.read_eq_ok_iff.mpr ⟨htemplate, rfl⟩
  change (w.read .template).map (preannotatedTable T w.files) = .ok a at hload
  rw [hread] at hload
  rw [← htable, ← Except.ok.inj hload]
  rfl

theorem map_eq_self {α : Type} {f : α → α} {l : List α} (h : ∀ a ∈ l, f a = a) : l.map f = l :=
  (List.map_congr_left h).trans (List.map_id l)

theorem rewrite_rewrite (row : MetadataRow) : row.rewrite.rewrite = row.rewrite := by
  have hname : readCell (writeCell (readCell row.functionName)) = readCell row.functionName :=
    handOff_readCell row.functionName
  unfold MetadataRow.rewrite
  rw [hname]

/-- Stage 03 takes the rows of stage 02 as they are. -/
theorem rows_finalTable (T : Tools) (metadata : SourceTable rowSources)
    (files : Text → Option Text) :
    (finalTable (selectedTable T metadata) files).rows =
      (selectCandidates T.sortValues (metadata.rows.map MetadataRow.rewrite)).take 60 := by
  have hselected : (selectedTable T metadata).rows.map Candidate.rewrite =
      (selectedTable T metadata).rows := by
    apply map_eq_self
    intro c hc
    obtain ⟨hrow, -, -⟩ := selectionScore_of_mem_selectCandidates hc
    obtain ⟨row, -, hrow⟩ := List.mem_map.mp hrow
    have hsame : c.row.rewrite = c.row := by
      rw [← hrow]
      exact rewrite_rewrite row
    unfold Candidate.rewrite
    rw [hsame]
  change ((selectedTable T metadata).rows.map Candidate.rewrite).take 60 = _
  rw [hselected]
  rfl

/-- Stage 03 leaves the extracted files alone. -/
theorem finalFiles_of_extracted {selected : SourceTable candidateSources}
    {files : Text → Option Text} {path : Text} (h : extractedDir <+: path) :
    finalFiles selected files path = files path := by
  refine Store.copyAll_of_notMem final_source_ne_target fun hmem => ?_
  obtain ⟨c, hc, rfl⟩ := List.mem_map.mp hmem
  exact not_isPrefix_of_ne (final_copies hc).2 (g := .extracted) (by decide) h

section

variable {U : UnicodeData} {tables : List ParquetTable}

theorem baseName_testFile (cell : CodeCell) (n : ℕ) :
    baseName (cell.testFile n) = testFileName n cell.functionName :=
  baseName_append rfl (slash_notMem_fileNames n (slash_notMem_extractFunctionName _)).2

/-- The copies of a row are those of its function file and its human test. -/
theorem mem_finalCopies_metadataRow {cell : CodeCell} {n : ℕ} {c : Text × Text}
    (h : c ∈ finalCopies (cell.metadataRow U n)) :
    c = (cell.functionFile n, finalFunctionsDir ++ functionFileName n cell.functionName) ∨
      ∃ test, humanTest (cell.testCode U) = some test ∧
        c = (cell.testFile n, finalTestsDir ++ testFileName n cell.functionName) := by
  rcases mem_finalCopies.mp h with rfl | ⟨hne, rfl⟩
  · left
    rw [← baseName_functionFile]
    rfl
  · obtain ⟨test, htest, hfile⟩ := (humanTestFile_metadataRow cell n).resolve_left hne
    refine Or.inr ⟨test, htest, ?_⟩
    rw [hfile, baseName_testFile]

/-- Different files are copied to different targets. -/
theorem copy_source_eq {row row' : MetadataRow} (hrow : row ∈ cellRows U (numberedCells U tables))
    (hrow' : row' ∈ cellRows U (numberedCells U tables)) {c d : Text × Text}
    (hc : c ∈ finalCopies row) (hd : d ∈ finalCopies row') (h : c.2 = d.2) : c.1 = d.1 := by
  obtain ⟨p, hp, rfl⟩ := List.mem_map.mp hrow
  obtain ⟨q, hq, rfl⟩ := List.mem_map.mp hrow'
  have hsame (hnumber : p.2 = q.2) : p = q := eq_of_number_eq hp hq hnumber
  rcases mem_finalCopies_metadataRow hc with rfl | ⟨_, -, rfl⟩ <;>
    rcases mem_finalCopies_metadataRow hd with rfl | ⟨_, -, rfl⟩
  · rw [hsame (eq_of_itemId_append_eq (List.append_cancel_left h))]
  · exact (finalFunctionsDir_append_ne _ _ h).elim
  · exact (finalFunctionsDir_append_ne _ _ h.symm).elim
  · rw [hsame (eq_of_itemId_append_eq (List.append_cancel_left h))]

end

/-! ## The dataset of an up-to-date folder -/

/-- The tables and files up to the pre-annotation are those of one run of the pipeline on the raw
tables, in a folder without any files. -/
structure DatasetCurrent (S : Setting) (w : Workspace) : Prop where
  metadata : (w.tables .metadata).map SourceTable.rows =
    some (extraction S.unicode w.raw fun _ => none).allRows
  selected : (w.tables .selectedCandidates).map SourceTable.rows =
    some (S.selectedCsv (extraction S.unicode w.raw fun _ => none))
  final : (w.tables .finalSelected).map SourceTable.rows =
    some (S.finalCsv (extraction S.unicode w.raw fun _ => none)).1
  template : (w.tables .template).map SourceTable.rows =
    some (S.templateCsv (extraction S.unicode w.raw fun _ => none))
  preannotated : (w.tables .preannotated).map SourceTable.rows =
    some (S.preannotatedCsv (extraction S.unicode w.raw fun _ => none))
  sources : ∀ p ∈ numberedCells S.unicode w.raw, ∀ q ∈ p.1.writes S.unicode p.2,
    w.files q.1 = some q.2
  copies : ∀ c ∈ (S.finalCsv (extraction S.unicode w.raw fun _ => none)).1,
    ∀ copy ∈ finalCopies c.row, (w.files copy.1).isSome ∧ w.files copy.2 = w.files copy.1

section

variable {U : UnicodeData} {tables : List ParquetTable}

/-- A row of the final table describes a code cell. -/
theorem exists_cell_of_mem_final {c : Candidate}
    (hc : c ∈ ((selectedTable T (cellTable T.unicode tables)).rows.map Candidate.rewrite).take 60) :
    ∃ p ∈ numberedCells T.unicode tables,
      c.row.functionFile = p.1.functionFile p.2 ∧
        finalCopies c.row = finalCopies (p.1.metadataRow T.unicode p.2) := by
  obtain ⟨d, hd, rfl⟩ := List.mem_map.mp (List.mem_of_mem_take hc)
  obtain ⟨hrow, -, -⟩ := selectionScore_of_mem_selectCandidates hd
  obtain ⟨row, hrow, heq⟩ := List.mem_map.mp hrow
  obtain ⟨p, hp, rfl⟩ := List.mem_map.mp hrow
  refine ⟨p, hp, ?_, ?_⟩
  · change d.row.functionFile = _
    rw [← heq]
    rfl
  · change finalCopies d.row = _
    rw [← heq]
    rfl

theorem mem_cellWrites_of_mem_finalCopies {p : CodeCell × ℕ} (hp : p ∈ numberedCells U tables)
    {c : Text × Text} (hc : c ∈ finalCopies (p.1.metadataRow U p.2)) :
    ∃ content, (c.1, content) ∈ cellWrites U (numberedCells U tables) := by
  rcases mem_finalCopies_metadataRow hc with rfl | ⟨test, htest, rfl⟩
  · exact ⟨_, mem_cellWrites.mpr ⟨p, hp, Or.inl rfl⟩⟩
  · exact ⟨test, mem_cellWrites.mpr ⟨p, hp, Or.inr ⟨test, htest, rfl⟩⟩⟩

/-- After stage 01 every file that it writes holds what it writes. -/
theorem files_of_mem_cellWrites {files : Text → Option Text} {q : Text × Text}
    (hq : q ∈ cellWrites U (numberedCells U tables)) :
    (extraction U tables files).files q.1 = some q.2 := by
  obtain ⟨p, hp, rfl | ⟨test, htest, rfl⟩⟩ := mem_cellWrites.mp hq
  · exact files_functionFile hp
  · exact files_testFile hp htest

end

section

variable {files : Text → Option Text} {c : Candidate}
  (hsources : ∀ q ∈ cellWrites T.unicode (numberedCells T.unicode w.raw), files q.1 = some q.2)
  (hc : c ∈ (finalTable (selectedTable T (cellTable T.unicode w.raw)) files).rows)

include hsources hc

/-- The code of a selected function is where a run in an empty folder would put it. -/
theorem functionFile_eq_fresh :
    files c.row.functionFile =
      finalFiles (selectedTable T (cellTable T.unicode w.raw))
        (extraction T.unicode w.raw fun _ => none).files c.row.functionFile := by
  obtain ⟨p, hp, hfile, -⟩ := exists_cell_of_mem_final hc
  have hwritten : (p.1.functionFile p.2, p.1.code) ∈
      cellWrites T.unicode (numberedCells T.unicode w.raw) :=
    mem_cellWrites.mpr ⟨p, hp, Or.inl rfl⟩
  rw [hfile, finalFiles_of_extracted (extracted_of_mem_cellWrites hwritten), hsources _ hwritten]
  exact (files_functionFile hp).symm

theorem finalFiles_copy {copy : Text × Text} (hcopy : copy ∈ finalCopies c.row) :
    (files copy.1).isSome ∧
      finalFiles (selectedTable T (cellTable T.unicode w.raw)) files copy.2 = files copy.1 := by
  obtain ⟨p, hp, -, hcopies⟩ := exists_cell_of_mem_final hc
  have hown := hcopy
  rw [hcopies] at hown
  obtain ⟨content, hwritten⟩ := mem_cellWrites_of_mem_finalCopies hp hown
  have hsource : files copy.1 = some content := hsources _ hwritten
  refine ⟨by rw [hsource]; rfl, ?_⟩
  rw [hsource]
  refine Store.copyAll_of_agree final_source_ne_target (List.mem_flatMap.mpr ⟨c, hc, hcopy⟩)
    hsource fun d hd htarget => ?_
  obtain ⟨c', hc', hd⟩ := List.mem_flatMap.mp hd
  obtain ⟨p', hp', -, hcopies'⟩ := exists_cell_of_mem_final hc'
  rw [hcopies'] at hd
  exact copy_source_eq (List.mem_map_of_mem hp') (List.mem_map_of_mem hp) hd hown htarget

end

theorem dataset_current_of_upToDate (T : Tools) (review : Review) {w : Workspace}
    (h : ∀ s ∈ datasetStages, UpToDate T s w) : DatasetCurrent (T.setting review w) w := by
  simp only [datasetStages, List.forall_mem_cons] at h
  obtain ⟨h₁, h₂, h₃, h₄, h₅, -⟩ := h
  obtain ⟨hmetadata, hfiles⟩ := h₁.metadata
  have hselected := h₂.selected hmetadata
  obtain ⟨hfinal, hcopied⟩ := h₃.final hselected
  have htemplate := h₄.template hfinal
  have hpreannotated := h₅.preannotated htemplate
  have hsources : ∀ q ∈ cellWrites T.unicode (numberedCells T.unicode w.raw),
      w.files q.1 = some q.2 := by
    intro q hq
    rw [← hfiles]
    exact files_of_mem_cellWrites hq
  refine
    { metadata := by rw [hmetadata]; rfl
      selected := by rw [hselected]; rfl
      final := by rw [hfinal]; rfl
      template := by rw [htemplate]; rfl
      preannotated := ?_
      sources := fun p hp q hq => hsources q (List.mem_flatMap.mpr ⟨p, hp, hq⟩)
      copies := fun c hc copy hcopy => ?_ }
  · rw [hpreannotated, Option.map_some]
    congr 1
    apply List.map_congr_left
    intro row hrow
    obtain ⟨template, ht, rfl⟩ := List.mem_map.mp hrow
    obtain ⟨c, hc, rfl⟩ := List.mem_map.mp ht
    have hcode := functionFile_eq_fresh hsources hc
    exact congrArg (fun code => preannotate T.unicode T.setOrder (code.getD []) _) hcode
  · have hcopy := finalFiles_copy hsources hc hcopy
    rwa [hcopied] at hcopy

end TTCEvaluation.Pipeline
