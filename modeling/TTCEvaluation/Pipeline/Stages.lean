import TTCEvaluation.Extraction.Interrupted
import TTCEvaluation.Pipeline.Workspace
import TTCEvaluation.Workflow.Scripts

/-!
# The fifteen stages

Each stage is a script on the project folder: it reads some tables, raw data or
source files and writes one table, and stages 01, 03 and 07 also source files.
A stage that fails leaves everything as it is, except that stage 01 has written
files before it looks at the next table, stage 07 prompts before it comes to one
that it cannot open, and stages 09 and 10 an empty table before they read its
columns.
-/

namespace TTCEvaluation.Pipeline

open Workflow

/-- What a run depends on besides the project folder. -/
structure Tools where
  arithmetic : Arithmetic
  unicode : UnicodeData
  sortValues : SortValues
  setOrder : SetOrder
  compiler : IncludePath → Compiler
  std : List ℚ → Option ℚ

/-- Another process may enumerate its sets in another order. -/
def Tools.withSetOrder (T : Tools) (order : SetOrder) : Tools := { T with setOrder := order }

inductive Stage where
  | buildMetadata
  | selectCandidateFunctions
  | createFinalDataset
  | createGroundTruthTemplate
  | preannotateGroundTruth
  | createPrompts
  | exportPrompts
  | collectGeneratedTests
  | ttcScore
  | compileScore
  | generateMetrics
  | generateFigures
  | statisticalAnalysis
  | createFinalResultsTable
  | generateThesisTables
deriving DecidableEq

namespace Stage

/-- The stages by their numbers. -/
def all : List Stage :=
  [buildMetadata, selectCandidateFunctions, createFinalDataset, createGroundTruthTemplate,
    preannotateGroundTruth, createPrompts, exportPrompts, collectGeneratedTests, ttcScore,
    compileScore, generateMetrics, generateFigures, statisticalAnalysis, createFinalResultsTable,
    generateThesisTables]

def reads : Stage → Finset Place
  | buildMetadata => {.raw}
  | selectCandidateFunctions => {.table .metadata}
  | createFinalDataset => {.table .selectedCandidates, .folder .extracted}
  | createGroundTruthTemplate => {.table .finalSelected}
  | preannotateGroundTruth => {.table .template, .folder .extracted}
  | createPrompts => {.table .groundTruth, .folder .extracted}
  | exportPrompts => {.table .prompts}
  | collectGeneratedTests | ttcScore => {.table .groundTruth, .tests}
  | compileScore =>
      {.table .groundTruth, .tests, .folder .extracted, .folder .final, .folder .prompts, .project}
  | generateMetrics | generateFigures | statisticalAnalysis | createFinalResultsTable =>
      {.table .ttcResults, .table .compileResults}
  | generateThesisTables => {.table .groundTruth, .table .ttcResults, .table .compileResults}

/-- The table that the stage writes. -/
def output : Stage → Option Table
  | buildMetadata => some .metadata
  | selectCandidateFunctions => some .selectedCandidates
  | createFinalDataset => some .finalSelected
  | createGroundTruthTemplate => some .template
  | preannotateGroundTruth => some .preannotated
  | createPrompts => some .prompts
  | exportPrompts => none
  | collectGeneratedTests => some .collected
  | ttcScore => some .ttcResults
  | compileScore => some .compileResults
  | generateMetrics => some .finalMetrics
  | generateFigures => some .figures
  | statisticalAnalysis => some .statisticalSummary
  | createFinalResultsTable => some .finalResults
  | generateThesisTables => some .thesisTables

/-- The folder that the stage writes source files to. -/
def outputFolder : Stage → Option Folder
  | buildMetadata => some .extracted
  | createFinalDataset => some .final
  | exportPrompts => some .prompts
  | _ => none

def writes (s : Stage) : Finset Place :=
  (s.outputFolder.map Place.folder).toFinset ∪ (s.output.map Place.table).toFinset

end Stage

/-! ## What the stages compute -/

/-- The rows of the results table, as the reports read them. -/
def rereadTtcRow (row : TtcRow) : TtcRow :=
  { row with
    functionName := handOff row.functionName
    bvaApplicable := handOff row.bvaApplicable
    ecpApplicable := handOff row.ecpApplicable }

def rereadCompileRow (row : CompileRow) : CompileRow :=
  { row with functionName := handOff row.functionName }

/-- The columns of the ground truth that the evaluation reads. -/
def truthRows (gt : SourceTable annotationSources) : List GroundTruthRow :=
  gt.rows.map fun row => row.reread.truth

theorem extracted_cellRows {U : UnicodeData} {cells : List (CodeCell × ℕ)} :
    ∀ row ∈ cellRows U cells, ∀ path ∈ rowSources row, extractedDir <+: path := by
  intro row hrow path hpath
  obtain ⟨c, hc, rfl⟩ := List.mem_map.mp hpath
  obtain ⟨a, ha⟩ := exists_source_of_mem_finalCopies hrow hc
  exact ⟨a, ha.symm⟩

theorem extracted_of_run {U : UnicodeData} {tables : List ParquetTable}
    {files : Text → Option Text} {rows : List MetadataRow}
    (h : (runBuildMetadata U tables files).metadata = some rows) :
    ∀ row ∈ rows, ∀ path ∈ rowSources row, extractedDir <+: path := by
  rw [(runBuildMetadata_metadata h).1]
  exact extracted_cellRows

section

variable (T : Tools)

/-- The metadata that stage 01 writes, if it comes to that. -/
def metadataTable (tables : List ParquetTable) (files : Text → Option Text) :
    Option (SourceTable rowSources) :=
  (runBuildMetadata T.unicode tables files).metadata.pmap SourceTable.mk fun _ => extracted_of_run

theorem metadataTable_congr (tables : List ParquetTable) (files files' : Text → Option Text) :
    metadataTable T tables files = metadataTable T tables files' := by
  unfold metadataTable
  simp only [(runBuildMetadata_congr tables files files').1]

def selectedTable (metadata : SourceTable rowSources) : SourceTable candidateSources where
  rows := selectCandidates T.sortValues (metadata.rows.map MetadataRow.rewrite)
  extracted := by
    intro c hc
    obtain ⟨hrow, -, -⟩ := selectionScore_of_mem_selectCandidates hc
    obtain ⟨row, hrow, heq⟩ := List.mem_map.mp hrow
    rw [candidateSources, ← heq]
    exact metadata.extracted row hrow

def finalTable (selected : SourceTable candidateSources) (files : Text → Option Text) :
    SourceTable candidateSources where
  rows := (createFinalDataset (selected.rows.map Candidate.rewrite) files).1
  extracted := by
    intro c hc
    obtain ⟨d, hd, rfl⟩ := List.mem_map.mp (List.mem_of_mem_take hc)
    exact selected.extracted d hd

def finalFiles (selected : SourceTable candidateSources) (files : Text → Option Text) :
    Text → Option Text :=
  (createFinalDataset (selected.rows.map Candidate.rewrite) files).2

def templateTable (final : SourceTable candidateSources) : SourceTable annotationSources where
  rows := final.rows.map fun c =>
    templateRow c.row.read.id c.row.read.functionName c.row.read.functionFile
  extracted := by
    intro row hrow path hpath
    obtain ⟨c, hc, rfl⟩ := List.mem_map.mp hrow
    rw [List.mem_singleton.mp hpath]
    exact final.extracted c hc c.row.functionFile List.mem_cons_self

def preannotatedTable (files : Text → Option Text) (template : SourceTable annotationSources) :
    SourceTable annotationSources where
  rows := preannotateRows T.unicode T.setOrder files (template.rows.map AnnotationRow.reread)
  extracted := by
    intro row hrow
    obtain ⟨_, hreread, rfl⟩ := List.mem_map.mp hrow
    obtain ⟨original, horiginal, rfl⟩ := List.mem_map.mp hreread
    rw [annotationSources, (preannotate_function T.setOrder _ _).2.2]
    exact template.extracted original horiginal

end

/-! ## The scripts -/

/-- What the reads of a stage tell apart. -/
abbrev AgreeOn (K : Finset Place) (w w' : Workspace) : Prop := Agree Place.view K w w'

theorem AgreeOn.read_eq {K : Finset Place} {w w' : Workspace} (h : AgreeOn K w w') {t : Table}
    (ht : Place.table t ∈ K) : w.read t = w'.read t :=
  Workspace.read_congr (h (.table t) ht)

theorem AgreeOn.files_eq {K : Finset Place} {w w' : Workspace} (h : AgreeOn K w w') {f : Folder}
    (hf : Place.folder f ∈ K) {path : Text} (hpath : f.dir <+: path) :
    w.files path = w'.files path := by
  obtain ⟨name, rfl⟩ := hpath
  exact congrFun (h (.folder f) hf) name

/-- A stage that loads its data, or fails to, then writes one table, if there is a result, and may
still stop. -/
structure TableStage (t : Table) where
  Data : Type
  reads : Finset Place
  load : Workspace → Except StageError Data
  result : Data → Option t.Content
  stop : Data → Option StageError := fun _ => none
  table_notMem : Place.table t ∉ reads
  load_congr : ∀ {w w' : Workspace}, AgreeOn reads w w' → load w = load w'

namespace TableStage

variable {t : Table} (stage : TableStage t)

def failure : Except StageError stage.Data → Option StageError
  | .error e => some e
  | .ok data => stage.stop data

def put (w : Workspace) : Except StageError stage.Data → Workspace
  | .error _ => w
  | .ok data => w.record t (stage.result data)

def script : Script Place.view StageError where
  Input := Except StageError stage.Data
  input := stage.load
  error := stage.failure
  put x w := stage.put w x
  reads := stage.reads
  writes := {.table t}
  disjoint := by
    rw [Finset.disjoint_singleton_right]
    exact stage.table_notMem
  input_congr := stage.load_congr
  put_frame := by
    intro x w k hk
    rw [Finset.mem_singleton] at hk
    cases x with
    | error e => rfl
    | ok data => exact w.view_record (stage.result data) hk
  put_congr := by
    intro x w w' h k hk
    rw [Finset.mem_singleton] at hk
    have htables : w.tables t = w'.tables t := h (.table t) (by simp)
    subst hk
    cases x with
    | error e => exact htables
    | ok data =>
        change (w.record t (stage.result data)).tables t =
          (w'.record t (stage.result data)).tables t
        rw [Workspace.tables_record, Workspace.tables_record, htables]
  put_put := by
    intro x w
    cases x with
    | error e => rfl
    | ok data => exact w.record_record (stage.result data)

end TableStage

theorem extracted_of_mem_cellWrites {U : UnicodeData} {cells : List (CodeCell × ℕ)}
    {q : Text × Text} (h : q ∈ cellWrites U cells) : extractedDir <+: q.1 := by
  obtain ⟨p, -, rfl | ⟨test, -, rfl⟩⟩ := mem_cellWrites.mp h
  · exact ⟨_, (List.append_assoc _ _ _).symm⟩
  · exact ⟨_, (List.append_assoc _ _ _).symm⟩

/-- Writes into one folder are seen in that folder only. -/
theorem view_writeAll {f : Folder} {l : List (Text × Text)} (h : ∀ p ∈ l, f.dir <+: p.1)
    (w : Workspace) {k : Place} (hk : k ≠ .folder f) :
    k.view (w.withFiles (Store.writeAll w.files l)) = k.view w := by
  refine Workspace.view_withFiles (f := f) (fun path hpath => ?_) hk
  refine Store.writeAll_of_notMem _ fun hmem => hpath ?_
  obtain ⟨p, hp, rfl⟩ := List.mem_map.mp hmem
  exact h p hp

def buildMetadataScript (T : Tools) : Script Place.view StageError where
  Input := List ParquetTable
  input := Workspace.raw
  error tables := (runBuildMetadata T.unicode tables fun _ => none).error.map .raised
  put tables w :=
    (w.withFiles (runBuildMetadata T.unicode tables w.files).files).record .metadata
      (metadataTable T tables w.files)
  reads := {.raw}
  writes := {.folder .extracted, .table .metadata}
  disjoint := by decide
  input_congr h := h .raw (Finset.mem_singleton_self _)
  put_frame := by
    intro tables w k hk
    rw [Finset.mem_insert, Finset.mem_singleton, not_or] at hk
    rw [Workspace.view_record _ _ hk.2, runBuildMetadata_files]
    exact view_writeAll (f := .extracted) (fun _ => extracted_of_mem_cellWrites) w hk.1
  put_congr := by
    intro tables w w' h k hk
    rw [Finset.mem_insert, Finset.mem_singleton] at hk
    rcases hk with rfl | rfl
    · funext name
      change ((w.withFiles _).record _ _).files _ = ((w'.withFiles _).record _ _).files _
      rw [Workspace.files_record, Workspace.files_record, runBuildMetadata_files,
        runBuildMetadata_files]
      have hname : w.files (extractedDir ++ name) = w'.files (extractedDir ++ name) :=
        congrFun (h (.folder .extracted) (by decide)) name
      exact Store.writeAll_congr hname _
    · change ((w.withFiles _).record _ _).tables _ = ((w'.withFiles _).record _ _).tables _
      have htables : w.tables .metadata = w'.tables .metadata := h (.table .metadata) (by decide)
      rw [Workspace.tables_record, Workspace.tables_record, metadataTable_congr T tables w.files]
      exact congrArg _ htables
  put_put := by
    intro tables w
    have hfiles : (runBuildMetadata T.unicode tables
        (runBuildMetadata T.unicode tables w.files).files).files =
          (runBuildMetadata T.unicode tables w.files).files := by
      simp only [runBuildMetadata_files, Store.writeAll_writeAll]
    have htable := metadataTable_congr T tables
      (runBuildMetadata T.unicode tables w.files).files w.files
    simp only [Workspace.files_record, Workspace.withFiles_record, Workspace.files_withFiles,
      Workspace.withFiles_withFiles, hfiles, htable, Workspace.record_record]

theorem candidateSources_rewrite (c : Candidate) : candidateSources c.rewrite = candidateSources c :=
  rfl

/-- Stage 03 copies from the folder of stage 01 into the final folder. -/
theorem final_copies {selected : SourceTable candidateSources} {c : Text × Text}
    (hc : c ∈ ((selected.rows.map Candidate.rewrite).take 60).flatMap fun c => finalCopies c.row) :
    Folder.extracted.dir <+: c.1 ∧ Folder.final.dir <+: c.2 := by
  obtain ⟨d, hd, hc⟩ := List.mem_flatMap.mp hc
  obtain ⟨e, he, rfl⟩ := List.mem_map.mp (List.mem_of_mem_take hd)
  obtain ⟨b, hb⟩ := exists_target_of_mem_finalCopies hc
  refine ⟨selected.extracted e he c.1 ?_, ⟨b, hb.symm⟩⟩
  rw [← candidateSources_rewrite]
  exact List.mem_map_of_mem hc

theorem final_source_ne_target {selected : SourceTable candidateSources} :
    ∀ c ∈ ((selected.rows.map Candidate.rewrite).take 60).flatMap (fun c => finalCopies c.row),
      ∀ d ∈ ((selected.rows.map Candidate.rewrite).take 60).flatMap (fun c => finalCopies c.row),
        c.1 ≠ d.2 := by
  intro c hc d hd heq
  have hsource := (final_copies hc).1
  rw [heq] at hsource
  exact not_isPrefix_of_ne hsource (by decide) (final_copies hd).2

def createFinalDatasetScript : Script Place.view StageError where
  Input := Except StageError (SourceTable candidateSources)
  input w := w.read .selectedCandidates
  error
    | .error e => some e
    | .ok _ => none
  put x w :=
    match x with
    | .error _ => w
    | .ok selected =>
      (w.withFiles (finalFiles selected w.files)).record .finalSelected
        (some (finalTable selected w.files))
  reads := {.table .selectedCandidates, .folder .extracted}
  writes := {.folder .final, .table .finalSelected}
  disjoint := by decide
  input_congr h := AgreeOn.read_eq h (by decide)
  put_frame := by
    intro x w k hk
    rw [Finset.mem_insert, Finset.mem_singleton, not_or] at hk
    cases x with
    | error e => rfl
    | ok selected =>
        refine (Workspace.view_record _ _ hk.2).trans ?_
        refine Workspace.view_withFiles (f := .final) (fun path hpath => ?_) hk.1
        refine Store.copyAll_of_notMem final_source_ne_target fun hmem => hpath ?_
        obtain ⟨c, hc, rfl⟩ := List.mem_map.mp hmem
        exact (final_copies hc).2
  put_congr := by
    intro x w w' h k hk
    rw [Finset.mem_insert, Finset.mem_singleton] at hk
    cases x with
    | error e =>
        refine h k (Finset.mem_union_right _ ?_)
        rwa [Finset.mem_insert, Finset.mem_singleton]
    | ok selected =>
        rcases hk with rfl | rfl
        · funext name
          have hname : w.files (finalDir ++ name) = w'.files (finalDir ++ name) :=
            congrFun (h (.folder .final) (by decide)) name
          refine Store.copyAll_congr final_source_ne_target (fun c hc => ?_) hname
          exact AgreeOn.files_eq h (f := .extracted) (by decide) (final_copies hc).1
        · rfl
  put_put := by
    intro x w
    cases x with
    | error e => rfl
    | ok selected =>
        have hfiles : finalFiles selected (finalFiles selected w.files) =
            finalFiles selected w.files :=
          Store.copyAll_copyAll final_source_ne_target
        have htable : finalTable selected (finalFiles selected w.files) =
            finalTable selected w.files := rfl
        simp only [Workspace.files_record, Workspace.withFiles_record, Workspace.files_withFiles,
          Workspace.withFiles_withFiles, hfiles, htable, Workspace.record_record]

theorem dir_prefix_of_mem_exportPrompts {prompts : List PromptRow} {p : Text × Text}
    (h : p ∈ (exportPrompts prompts).1) : Folder.prompts.dir <+: p.1 := by
  obtain ⟨row, -, rfl⟩ := exists_prompt_of_mem_exportPrompts h
  exact List.prefix_append _ _

def exportPromptsScript : Script Place.view StageError where
  Input := Except StageError (List PromptRow)
  input w := w.read .prompts
  error
    | .error e => some e
    | .ok prompts => (exportPrompts (prompts.map PromptRow.reread)).2.map .noSuchFile
  put x w :=
    match x with
    | .error _ => w
    | .ok prompts =>
      w.withFiles (Store.writeAll w.files (exportPrompts (prompts.map PromptRow.reread)).1)
  reads := {.table .prompts}
  writes := {.folder .prompts}
  disjoint := by decide
  input_congr h := AgreeOn.read_eq h (by decide)
  put_frame := by
    intro x w k hk
    rw [Finset.mem_singleton] at hk
    cases x with
    | error e => rfl
    | ok prompts => exact view_writeAll (fun _ => dir_prefix_of_mem_exportPrompts) w hk
  put_congr := by
    intro x w w' h k hk
    cases x with
    | error e => exact h k (Finset.mem_union_right _ hk)
    | ok prompts =>
        rw [Finset.mem_singleton] at hk
        subst hk
        funext name
        have hname : w.files (promptsDir ++ name) = w'.files (promptsDir ++ name) :=
          congrFun (h (.folder .prompts) (by decide)) name
        exact Store.writeAll_congr hname _
  put_put := by
    intro x w
    cases x with
    | error e => rfl
    | ok prompts => exact congrArg w.withFiles (Store.writeAll_writeAll w.files _)

/-! ## The stages that write a table -/

theorem preannotatedTable_congr {T : Tools} {files files' : Text → Option Text}
    {template : SourceTable annotationSources}
    (h : ∀ path, extractedDir <+: path → files path = files' path) :
    preannotatedTable T files template = preannotatedTable T files' template := by
  apply SourceTable.ext
  apply List.map_congr_left
  intro row hrow
  obtain ⟨original, horiginal, rfl⟩ := List.mem_map.mp hrow
  have hcode : files original.functionFile = files' original.functionFile :=
    h _ (template.extracted original horiginal _ (List.mem_singleton_self _))
  change preannotate _ _ (readCode files original.functionFile) _ =
    preannotate _ _ (readCode files' original.functionFile) _
  rw [readCode, readCode, hcode]

/-- The prompts for the ground truth. -/
def promptTable (files : Text → Option Text) (gt : SourceTable annotationSources) :
    List PromptRow :=
  createPrompts files (gt.rows.map AnnotationRow.reread)

theorem promptTable_congr {files files' : Text → Option Text} {gt : SourceTable annotationSources}
    (h : ∀ row ∈ gt.rows, files row.functionFile = files' row.functionFile) :
    promptTable files gt = promptTable files' gt := by
  apply List.filterMap_congr
  intro row hrow
  obtain ⟨original, horiginal, rfl⟩ := List.mem_map.mp hrow
  have hcode : files original.functionFile = files' original.functionFile := h _ horiginal
  change (files original.functionFile).map _ = (files' original.functionFile).map _
  rw [hcode]

namespace Workspace

/-- The two result tables, as the reports read them. -/
def readResults (w : Workspace) : Except StageError (List TtcRow × List CompileRow) := do
  let ttc ← w.read .ttcResults
  let compile ← w.read .compileResults
  .ok (ttc.map rereadTtcRow, compile.map rereadCompileRow)

/-- What the evaluation stages read. -/
def readTruth (w : Workspace) : Except StageError (TestDir × List GroundTruthRow) := do
  let gt ← w.read .groundTruth
  .ok (w.tests, truthRows gt)

end Workspace

theorem AgreeOn.readResults_eq {K : Finset Place} {w w' : Workspace} (h : AgreeOn K w w')
    (httc : Place.table .ttcResults ∈ K) (hcompile : Place.table .compileResults ∈ K) :
    w.readResults = w'.readResults := by
  unfold Workspace.readResults
  rw [h.read_eq httc, h.read_eq hcompile]

theorem AgreeOn.readTruth_eq {K : Finset Place} {w w' : Workspace} (h : AgreeOn K w w')
    (hgt : Place.table .groundTruth ∈ K) (htests : Place.tests ∈ K) :
    w.readTruth = w'.readTruth := by
  have hdir : w.tests = w'.tests := h .tests htests
  unfold Workspace.readTruth
  rw [h.read_eq hgt, hdir]

theorem AgreeOn.includePath_eq {K : Finset Place} {w w' : Workspace} (h : AgreeOn K w w')
    (hK : {.tests, .folder .extracted, .folder .final, .folder .prompts, .project} ⊆ K) :
    w.includePath = w'.includePath := by
  have hsources : w.includePath.sources = w'.includePath.sources := by
    funext f
    refine h (.folder f) (hK ?_)
    cases f <;> decide
  have htests : w.includePath.tests = w'.includePath.tests := h .tests (hK (by decide))
  have hproject : w.includePath.project = w'.includePath.project := h .project (hK (by decide))
  change IncludePath.mk _ _ _ = IncludePath.mk _ _ _
  exact congr (congr (congrArg IncludePath.mk htests) hsources) hproject

/-- How a stage ends that was read off its result. -/
def stopOf {α : Type} : Except PyError α → Option StageError
  | .error e => some (.raised e)
  | .ok _ => none

section

variable (T : Tools)

def selectStage : TableStage .selectedCandidates where
  Data := SourceTable rowSources
  reads := {.table .metadata}
  load w := w.read .metadata
  result metadata := some (selectedTable T metadata)
  table_notMem := by decide
  load_congr h := h.read_eq (by decide)

def templateStage : TableStage .template where
  Data := SourceTable candidateSources
  reads := {.table .finalSelected}
  load w := w.read .finalSelected
  result final := some (templateTable final)
  table_notMem := by decide
  load_congr h := h.read_eq (by decide)

def preannotateStage : TableStage .preannotated where
  Data := SourceTable annotationSources
  reads := {.table .template, .folder .extracted}
  load w := (w.read .template).map (preannotatedTable T w.files)
  result := some
  table_notMem := by decide
  load_congr := by
    intro w w' h
    have hcode : preannotatedTable T w.files = preannotatedTable T w'.files :=
      funext fun _ => preannotatedTable_congr fun _ => h.files_eq (f := .extracted) (by decide)
    rw [h.read_eq (by decide), hcode]

def promptStage : TableStage .prompts where
  Data := List PromptRow
  reads := {.table .groundTruth, .folder .extracted}
  load w := (w.read .groundTruth).map (promptTable w.files)
  result := some
  table_notMem := by decide
  load_congr := by
    intro w w' h
    have hcode : promptTable w.files = promptTable w'.files :=
      funext fun gt => promptTable_congr fun row hrow =>
        h.files_eq (f := .extracted) (by decide) (gt.extracted row hrow _ (List.mem_singleton_self _))
    rw [h.read_eq (by decide), hcode]

/-- Stages 08 and 09 walk over the ground truth and look up the tests. -/
def truthStage (t : Table) (result : TestDir → List GroundTruthRow → t.Content)
    (stop : TestDir → List GroundTruthRow → Option StageError)
    (htable : Place.table t ∉ ({.table .groundTruth, .tests} : Finset Place)) : TableStage t where
  Data := TestDir × List GroundTruthRow
  reads := {.table .groundTruth, .tests}
  load := Workspace.readTruth
  result p := some (result p.1 p.2)
  stop p := stop p.1 p.2
  table_notMem := htable
  load_congr h := h.readTruth_eq (by decide) (by decide)

def collectStage : TableStage .collected :=
  truthStage .collected collectTests (fun _ _ => none) (by decide)

def ttcStage : TableStage .ttcResults :=
  truthStage .ttcResults (ttcRows T.arithmetic T.unicode)
    (fun dir gt => stopOf (scoreTests T.arithmetic T.unicode dir gt)) (by decide)

/-- Stage 10 does so as well, and the compiler reads what the tests include. -/
def compileStage : TableStage .compileResults where
  Data := IncludePath × TestDir × List GroundTruthRow
  reads :=
    {.table .groundTruth, .tests, .folder .extracted, .folder .final, .folder .prompts, .project}
  load w := w.readTruth.map fun p => (w.includePath, p)
  result p :=
    if p.2.2.any (undecodable (T.compiler p.1) p.2.1) then none
    else some (compileRows (T.compiler p.1) p.2.1 p.2.2)
  stop p := stopOf (compileTests (T.compiler p.1) p.2.1 p.2.2)
  table_notMem := by decide
  load_congr h := by
    rw [h.readTruth_eq (by decide) (by decide), h.includePath_eq (by decide)]

/-- Stages 11 to 14 report on the two result tables. -/
def reportStage (t : Table) (result : List TtcRow → List CompileRow → Option t.Content)
    (htable : Place.table t ∉ ({.table .ttcResults, .table .compileResults} : Finset Place)) :
    TableStage t where
  Data := List TtcRow × List CompileRow
  reads := {.table .ttcResults, .table .compileResults}
  load := Workspace.readResults
  result p := result p.1 p.2
  stop p := if (result p.1 p.2).isNone then some .zeroDivision else none
  table_notMem := htable
  load_congr h := h.readResults_eq (by decide) (by decide)

def metricsStage : TableStage .finalMetrics := reportStage .finalMetrics finalMetrics (by decide)

def figuresStage : TableStage .figures :=
  reportStage .figures (fun ttc compile => some (figures ttc compile)) (by decide)

def summaryStage : TableStage .statisticalSummary :=
  reportStage .statisticalSummary
    (fun ttc compile => some (statisticalSummary T.std ttc compile)) (by decide)

def resultsStage : TableStage .finalResults :=
  reportStage .finalResults (fun ttc compile => some (finalResults ttc compile)) (by decide)

def thesisStage : TableStage .thesisTables where
  Data := List GroundTruthRow × List TtcRow × List CompileRow
  reads := {.table .groundTruth, .table .ttcResults, .table .compileResults}
  load w := do
    let gt ← w.read .groundTruth
    let results ← w.readResults
    .ok (truthRows gt, results)
  result p := some (thesisTables T.unicode p.1 p.2.1 p.2.2)
  table_notMem := by decide
  load_congr h := by rw [h.read_eq (by decide), h.readResults_eq (by decide) (by decide)]

def script : Stage → Script Place.view StageError
  | .buildMetadata => buildMetadataScript T
  | .selectCandidateFunctions => (selectStage T).script
  | .createFinalDataset => createFinalDatasetScript
  | .createGroundTruthTemplate => templateStage.script
  | .preannotateGroundTruth => (preannotateStage T).script
  | .createPrompts => promptStage.script
  | .exportPrompts => exportPromptsScript
  | .collectGeneratedTests => collectStage.script
  | .ttcScore => (ttcStage T).script
  | .compileScore => (compileStage T).script
  | .generateMetrics => metricsStage.script
  | .generateFigures => figuresStage.script
  | .statisticalAnalysis => (summaryStage T).script
  | .createFinalResultsTable => resultsStage.script
  | .generateThesisTables => (thesisStage T).script

end

@[simp] theorem script_reads (T : Tools) (s : Stage) : (script T s).reads = s.reads := by
  cases s <;> rfl

@[simp] theorem script_writes (T : Tools) (s : Stage) : (script T s).writes = s.writes := by
  cases s <;> rfl

/-! ## Histories -/

/-- Something is put into one place by hand. -/
def editScript (k : Place) (edit : Workspace → Workspace)
    (hframe : ∀ w, ∀ j : Place, j ≠ k → j.view (edit w) = j.view w)
    (hedit : ∀ w w', k.view (edit w) = k.view (edit w')) : Script Place.view StageError where
  Input := Unit
  input _ := ()
  error _ := none
  put _ := edit
  reads := ∅
  writes := {k}
  disjoint := Finset.disjoint_empty_left _
  input_congr _ := rfl
  put_frame _ w j hj := hframe w j fun heq => hj (Finset.mem_singleton.mpr heq)
  put_congr := by
    intro _ w w' _ j hj
    rw [Finset.mem_singleton.mp hj]
    exact hedit w w'
  put_put := by
    intro _ w
    apply Workspace.ext_view
    intro j
    by_cases hj : j = k
    · subst hj
      exact hedit _ _
    · exact hframe _ j hj

/-- A stage is run, new raw tables, generated tests or other project files arrive, or the ground truth
is edited. -/
inductive Event where
  | run (T : Tools) (s : Stage)
  | newRaw (tables : List ParquetTable)
  | newTests (dir : TestDir)
  | newProject (files : Text → Option Text)
  | newGroundTruth (gt : SourceTable annotationSources)

def Event.script : Event → Script Place.view StageError
  | run T s => Pipeline.script T s
  | newRaw tables =>
      editScript .raw (fun w => { w with raw := tables })
        (fun _ j hj => by cases j <;> first | rfl | exact absurd rfl hj) fun _ _ => rfl
  | newTests dir =>
      editScript .tests (fun w => { w with tests := dir })
        (fun _ j hj => by cases j <;> first | rfl | exact absurd rfl hj) fun _ _ => rfl
  | newProject files =>
      editScript .project (fun w => { w with project := files })
        (fun _ j hj => by cases j <;> first | rfl | exact absurd rfl hj) fun _ _ => rfl
  | newGroundTruth gt =>
      editScript (.table .groundTruth) (fun w => w.write .groundTruth gt)
        (fun w _ hj => w.view_write gt hj) fun w w' =>
          (w.tables_write_self (t := .groundTruth) gt).trans
            (w'.tables_write_self (t := .groundTruth) gt).symm

/-- The project folder after the events. -/
def after (events : List Event) (w : Workspace) : Workspace := runAll (events.map Event.script) w

theorem after_append (events later : List Event) (w : Workspace) :
    after (events ++ later) w = after later (after events w) := by
  unfold after
  rw [List.map_append, runAll_append]

end TTCEvaluation.Pipeline
