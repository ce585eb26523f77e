import TTCEvaluation.Evaluation.Figures
import TTCEvaluation.Evaluation.HandOff
import TTCEvaluation.Evaluation.Results

/-!
# The project folder

The stages share nothing but the project folder: the raw tables, the generated
tests, source files in three folders, one file for each table, and what else the
tests include.  The rows of a table can only name source files that stage 01
extracted, so that the folders a stage writes to are known from its code; of the
ground truth, which is edited by hand, this is an assumption.
-/

namespace TTCEvaluation.Pipeline

/-- How a stage stops. -/
inductive StageError where
  | raised (error : PyError)
  | noSuchFile (path : Text)
  | noColumns (path : Text)
  | zeroDivision
deriving DecidableEq

/-! ## Tables -/

/-- A table all of whose rows name extracted source files. -/
@[ext]
structure SourceTable {ρ : Type} (sources : ρ → List Text) where
  rows : List ρ
  extracted : ∀ row ∈ rows, ∀ path ∈ sources row, extractedDir <+: path

/-- The files that stage 03 copies for the row. -/
def rowSources (row : MetadataRow) : List Text := (finalCopies row).map Prod.fst

def candidateSources (c : Candidate) : List Text := rowSources c.row

def annotationSources (row : AnnotationRow) : List Text := [row.functionFile]

/-- The tables, by the files that hold them. -/
inductive Table where
  | metadata
  | selectedCandidates
  | finalSelected
  | template
  | preannotated
  | groundTruth
  | prompts
  | collected
  | ttcResults
  | compileResults
  | finalMetrics
  | figures
  | statisticalSummary
  | finalResults
  | thesisTables
deriving DecidableEq

namespace Table

abbrev Content : Table → Type
  | metadata => SourceTable rowSources
  | selectedCandidates | finalSelected => SourceTable candidateSources
  | template | preannotated | groundTruth => SourceTable annotationSources
  | prompts => List PromptRow
  | collected => List CollectedRow
  | ttcResults => List TtcRow
  | compileResults => List CompileRow
  | finalMetrics => List (Text × Option ℚ)
  | figures => Figures
  | statisticalSummary => List SummaryRow
  | finalResults => List FinalRow
  | thesisTables => ThesisTables

/-- Figures and thesis tables are several files in a folder. -/
def path : Table → Text
  | metadata => "datasets/metadata/metadata.csv".toList
  | selectedCandidates => "datasets/metadata/selected_candidate_functions.csv".toList
  | finalSelected => "datasets/final/final_selected_functions.csv".toList
  | template => "datasets/final/ground_truth_template.csv".toList
  | preannotated => "datasets/final/ground_truth_preannotated.csv".toList
  | groundTruth => "datasets/final/ground_truth_final.csv".toList
  | prompts => "prompts/evaluation_prompts.csv".toList
  | collected => "experimental_results/gpt55_generated_tests.csv".toList
  | ttcResults => "experimental_results/ttc_results_gpt55.csv".toList
  | compileResults => "experimental_results/compile_results_gpt55.csv".toList
  | finalMetrics => "experimental_results/final_metrics_gpt55.csv".toList
  | figures => "experimental_results/figures".toList
  | statisticalSummary => "experimental_results/statistical_summary_gpt55.csv".toList
  | finalResults => "experimental_results/final_results_table_gpt55.csv".toList
  | thesisTables => "experimental_results/thesis_tables".toList

/-- A table made from an empty list of records has no columns, and cannot be read. -/
def columnless : (t : Table) → t.Content → Bool
  | metadata, content => content.rows.isEmpty
  | prompts, content | collected, content | ttcResults, content | compileResults, content =>
      content.isEmpty
  | _, _ => false

/-- `pd.read_csv` on the file of the table, if there is one. -/
def read (t : Table) : Option t.Content → Except StageError t.Content
  | none => .error (.noSuchFile t.path)
  | some content => if t.columnless content then .error (.noColumns t.path) else .ok content

theorem read_eq_ok_iff {t : Table} {file : Option t.Content} {content : t.Content} :
    t.read file = .ok content ↔ file = some content ∧ t.columnless content = false := by
  unfold read
  split
  · simp
  · rename_i c
    by_cases hc : t.columnless c = true
    · rw [if_pos hc]
      simp only [reduceCtorEq, Option.some.injEq, false_iff, not_and, Bool.not_eq_false]
      rintro rfl
      exact hc
    · rw [if_neg hc]
      simp only [Except.ok.injEq, Option.some.injEq, iff_self_and]
      rintro rfl
      simpa using hc

/-- What is read is what is in the file. -/
theorem eq_of_read {t : Table} {file : Option t.Content} {content read : t.Content}
    (hread : t.read file = .ok read) (hfile : file = some content) : read = content := by
  obtain ⟨hsome, -⟩ := read_eq_ok_iff.mp hread
  exact Option.some.inj (hsome.symm.trans hfile)

end Table

/-! ## The folders of source files -/

inductive Folder where
  | extracted
  | final
  | prompts
deriving DecidableEq

def Folder.dir : Folder → Text
  | extracted => extractedDir
  | final => finalDir
  | prompts => promptsDir

theorem not_isPrefix_of_ne {f g : Folder} {path : Text} (hf : f.dir <+: path)
    (hne : g ≠ f) : ¬g.dir <+: path := by
  intro hg
  have hdirs : ¬f.dir <+: g.dir ∧ ¬g.dir <+: f.dir := by
    revert hne
    cases f <;> cases g <;> decide
  exact (List.prefix_or_prefix_of_prefix hf hg).elim hdirs.1 hdirs.2

/-! ## The workspace -/

/-- No stage touches the other files of the project, such as headers. -/
structure Workspace where
  raw : List ParquetTable
  tests : TestDir
  files : Text → Option Text
  project : Text → Option Text
  tables : (t : Table) → Option t.Content

/-- Nothing but the raw tables. -/
def Workspace.initial (raw : List ParquetTable) : Workspace where
  raw := raw
  tests := .ofListing []
  files _ := none
  project _ := none
  tables _ := none

/-- What the compiler finds under `-I.`; tables and raw data are no sources to include. -/
structure IncludePath where
  tests : TestDir
  sources : Folder → Text → Option Text
  project : Text → Option Text

def Workspace.includePath (w : Workspace) : IncludePath where
  tests := w.tests
  sources f name := w.files (f.dir ++ name)
  project := w.project

/-- What a stage can read or write. -/
inductive Place where
  | raw
  | tests
  | folder (f : Folder)
  | elsewhere
  | project
  | table (t : Table)
deriving DecidableEq

namespace Place

abbrev Content : Place → Type
  | raw => List ParquetTable
  | tests => TestDir
  | folder _ => Text → Option Text
  | elsewhere => {path : Text // ∀ f : Folder, ¬f.dir <+: path} → Option Text
  | project => Text → Option Text
  | table t => Option t.Content

def view : (k : Place) → Workspace → k.Content
  | raw, w => w.raw
  | tests, w => w.tests
  | folder f, w => fun name => w.files (f.dir ++ name)
  | elsewhere, w => fun path => w.files path.1
  | project, w => w.project
  | table t, w => w.tables t

end Place

namespace Workspace

/-- A workspace is what is at its places. -/
theorem ext_view {w w' : Workspace} (h : ∀ k : Place, k.view w = k.view w') : w = w' := by
  obtain ⟨raw, tests, files, project, tables⟩ := w
  obtain ⟨raw', tests', files', project', tables'⟩ := w'
  have hfiles : files = files' := by
    funext path
    by_cases hpath : ∃ f : Folder, f.dir <+: path
    · obtain ⟨f, name, rfl⟩ := hpath
      exact congrFun (h (.folder f)) name
    · exact congrFun (h .elsewhere) ⟨path, not_exists.mp hpath⟩
  have htables : tables = tables' := funext fun t => h (.table t)
  have hraw : raw = raw' := h .raw
  have htests : tests = tests' := h .tests
  have hproject : project = project' := h .project
  rw [hraw, htests, hfiles, hproject, htables]

def read (w : Workspace) (t : Table) : Except StageError t.Content := t.read (w.tables t)

def write (w : Workspace) (t : Table) (content : t.Content) : Workspace :=
  { w with tables := Function.update w.tables t (some content) }

/-- Write the table, if there is one to write. -/
def record (w : Workspace) (t : Table) : Option t.Content → Workspace
  | none => w
  | some content => w.write t content

def withFiles (w : Workspace) (files : Text → Option Text) : Workspace := { w with files := files }

variable {w w' : Workspace} {t : Table}

theorem read_congr (h : (Place.table t).view w = (Place.table t).view w') : w.read t = w'.read t :=
  congrArg t.read h

@[simp] theorem tables_write_self (w : Workspace) (content : t.Content) :
    (w.write t content).tables t = some content :=
  Function.update_self ..

theorem view_write (w : Workspace) (content : t.Content) {k : Place} (h : k ≠ .table t) :
    k.view (w.write t content) = k.view w := by
  cases k with
  | table t' => exact Function.update_of_ne (fun heq => h (congrArg Place.table heq)) _ _
  | raw | tests | folder | elsewhere | project => rfl

theorem view_record (w : Workspace) (content : Option t.Content) {k : Place} (h : k ≠ .table t) :
    k.view (w.record t content) = k.view w := by
  cases content with
  | none => rfl
  | some content => exact view_write w content h

theorem tables_record (w : Workspace) (content : Option t.Content) :
    (w.record t content).tables t = content.or (w.tables t) := by
  cases content with
  | none => rfl
  | some content => exact tables_write_self w content

@[simp] theorem record_record (w : Workspace) (content : Option t.Content) :
    (w.record t content).record t content = w.record t content := by
  cases content with
  | none => rfl
  | some content =>
      have hidem := @Function.update_idem Table _ (fun t => Option t.Content) t (some content)
        (some content) w.tables
      exact congrArg (fun tables : (t : Table) → Option t.Content => { w with tables := tables })
        hidem

@[simp] theorem files_record (w : Workspace) (content : Option t.Content) :
    (w.record t content).files = w.files := by
  cases content <;> rfl

@[simp] theorem files_withFiles (w : Workspace) (files : Text → Option Text) :
    (w.withFiles files).files = files := rfl

@[simp] theorem withFiles_withFiles (w : Workspace) (files files' : Text → Option Text) :
    (w.withFiles files).withFiles files' = w.withFiles files' := rfl

theorem withFiles_record (w : Workspace) (content : Option t.Content)
    (files : Text → Option Text) :
    (w.record t content).withFiles files = (w.withFiles files).record t content := by
  cases content <;> rfl

/-- Changing the files in one folder leaves the other places alone. -/
theorem view_withFiles {files : Text → Option Text} {f : Folder}
    (h : ∀ path, ¬f.dir <+: path → files path = w.files path) {k : Place} (hk : k ≠ .folder f) :
    k.view (w.withFiles files) = k.view w := by
  cases k with
  | raw | tests | project | table => rfl
  | folder g =>
      funext name
      refine h _ (not_isPrefix_of_ne (List.prefix_append g.dir name) ?_)
      rintro rfl
      exact hk rfl
  | elsewhere =>
      funext path
      exact h path.1 (path.2 f)

end Workspace

end TTCEvaluation.Pipeline
