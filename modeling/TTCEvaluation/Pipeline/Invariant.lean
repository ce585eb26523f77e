import TTCEvaluation.Evaluation.Ranges
import TTCEvaluation.Pipeline.Stages

/-!
# Sound project folders

In a sound folder every source file is named after the code in it, every table
up to the pre-annotation has distinct identifiers and names files that are
there, and all scores and reports are in range.  Files come and are replaced,
but never go, so tables stay sound while the files change.
-/

namespace TTCEvaluation.Pipeline

variable {files files' : Text → Option Text}

/-! ## Files -/

/-- The files that the stages write: code under the name found in it, tests that pass for tests, next
to a function of their number and name, and prompts that quote some code. -/
inductive SourceFile (files : Text → Option Text) : Text → Text → Prop
  | function {dir : Text} (hdir : dir = functionsDir ∨ dir = finalFunctionsDir) (n : ℕ)
      {code : Text} (hcode : strip code ≠ []) :
      SourceFile files (dir ++ functionFileName n (extractFunctionName (.text code))) code
  | test {dir : Text} (hdir : dir = humanTestsDir ∨ dir = finalTestsDir) (n : ℕ)
      {name content : Text} (htest : looksLikeCppTestCode (.text content) = true)
      (hfunction : (files (functionsDir ++ functionFileName n name)).isSome) :
      SourceFile files (dir ++ testFileName n name) content
  | prompt (name : Text) {code : Text} (hcode : strip code ≠ []) :
      SourceFile files (promptsDir ++ name) (promptText (universalNewlines code))

def FilesSound (files : Text → Option Text) : Prop :=
  ∀ path content, files path = some content → SourceFile files path content

/-! ## Tables -/

/-- The number and the name in the paths of a row, whose files are there. -/
structure Filed (files : Text → Option Text) (row : MetadataRow) : Prop where
  number : ∃ n name, '/' ∉ name ∧ row.id = itemId n ∧
    row.functionFile = functionsDir ++ functionFileName n name ∧
    (row.humanTestFile = [] ∨ row.humanTestFile = humanTestsDir ++ testFileName n name)
  function : (files row.functionFile).isSome
  test : row.humanTestFile ≠ [] → (files row.humanTestFile).isSome

/-- The rows of a selection: distinct, filed, and ordered by the score of each. -/
structure SelectionSound (files : Text → Option Text) (rows : List Candidate) : Prop where
  distinct : (rows.map fun c => c.row.id).Nodup
  filed : ∀ c ∈ rows, Filed files c.row
  scored : ∀ c ∈ rows, c.selectionScore = scoreFunction c.row ∧ 7 ≤ c.selectionScore
  sorted : rows.Pairwise Candidate.Before

/-- A mark that nobody has reviewed yet. -/
def Unreviewed (mark : Cell) : Prop :=
  mark = none ∨ mark = some "review_yes".toList ∨ mark = some "review_no".toList

/-- The rows of an annotation table: at most sixty, distinct, for functions that are there, and not
reviewed yet. -/
structure AnnotationsSound (files : Text → Option Text) (rows : List AnnotationRow) : Prop where
  length : rows.length ≤ 60
  distinct : (rows.map AnnotationRow.id).Nodup
  issued : ∀ row ∈ rows, ∃ n name, row.id = itemId n ∧
    row.functionFile = functionsDir ++ functionFileName n name
  filed : ∀ row ∈ rows, (files row.functionFile).isSome
  unreviewed : ∀ row ∈ rows, Unreviewed row.bvaApplicable ∧ Unreviewed row.ecpApplicable

/-- The message is short, and a test that was not found does not compile. -/
structure CompileSound (row : CompileRow) : Prop where
  error : row.error.length ≤ 3000
  missing : row.testFile = [] → row.compileSuccess = false

def Table.Sound (files : Text → Option Text) : (t : Table) → t.Content → Prop
  | metadata, table =>
      (table.rows.map MetadataRow.id).Nodup ∧ ∀ row ∈ table.rows, Filed files row
  | selectedCandidates, table => SelectionSound files table.rows
  | finalSelected, table => SelectionSound files table.rows ∧ table.rows.length ≤ 60
  | template, table | preannotated, table => AnnotationsSound files table.rows
  | prompts, rows =>
      ∀ row ∈ rows, ∃ code, strip code ≠ [] ∧ row.prompt = promptText (universalNewlines code)
  | ttcResults, rows => ∀ row ∈ rows, row.InRange
  | compileResults, rows => ∀ row ∈ rows, CompileSound row
  | finalMetrics, rows => MetricsInRange rows
  | figures, f => f.InRange
  | statisticalSummary, rows => SummaryInRange rows
  | finalResults, rows => rows ≠ [] ∧ ∀ row ∈ rows, row.InRange
  | thesisTables, t => t.InRange
  | groundTruth, _ | collected, _ => True

structure Sound (w : Workspace) : Prop where
  files : FilesSound w.files
  tables : ∀ t content, w.tables t = some content → t.Sound w.files content

theorem sound_initial (raw : List ParquetTable) : Sound (.initial raw) where
  files := by
    intro path content h
    cases h
  tables := by
    intro t content h
    cases h

/-! ## Files that stay -/

/-- No file goes. -/
def Kept (files files' : Text → Option Text) : Prop :=
  ∀ path, (files path).isSome → (files' path).isSome

theorem kept_writeAll (files : Text → Option Text) (l : List (Text × Text)) :
    Kept files (Store.writeAll files l) := by
  intro path hpath
  by_cases h : path ∈ l.map Prod.fst
  · obtain ⟨content, -, hwrites⟩ := Store.exists_writeAll_of_mem files h
    rw [hwrites]
    rfl
  · rwa [Store.writeAll_of_notMem files h]

theorem SourceFile.mono (h : Kept files files') {path content : Text}
    (hfile : SourceFile files path content) : SourceFile files' path content := by
  cases hfile with
  | function hdir n hcode => exact .function hdir n hcode
  | test hdir n htest hfunction => exact .test hdir n htest (h _ hfunction)
  | prompt name hcode => exact .prompt name hcode

theorem Filed.mono (h : Kept files files') {row : MetadataRow} (hrow : Filed files row) :
    Filed files' row where
  number := hrow.number
  function := h _ hrow.function
  test hne := h _ (hrow.test hne)

theorem SelectionSound.mono (h : Kept files files') {rows : List Candidate}
    (hrows : SelectionSound files rows) : SelectionSound files' rows :=
  { hrows with filed := fun c hc => (hrows.filed c hc).mono h }

theorem AnnotationsSound.mono (h : Kept files files') {rows : List AnnotationRow}
    (hrows : AnnotationsSound files rows) : AnnotationsSound files' rows :=
  { hrows with filed := fun row hrow => h _ (hrows.filed row hrow) }

theorem Table.Sound.mono (h : Kept files files') {t : Table} {content : t.Content}
    (hcontent : t.Sound files content) : t.Sound files' content := by
  cases t with
  | metadata => exact ⟨hcontent.1, fun row hrow => (hcontent.2 row hrow).mono h⟩
  | selectedCandidates => exact SelectionSound.mono h hcontent
  | finalSelected => exact ⟨hcontent.1.mono h, hcontent.2⟩
  | template | preannotated => exact AnnotationsSound.mono h hcontent
  | _ => exact hcontent

/-- Writes of source files keep the files sound. -/
theorem FilesSound.writeAll (hfiles : FilesSound files) {l : List (Text × Text)}
    (h : ∀ p ∈ l, SourceFile (Store.writeAll files l) p.1 p.2) :
    FilesSound (Store.writeAll files l) := by
  intro path content hcontent
  by_cases hmem : path ∈ l.map Prod.fst
  · obtain ⟨content', hmem, hwrites⟩ := Store.exists_writeAll_of_mem files hmem
    rw [hwrites] at hcontent
    rw [← Option.some.inj hcontent]
    exact h _ hmem
  · rw [Store.writeAll_of_notMem files hmem] at hcontent
    exact (hfiles path content hcontent).mono (kept_writeAll files l)

/-- Nothing changes but the table, and what is written there is sound. -/
theorem Sound.record {w : Workspace} (h : Sound w) {t : Table} {content : Option t.Content}
    (hcontent : ∀ c, content = some c → t.Sound w.files c) : Sound (w.record t content) where
  files := by
    rw [Workspace.files_record]
    exact h.files
  tables := by
    intro t' content' hcontent'
    rw [Workspace.files_record]
    by_cases ht : t' = t
    · subst ht
      rw [Workspace.tables_record] at hcontent'
      cases content with
      | none => exact h.tables t' content' hcontent'
      | some c => exact hcontent _ (congrArg some (Option.some.inj hcontent'))
    · have hsame : (w.record t content).tables t' = w.tables t' :=
        w.view_record content (k := .table t') fun heq => ht (Place.table.inj heq)
      rw [hsame] at hcontent'
      exact h.tables t' content' hcontent'

theorem Sound.withFiles {w : Workspace} (h : Sound w) (hkept : Kept w.files files')
    (hfiles : FilesSound files') : Sound (w.withFiles files') where
  files := hfiles
  tables t content hcontent := (h.tables t content hcontent).mono hkept

end TTCEvaluation.Pipeline
