import TTCEvaluation.Pipeline.Current
import TTCEvaluation.Pipeline.Failures

/-!
# The evaluation in an up-to-date folder

Stages 06 to 15 depend on the ground truth, the generated tests and the source
files of the functions alone.  Names and marks that were read once are read
again in the same way, so the reports are those of the tables as stages 09 and
10 make them.
-/

namespace TTCEvaluation.Pipeline

open Workflow

/-! ## Reading again -/

theorem reread_promptTable (files : Text → Option Text) (gt : SourceTable annotationSources) :
    (promptTable files gt).map PromptRow.reread = promptTable files gt := by
  apply map_eq_self
  intro prompt hprompt
  obtain ⟨row, hrow, heq⟩ := List.mem_filterMap.mp hprompt
  obtain ⟨content, -, rfl⟩ := Option.map_eq_some_iff.mp heq
  obtain ⟨original, -, rfl⟩ := List.mem_map.mp hrow
  simp only [PromptRow.reread, AnnotationRow.reread, handOff_handOff]

section

variable (A : Arithmetic) (U : UnicodeData) (gpp : Compiler) (dir : TestDir)
  (gt : SourceTable annotationSources)

theorem reread_ttcRows :
    (ttcRows A U dir (truthRows gt)).map rereadTtcRow = ttcRows A U dir (truthRows gt) := by
  apply map_eq_self
  intro row hrow
  obtain ⟨truth, htruth, rfl⟩ := List.mem_map.mp hrow
  obtain ⟨original, -, rfl⟩ := List.mem_map.mp htruth
  cases findGeneratedTest dir original.reread.truth.id <;>
    simp only [scoreRow, missingTest, scoreTest, rereadTtcRow, AnnotationRow.truth,
      AnnotationRow.reread, handOff_handOff, handOff_none]

theorem reread_compileRows :
    (compileRows gpp dir (truthRows gt)).map rereadCompileRow =
      compileRows gpp dir (truthRows gt) := by
  apply map_eq_self
  intro row hrow
  obtain ⟨truth, htruth, rfl⟩ := List.mem_map.mp hrow
  obtain ⟨original, -, rfl⟩ := List.mem_map.mp htruth
  cases findGeneratedTest dir original.reread.truth.id <;>
    simp only [compileRow, rereadCompileRow, AnnotationRow.truth, AnnotationRow.reread,
      handOff_handOff]

end

/-! ## The tables of the evaluation -/

variable {T : Tools} {w : Workspace} {gt : SourceTable annotationSources}

/-- What stage 09 makes of the ground truth and the tests. -/
def ttcTable (T : Tools) (dir : TestDir) (gt : SourceTable annotationSources) : List TtcRow :=
  ttcRows T.arithmetic T.unicode dir (truthRows gt)

/-- What stage 10 makes of the ground truth, the tests and what they include. -/
def compileTable (T : Tools) (w : Workspace) (gt : SourceTable annotationSources) :
    List CompileRow :=
  compileRows (T.compiler w.includePath) w.tests (truthRows gt)

/-- The tables of stages 06 to 15, and the files under the names of the prompts, are those of one run on
the ground truth, the tests and the source files. -/
structure EvaluationCurrent (T : Tools) (w : Workspace) (gt : SourceTable annotationSources) :
    Prop where
  truth : w.tables .groundTruth = some gt
  prompts : w.tables .prompts = some (promptTable w.files gt)
  prompts_open : ∀ prompt ∈ promptTable w.files gt, prompt.opens = true
  prompt_files : ∀ path ∈ (promptTable w.files gt).map PromptRow.path,
    w.files path = Store.writeAll (fun _ => none)
      ((promptTable w.files gt).map fun row => (row.path, row.prompt)) path
  collected : w.tables .collected = some (collectTests w.tests (truthRows gt))
  scored : w.tables .ttcResults = some (ttcTable T w.tests gt)
  compiled : w.tables .compileResults = some (compileTable T w gt)
  metrics : w.tables .finalMetrics =
    finalMetrics (ttcTable T w.tests gt) (compileTable T w gt)
  figures : w.tables .figures =
    some (TTCEvaluation.figures (ttcTable T w.tests gt) (compileTable T w gt))
  summary : w.tables .statisticalSummary =
    some (statisticalSummary T.std (ttcTable T w.tests gt) (compileTable T w gt))
  results : w.tables .finalResults =
    some (finalResults (ttcTable T w.tests gt) (compileTable T w gt))
  thesis : w.tables .thesisTables =
    some (thesisTables T.unicode (truthRows gt) (ttcTable T w.tests gt)
      (compileTable T w gt))

theorem readTruth_eq (h : w.tables .groundTruth = some gt) :
    w.readTruth = .ok (w.tests, truthRows gt) := by
  have hread : w.read .groundTruth = .ok gt := Table.read_eq_ok_iff.mpr ⟨h, rfl⟩
  unfold Workspace.readTruth
  rw [hread]
  rfl

theorem readResults_eq_ok_iff {ttc : List TtcRow} {compile : List CompileRow}
    (httc : w.tables .ttcResults = some ttc) (hcompile : w.tables .compileResults = some compile)
    {p : List TtcRow × List CompileRow} :
    w.readResults = .ok p ↔
      ttc ≠ [] ∧ compile ≠ [] ∧ p = (ttc.map rereadTtcRow, compile.map rereadCompileRow) := by
  unfold Workspace.readResults Workspace.read
  rw [httc, hcompile]
  cases ttc with
  | nil => simp [Table.read, Table.columnless, bind, Except.bind]
  | cons t ttc =>
      cases compile with
      | nil => simp [Table.read, Table.columnless, bind, Except.bind]
      | cons c compile =>
          simp only [Table.read, Table.columnless, bind, Except.bind, List.isEmpty_cons, ne_eq,
            reduceCtorEq, not_false_eq_true, true_and, Except.ok.injEq, Bool.false_eq_true, if_false]
          exact eq_comm

theorem table_of_upToDate {t : Table} (stage : TableStage t) (h : stage.script.UpToDate w)
    {data : stage.Data} (hload : stage.load w = .ok data) :
    (stage.result data).or (w.tables t) = w.tables t ∧ stage.stop data = none := by
  obtain ⟨data', hload', hstop, htable⟩ := exists_load_of_upToDate h
  rw [hload] at hload'
  obtain rfl := Except.ok.inj hload'
  exact ⟨htable, hstop⟩

theorem UpToDate.prompts (h : UpToDate T .createPrompts w) :
    ∃ gt, w.tables .groundTruth = some gt ∧ w.tables .prompts = some (promptTable w.files gt) := by
  obtain ⟨data, hload, -, htable⟩ := exists_load_of_upToDate h
  change (w.read .groundTruth).map (promptTable w.files) = .ok data at hload
  cases hread : w.read .groundTruth with
  | error e =>
      rw [hread] at hload
      cases hload
  | ok gt =>
      rw [hread] at hload
      refine ⟨gt, (Table.read_eq_ok_iff.mp hread).1, ?_⟩
      rw [← htable, ← Except.ok.inj hload]
      rfl

theorem UpToDate.promptTable_eq (h : UpToDate T .createPrompts w)
    (hgt : w.tables .groundTruth = some gt) :
    w.tables .prompts = some (promptTable w.files gt) := by
  obtain ⟨gt', hgt', htable⟩ := h.prompts
  rwa [Option.some.inj (hgt'.symm.trans hgt)] at htable

theorem UpToDate.promptFiles (h : UpToDate T .exportPrompts w) {prompts : List PromptRow}
    (hprompts : w.tables .prompts = some prompts) :
    (∀ row ∈ prompts.map PromptRow.reread, row.opens = true) ∧
      Store.writeAll w.files ((prompts.map PromptRow.reread).map fun row => (row.path, row.prompt)) =
        w.files := by
  obtain ⟨hfailure, hrun⟩ := h
  obtain ⟨prompts', hread, hopens⟩ := ready_of_success hfailure
  obtain ⟨hfile, -⟩ := Table.read_eq_ok_iff.mp hread
  rw [hprompts] at hfile
  obtain rfl := Option.some.inj hfile
  rw [← List.forall_mem_map (P := fun row : PromptRow => row.opens = true)] at hopens
  change exportPromptsScript.put (w.read .prompts) w = w at hrun
  rw [hread] at hrun
  have hfiles : Store.writeAll w.files (exportPrompts (prompts.map PromptRow.reread)).1 = w.files :=
    congrArg Workspace.files hrun
  rw [exportPrompts_of_opens hopens] at hfiles
  exact ⟨hopens, hfiles⟩

section

variable (hgt : w.tables .groundTruth = some gt)

include hgt

theorem UpToDate.collected (h : UpToDate T .collectGeneratedTests w) :
    w.tables .collected = some (collectTests w.tests (truthRows gt)) :=
  (table_of_upToDate collectStage h (readTruth_eq hgt)).1.symm

theorem UpToDate.scored (h : UpToDate T .ttcScore w) :
    w.tables .ttcResults = some (ttcTable T w.tests gt) :=
  (table_of_upToDate (ttcStage T) h (readTruth_eq hgt)).1.symm

theorem UpToDate.compiled (h : UpToDate T .compileScore w) :
    w.tables .compileResults = some (compileTable T w gt) := by
  have hload : (compileStage T).load w = .ok (w.includePath, w.tests, truthRows gt) := by
    change w.readTruth.map (fun p => (w.includePath, p)) = _
    rw [readTruth_eq hgt]
    rfl
  obtain ⟨htable, -⟩ := table_of_upToDate (compileStage T) h hload
  obtain ⟨gt', hread, -, hdecoded⟩ := ready_of_success h.1
  rw [Table.eq_of_read hread hgt] at hdecoded
  have hnone : ¬(truthRows gt).any (undecodable (T.compiler w.includePath) w.tests) = true := by
    simpa using hdecoded
  rw [← htable]
  exact congrArg (fun o : Option (List CompileRow) => o.or (w.tables .compileResults))
    (if_neg hnone)

end

/-- A report on tables that are read with success is written. -/
theorem report_of_upToDate {t : Table}
    {result : List TtcRow → List CompileRow → Option t.Content}
    {htable : Place.table t ∉ ({.table .ttcResults, .table .compileResults} : Finset Place)}
    (h : (reportStage t result htable).script.UpToDate w)
    (httc : w.tables .ttcResults = some (ttcTable T w.tests gt))
    (hcompile : w.tables .compileResults = some (compileTable T w gt)) :
    w.tables t = result (ttcTable T w.tests gt) (compileTable T w gt) := by
  obtain ⟨data, hload, hstop, hresult⟩ := exists_load_of_upToDate h
  obtain ⟨-, -, rfl⟩ := (readResults_eq_ok_iff httc hcompile).mp hload
  have hreread : (reportStage t result htable).result
      ((ttcTable T w.tests gt).map rereadTtcRow,
        (compileTable T w gt).map rereadCompileRow) =
      result (ttcTable T w.tests gt) (compileTable T w gt) := by
    change result ((ttcTable T w.tests gt).map rereadTtcRow)
      ((compileTable T w gt).map rereadCompileRow) = _
    rw [ttcTable, compileTable, reread_ttcRows, reread_compileRows]
  change (if ((reportStage t result htable).result _).isNone then some StageError.zeroDivision
    else none) = none at hstop
  rw [hreread] at hresult hstop
  cases hvalue : result (ttcTable T w.tests gt) (compileTable T w gt) with
  | none =>
      rw [hvalue] at hstop
      cases hstop
  | some content =>
      rw [hvalue] at hresult
      exact hresult.symm

theorem UpToDate.thesis (h : UpToDate T .generateThesisTables w)
    (hgt : w.tables .groundTruth = some gt)
    (httc : w.tables .ttcResults = some (ttcTable T w.tests gt))
    (hcompile : w.tables .compileResults = some (compileTable T w gt)) :
    w.tables .thesisTables =
      some (thesisTables T.unicode (truthRows gt) (ttcTable T w.tests gt)
        (compileTable T w gt)) := by
  obtain ⟨data, hload, -, hresult⟩ := exists_load_of_upToDate h
  have hread : w.read .groundTruth = .ok gt := Table.read_eq_ok_iff.mpr ⟨hgt, rfl⟩
  change (do
    let gt ← w.read .groundTruth
    let results ← w.readResults
    .ok (truthRows gt, results)) = .ok data at hload
  rw [hread] at hload
  cases hresults : w.readResults with
  | error e =>
      rw [hresults] at hload
      cases hload
  | ok results =>
      rw [hresults] at hload
      obtain ⟨-, -, rfl⟩ := (readResults_eq_ok_iff httc hcompile).mp hresults
      rw [ttcTable, compileTable, reread_ttcRows, reread_compileRows] at hload
      rw [← hresult, ← Except.ok.inj hload]
      rfl

theorem evaluation_current_of_upToDate (h : ∀ s ∈ evaluationStages, UpToDate T s w) :
    ∃ gt, EvaluationCurrent T w gt := by
  simp only [evaluationStages, List.forall_mem_cons] at h
  obtain ⟨h₆, h₇, h₈, h₉, h₁₀, h₁₁, h₁₂, h₁₃, h₁₄, h₁₅, -⟩ := h
  obtain ⟨gt, hgt, hprompts⟩ := h₆.prompts
  have hscored := h₉.scored hgt
  have hcompiled := h₁₀.compiled hgt
  obtain ⟨hopens, hexported⟩ := h₇.promptFiles hprompts
  rw [reread_promptTable] at hopens hexported
  refine ⟨gt,
    { truth := hgt
      prompts := hprompts
      prompts_open := hopens
      prompt_files := ?_
      collected := h₈.collected hgt
      scored := hscored
      compiled := hcompiled
      metrics := report_of_upToDate h₁₁ hscored hcompiled
      figures := report_of_upToDate h₁₂ hscored hcompiled
      summary := report_of_upToDate h₁₃ hscored hcompiled
      results := report_of_upToDate h₁₄ hscored hcompiled
      thesis := h₁₅.thesis hgt hscored hcompiled }⟩
  intro path hpath
  have hwritten : path ∈ ((promptTable w.files gt).map fun row => (row.path, row.prompt)).map
      Prod.fst := by
    rwa [List.map_map]
  obtain ⟨content, -, hwrites⟩ := Store.exists_writeAll_of_mem w.files hwritten
  rw [hwrites fun _ => none, ← hwrites w.files, hexported]

end TTCEvaluation.Pipeline
