import TTCEvaluation.Pipeline.Failures
import TTCEvaluation.Pipeline.Reports

/-!
# When the whole pipeline completes

The raw tables arrive, stages 01 to 05 run, the ground truth is edited, the
generated tests are saved, and stages 06 to 15 run.  No step of this history
writes to a place that an earlier step used, so the folder at its end tells
which stages failed.
-/

namespace TTCEvaluation.Pipeline

open Workflow

def fullHistory (T : Tools) (raw : List ParquetTable) (gt : SourceTable annotationSources)
    (dir : TestDir) : List Event :=
  .newRaw raw :: (datasetStages.map (.run T) ++
    .newGroundTruth gt :: .newTests dir :: evaluationStages.map (.run T))

/-- The places that an event reads and writes. -/
def Event.places : Event → Finset Place × Finset Place
  | run _ s => (s.reads, s.writes)
  | newRaw _ => (∅, {.raw})
  | newTests _ => (∅, {.tests})
  | newProject _ => (∅, {.project})
  | newGroundTruth _ => (∅, {.table .groundTruth})

theorem Event.script_places (e : Event) : (e.script.reads, e.script.writes) = e.places := by
  cases e with
  | run T s => exact Prod.ext (script_reads T s) (script_writes T s)
  | newRaw | newTests | newProject | newGroundTruth => rfl

section

variable (T : Tools) (raw : List ParquetTable) (gt : SourceTable annotationSources)
  (dir : TestDir)

theorem pairwise_fullHistory :
    ((fullHistory T raw gt dir).map Event.script).Pairwise fun a b =>
      Disjoint b.writes (a.reads ∪ a.writes) := by
  -- the places do not depend on the data
  have hplaces : ((fullHistory T raw gt dir).map Event.places).Pairwise fun p q =>
      Disjoint q.2 (p.1 ∪ p.2) := by
    change ((fullHistory plainTools [] ⟨[], by simp⟩ (.ofListing [])).map Event.places).Pairwise _
    decide
  rw [List.pairwise_map] at hplaces ⊢
  refine hplaces.imp fun {e f} h => ?_
  rwa [← Event.script_places, ← Event.script_places] at h

/-- Running any step of the history again changes nothing. -/
theorem run_eq_of_mem_fullHistory (w : Workspace) {e : Event} (he : e ∈ fullHistory T raw gt dir) :
    e.script.run (after (fullHistory T raw gt dir) w) = after (fullHistory T raw gt dir) w :=
  run_eq_of_mem (pairwise_fullHistory T raw gt dir) (fun _ _ => Workspace.ext_view)
    (List.mem_map_of_mem he) w

end

/-! ## Where stages can fail -/

variable {T : Tools} {w : Workspace} {gt : SourceTable annotationSources}

theorem ready_of_file {t : Table} {content : t.Content} (h : w.tables t = some content)
    (hcolumns : t.columnless content = false) {K : Finset Place}
    (hK : ∀ t', Place.table t' ∈ K → t' = t) : ∀ t', Place.table t' ∈ K → Readable w t' :=
  readable_of_read (Table.read_eq_ok_iff.mpr ⟨h, hcolumns⟩) hK

section

variable (hrun : ∀ s ∈ Stage.all, (script T s).run w = w)

include hrun

/-- Where stage 01 succeeds, the others up to the pre-annotation do. -/
theorem dataset_upToDate (h : (script T .buildMetadata).failure w = none) :
    ∀ s ∈ datasetStages, UpToDate T s w := by
  have hup {s : Stage} (hready : Ready T w s) : UpToDate T s w :=
    ⟨failure_eq_none_iff.mpr hready, hrun _ (mem_all _)⟩
  have h₁ : UpToDate T .buildMetadata w := ⟨h, hrun _ (mem_all _)⟩
  obtain ⟨hmetadata, -⟩ := h₁.metadata
  have hrows : Table.columnless .metadata (cellTable T.unicode w.raw) = false := by
    have hcells := (buildMetadata_failure_iff.mp h).2
    simpa [Table.columnless, cellTable, cellRows] using hcells
  have h₂ : UpToDate T .selectCandidateFunctions w :=
    hup (ready_of_file hmetadata hrows (by simp [Stage.reads]))
  have hselected := h₂.selected hmetadata
  have h₃ : UpToDate T .createFinalDataset w :=
    hup (ready_of_file hselected rfl (by simp [Stage.reads]))
  obtain ⟨hfinal, -⟩ := h₃.final hselected
  have h₄ : UpToDate T .createGroundTruthTemplate w :=
    hup (ready_of_file hfinal rfl (by simp [Stage.reads]))
  have htemplate := h₄.template hfinal
  have h₅ : UpToDate T .preannotateGroundTruth w :=
    hup (ready_of_file htemplate rfl (by simp [Stage.reads]))
  simp only [datasetStages, List.forall_mem_cons, List.not_mem_nil, false_imp_iff, implies_true,
    and_true]
  exact ⟨h₁, h₂, h₃, h₄, h₅⟩

/-- With prompts for some functions of the ground truth, which can all be opened, and with compiler
messages that can be decoded, the evaluation succeeds. -/
theorem evaluation_failures (hgt : w.tables .groundTruth = some gt)
    (hprompts : promptTable w.files gt ≠ [])
    (hopens : ∀ prompt ∈ promptTable w.files gt, prompt.opens = true)
    (hdecoded : ∀ row ∈ truthRows gt, undecodable (T.compiler w.includePath) w.tests row = false) :
    ∀ s ∈ evaluationStages, (script T s).failure w = none := by
  have hup {s : Stage} (hready : Ready T w s) : UpToDate T s w :=
    ⟨failure_eq_none_iff.mpr hready, hrun _ (mem_all _)⟩
  have hread : w.read .groundTruth = .ok gt := Table.read_eq_ok_iff.mpr ⟨hgt, rfl⟩
  have hrows : gt.rows ≠ [] := by
    intro hnil
    apply hprompts
    rw [promptTable, hnil]
    rfl
  have htruth : truthRows gt ≠ [] := by simpa [truthRows] using hrows
  have h₆ : UpToDate T .createPrompts w :=
    hup (ready_of_file hgt rfl (by simp [Stage.reads]))
  have htable := h₆.promptTable_eq hgt
  have hcolumns : Table.columnless .prompts (promptTable w.files gt) = false := by
    simpa [Table.columnless] using hprompts
  rw [← reread_promptTable, List.forall_mem_map] at hopens
  have h₇ : UpToDate T .exportPrompts w :=
    hup ⟨_, Table.read_eq_ok_iff.mpr ⟨htable, hcolumns⟩, hopens⟩
  have h₈ : UpToDate T .collectGeneratedTests w :=
    hup (ready_of_file hgt rfl (by simp [Stage.reads]))
  have h₉ : UpToDate T .ttcScore w := hup ⟨gt, hread, hrows⟩
  have h₁₀ : UpToDate T .compileScore w := hup ⟨gt, hread, hrows, hdecoded⟩
  have hne : ttcTable T w.tests gt ≠ [] ∧ compileTable T w gt ≠ [] := by
    simpa [ttcTable, compileTable, ttcRows, compileRows] using htruth
  have hresults : ∀ t, Place.table t ∈ ({.table .ttcResults, .table .compileResults} :
      Finset Place) → Readable w t :=
    readable_of_readResults
      ((readResults_eq_ok_iff (h₉.scored hgt) (h₁₀.compiled hgt)).mpr ⟨hne.1, hne.2, rfl⟩)
  have hthesis : Ready T w .generateThesisTables := by
    intro t ht
    rcases Finset.mem_insert.mp ht with heq | ht
    · obtain rfl := Place.table.inj heq
      exact ⟨gt, hread⟩
    · exact hresults t ht
  simp only [evaluationStages, List.forall_mem_cons, List.not_mem_nil, false_imp_iff,
    implies_true, and_true]
  exact ⟨h₆.1, h₇.1, h₈.1, h₉.1, h₁₀.1, failure_eq_none_iff.mpr hresults,
    failure_eq_none_iff.mpr hresults, failure_eq_none_iff.mpr hresults,
    failure_eq_none_iff.mpr hresults, failure_eq_none_iff.mpr hthesis⟩

end

/-! ## Prompts -/

theorem promptTable_ne_nil_iff {files : Text → Option Text} :
    promptTable files gt ≠ [] ↔ ∃ row ∈ gt.rows, (files row.functionFile).isSome := by
  rw [promptTable, createPrompts, ne_eq, List.filterMap_eq_nil_iff]
  simp only [List.forall_mem_map, Option.map_eq_none_iff, not_forall, exists_prop,
    ← Option.isSome_iff_ne_none, ← ne_eq]
  rfl

/-- The names of the prompts are those of the functions whose source is there. -/
theorem promptTable_opens_iff {files : Text → Option Text} :
    (∀ prompt ∈ promptTable files gt, prompt.opens = true) ↔
      ∀ row ∈ gt.rows, (files row.functionFile).isSome →
        opensPrompt row.id (handOff row.functionName) = true := by
  constructor
  · intro h row hrow hsource
    obtain ⟨code, hcode⟩ := Option.isSome_iff_exists.mp hsource
    refine h ⟨row.id, handOff row.functionName, row.functionFile,
      promptText (universalNewlines code)⟩ ?_
    refine List.mem_filterMap.mpr ⟨row.reread, List.mem_map_of_mem hrow, ?_⟩
    change (files row.functionFile).map _ = _
    rw [hcode]
    rfl
  · intro h prompt hprompt
    obtain ⟨reread, hreread, heq⟩ := List.mem_filterMap.mp hprompt
    obtain ⟨code, hcode, rfl⟩ := Option.map_eq_some_iff.mp heq
    obtain ⟨row, hrow, rfl⟩ := List.mem_map.mp hreread
    exact h row hrow (Option.isSome_iff_exists.mpr ⟨code, hcode⟩)

/-! ## The history -/

section

variable (T : Tools) (raw : List ParquetTable) (gt : SourceTable annotationSources)
  (dir : TestDir) (w : Workspace)

theorem run_mem_fullHistory (s : Stage) : Event.run T s ∈ fullHistory T raw gt dir := by
  have hs : s ∈ datasetStages ∨ s ∈ evaluationStages := by cases s <;> decide
  rw [fullHistory, List.mem_cons, List.mem_append]
  rcases hs with hs | hs
  · exact Or.inr (Or.inl (List.mem_map_of_mem hs))
  · exact Or.inr (Or.inr (List.mem_cons_of_mem _ (List.mem_cons_of_mem _ (List.mem_map_of_mem hs))))

theorem fullHistory_end :
    (after (fullHistory T raw gt dir) w).raw = raw ∧
      (after (fullHistory T raw gt dir) w).tests = dir ∧
      (after (fullHistory T raw gt dir) w).tables .groundTruth = some gt := by
  have hraw := run_eq_of_mem_fullHistory T raw gt dir w (e := .newRaw raw) (by simp [fullHistory])
  have htests := run_eq_of_mem_fullHistory T raw gt dir w (e := .newTests dir)
    (by simp [fullHistory])
  have hgt := run_eq_of_mem_fullHistory T raw gt dir w (e := .newGroundTruth gt)
    (by simp [fullHistory])
  refine ⟨(congrArg Workspace.raw hraw).symm, (congrArg Workspace.tests htests).symm, ?_⟩
  rw [← hgt]
  exact Workspace.tables_write_self (t := .groundTruth) _ gt

/-- Only stage 01 writes to the folder of extracted files. -/
theorem files_fullHistory {path : Text} (h : extractedDir <+: path) :
    (after (fullHistory T raw gt dir) w).files path =
      (runBuildMetadata T.unicode raw w.files).files path := by
  obtain ⟨rest, hrest⟩ : ∃ rest, (fullHistory T raw gt dir).map Event.script =
      [(Event.newRaw raw).script] ++ script T .buildMetadata :: rest := ⟨_, rfl⟩
  have hundisturbed := undisturbed_of_pairwise (pairwise_fullHistory T raw gt dir) hrest
  have hfolder : ({.folder .extracted} : Finset Place) ⊆
      (script T .buildMetadata).reads ∪ (script T .buildMetadata).writes := by
    rw [script_reads, script_writes]
    decide
  have hagree := agree_runAll (fun b hb => (hundisturbed b hb).mono_right hfolder)
    ((script T .buildMetadata).run ((Event.newRaw raw).script.run w))
  have hfiles := AgreeOn.files_eq hagree (f := .extracted) (Finset.mem_singleton_self _) h
  rw [after, hrest, runAll_append, runAll_cons, runAll_cons, runAll_nil, hfiles]
  change ((Workspace.withFiles _ _).record _ _).files path = _
  rw [Workspace.files_record]
  rfl

theorem failures_fullHistory_iff :
    Succeeds ((fullHistory T raw gt dir).map Event.script) w ↔
      ∀ s, (script T s).failure (after (fullHistory T raw gt dir) w) = none := by
  rw [succeeds_iff (pairwise_fullHistory T raw gt dir), List.forall_mem_map]
  constructor
  · exact fun h s => h _ (run_mem_fullHistory T raw gt dir s)
  · intro h e he
    rw [fullHistory, List.mem_cons, List.mem_append, List.mem_map, List.mem_cons, List.mem_cons,
      List.mem_map] at he
    rcases he with rfl | ⟨s, -, rfl⟩ | rfl | rfl | ⟨s, -, rfl⟩
    · rfl
    · exact h s
    · rfl
    · rfl
    · exact h s

/-- At the end of the history the raw tables tell how stage 01 ended. -/
theorem buildMetadata_fullHistory_iff :
    (script T .buildMetadata).failure (after (fullHistory T raw gt dir) w) = none ↔
      (runBuildMetadata T.unicode raw w.files).error = none := by
  have hbuild := buildMetadata_failure_iff (T := T) (w := after (fullHistory T raw gt dir) w)
  have herror_iff := @runBuildMetadata_error_eq_none_iff T.unicode raw w.files
  rwa [(fullHistory_end T raw gt dir w).1, ← herror_iff] at hbuild

/-- After a completed stage 01 the extracted files are known. -/
theorem files_fullHistory_of_success (h : (runBuildMetadata T.unicode raw w.files).error = none) :
    ∀ row ∈ gt.rows, (after (fullHistory T raw gt dir) w).files row.functionFile =
      (extraction T.unicode raw w.files).files row.functionFile := by
  intro row hrow
  rw [files_fullHistory T raw gt dir w (gt.extracted row hrow _ (List.mem_singleton_self _)),
    runBuildMetadata_of_success h]

/-- What the raw tables, the ground truth and the tests must be like for the pipeline to complete: the
code can be found, some function of the ground truth has a source, no prompt is named for a further
folder, and the compiler says nothing that cannot be decoded. -/
structure Completes (T : Tools) (raw : List ParquetTable) (gt : SourceTable annotationSources)
    (dir : TestDir) (w : Workspace) : Prop where
  code_columns : ∀ table ∈ raw, (detectCodeColumn T.unicode table.columns).isSome
  code : numberedCells T.unicode raw ≠ []
  source : ∃ row ∈ gt.rows, ((extraction T.unicode raw w.files).files row.functionFile).isSome
  prompts : ∀ row ∈ gt.rows,
    ((extraction T.unicode raw w.files).files row.functionFile).isSome →
      '/' ∉ cellStr (handOff row.functionName)
  messages : ∀ row ∈ truthRows gt,
    undecodable (T.compiler (after (fullHistory T raw gt dir) w).includePath) dir row = false

/-- The end of the history tells whether its stages succeeded, and the data decides it. -/
theorem forall_failure_fullHistory_iff (hissued : ∀ row ∈ gt.rows, ∃ n, row.id = itemId n) :
    (∀ s, (script T s).failure (after (fullHistory T raw gt dir) w) = none) ↔
      Completes T raw gt dir w := by
  obtain ⟨-, htests, hgt⟩ := fullHistory_end T raw gt dir w
  have hrun : ∀ s ∈ Stage.all, (script T s).run (after (fullHistory T raw gt dir) w) =
      after (fullHistory T raw gt dir) w := fun s _ =>
    run_eq_of_mem_fullHistory T raw gt dir w (run_mem_fullHistory T raw gt dir s)
  have herror_iff := @runBuildMetadata_error_eq_none_iff T.unicode raw w.files
  have hbuild := buildMetadata_fullHistory_iff T raw gt dir w
  have hfiles := files_fullHistory_of_success T raw gt dir w
  constructor
  · intro hall
    have herror := hbuild.mp (hall _)
    have htable := UpToDate.promptTable_eq ⟨hall _, hrun _ (mem_all _)⟩ hgt
    obtain ⟨prompts, hread, hopens⟩ := ready_of_success (hall .exportPrompts)
    obtain rfl := Table.eq_of_read hread htable
    have hcolumns := (Table.read_eq_ok_iff.mp hread).2
    have hne : promptTable (after (fullHistory T raw gt dir) w).files gt ≠ [] := by
      simpa [Table.columnless] using hcolumns
    rw [← List.forall_mem_map (P := fun row : PromptRow => row.opens = true),
      reread_promptTable] at hopens
    obtain ⟨gt', hread', -, hdecoded⟩ := ready_of_success (hall .compileScore)
    rw [Table.eq_of_read hread' hgt, htests] at hdecoded
    obtain ⟨row, hrow, hsource⟩ := promptTable_ne_nil_iff.mp hne
    refine
      { code_columns := (herror_iff.mp herror).1
        code := (herror_iff.mp herror).2
        source := ⟨row, hrow, hfiles herror row hrow ▸ hsource⟩
        prompts := fun row hrow hsource => ?_
        messages := hdecoded }
    rw [← hfiles herror row hrow] at hsource
    exact (opensPrompt_iff.mp (promptTable_opens_iff.mp hopens row hrow hsource)).2
  · intro hcompletes s
    have herror := herror_iff.mpr ⟨hcompletes.code_columns, hcompletes.code⟩
    obtain ⟨row, hrow, hsource⟩ := hcompletes.source
    rw [← hfiles herror row hrow] at hsource
    have hopens : ∀ prompt ∈ promptTable (after (fullHistory T raw gt dir) w).files gt,
        prompt.opens = true := by
      refine promptTable_opens_iff.mpr fun row hrow hsource => ?_
      obtain ⟨n, hn⟩ := hissued row hrow
      rw [hfiles herror row hrow] at hsource
      rw [hn]
      exact opensPrompt_iff.mpr ⟨slash_notMem_itemId n, hcompletes.prompts row hrow hsource⟩
    have hmessages : ∀ row ∈ truthRows gt,
        undecodable (T.compiler (after (fullHistory T raw gt dir) w).includePath)
          (after (fullHistory T raw gt dir) w).tests row = false := by
      rw [htests]
      exact hcompletes.messages
    have hdataset := dataset_upToDate hrun (hbuild.mpr herror)
    have hevaluation := evaluation_failures hrun hgt
      (promptTable_ne_nil_iff.mpr ⟨row, hrow, hsource⟩) hopens hmessages
    have hs : s ∈ datasetStages ∨ s ∈ evaluationStages := by cases s <;> decide
    exact hs.elim (fun hs => (hdataset s hs).1) (hevaluation s)

end

/-! ## A sample -/

def sampleCode : Text :=
  "int clamp(int x) { if (x < 0) return 0; while (x > 9) x -= 1; return x; }".toList

/-- The reviewed row of the function of the sample code. -/
def sampleTruthRow : AnnotationRow :=
  { templateRow (itemId 1) (some "clamp".toList) ((singleCell sampleCode).functionFile 1) with
    bvaApplicable := some "yes".toList
    bvaExpectedValues := some "0".toList }

/-- A ground truth with one row. -/
def sampleTruthTable : SourceTable annotationSources where
  rows := [sampleTruthRow]
  extracted := by
    intro row hrow path hpath
    rw [List.mem_singleton.mp hrow] at hpath
    rw [List.mem_singleton.mp hpath]
    exact ⟨_, (List.append_assoc _ _ _).symm⟩

def sampleHistory : List Event :=
  fullHistory plainTools [singleTable sampleCode] sampleTruthTable (.ofListing [])

theorem mem_sampleCells (tables : List ParquetTable) :
    (singleCell sampleCode, 1) ∈ numberedCells asciiData (singleTable sampleCode :: tables) := by
  have hblank : strip sampleCode ≠ [] := by decide
  refine (numberedCells_prefix_append [singleTable sampleCode] tables).subset ?_
  rw [numberedCells_singleTable hblank]
  exact List.mem_singleton_self _

theorem issued_sampleTruthTable : ∀ row ∈ sampleTruthTable.rows, ∃ n, row.id = itemId n :=
  List.forall_mem_singleton.mpr ⟨1, rfl⟩

/-- The function of the sample ground truth is extracted from the sample code. -/
theorem isSome_sampleSource (tables : List ParquetTable) (files : Text → Option Text) :
    ∀ row ∈ sampleTruthTable.rows,
      ((extraction asciiData (singleTable sampleCode :: tables) files).files
        row.functionFile).isSome := by
  intro row hrow
  rw [List.mem_singleton.mp hrow]
  change ((extraction asciiData _ files).files ((singleCell sampleCode).functionFile 1)).isSome
  rw [files_functionFile (mem_sampleCells tables)]
  rfl

/-- The pipeline completes on the sample code and any further code, with any tests. -/
theorem succeeds_sampleCode (more : List Text) (dir : TestDir) (w : Workspace) :
    Succeeds ((fullHistory plainTools (singleTable sampleCode :: more.map singleTable)
      sampleTruthTable dir).map Event.script) w := by
  rw [failures_fullHistory_iff, forall_failure_fullHistory_iff _ _ _ _ _ issued_sampleTruthTable]
  constructor
  case code_columns =>
    rw [← List.map_cons, List.forall_mem_map]
    intro code _
    change (detectCodeColumn asciiData _).isSome
    rw [detectCodeColumn_singleTable]
    rfl
  case code => exact List.ne_nil_of_mem (mem_sampleCells _)
  case source =>
    exact ⟨_, List.mem_singleton_self _, isSome_sampleSource _ w.files _ (List.mem_singleton_self _)⟩
  case prompts =>
    intro row hrow _
    rw [List.mem_singleton.mp hrow]
    decide
  case messages => exact fun row _ => undecodable_quietCompiler dir row

theorem succeeds_sampleHistory (w : Workspace) : Succeeds (sampleHistory.map Event.script) w :=
  succeeds_sampleCode [] (.ofListing []) w

theorem ran_sampleHistory (s : Stage) : Ran plainTools s sampleHistory (.initial []) :=
  settled_of_succeeds (pairwise_fullHistory ..) (succeeds_sampleHistory _)
    (List.mem_map_of_mem (run_mem_fullHistory ..))

/-! ## The whole pipeline -/

/-- After stages 01 to 05 have run, in the order of their inputs and with success, their tables and
files are those of one run in an empty folder, whatever happened before and in between. -/
theorem dataset_current (T : Tools) (review : Review) (events : List Event) (w : Workspace)
    (h : ∀ s ∈ datasetStages, Ran T s events w) :
    DatasetCurrent (T.setting review (after events w)) (after events w) :=
  dataset_current_of_upToDate T review fun s hs => (h s hs).upToDate

theorem dataset_current_sample :
    DatasetCurrent (plainTools.setting plainSetting.review (after sampleHistory (.initial [])))
      (after sampleHistory (.initial [])) :=
  dataset_current plainTools plainSetting.review sampleHistory (.initial []) fun s _ =>
    ran_sampleHistory s

/-- After stages 06 to 15 have run, in the order of their inputs and with success, their tables and
files are those of one run on the ground truth, the tests and the source files, whatever happened
before and in between. -/
theorem evaluation_current (T : Tools) (events : List Event) (w : Workspace)
    (h : ∀ s ∈ evaluationStages, Ran T s events w) :
    ∃ gt, EvaluationCurrent T (after events w) gt :=
  evaluation_current_of_upToDate fun s hs => (h s hs).upToDate

theorem evaluation_current_sample :
    ∃ gt, EvaluationCurrent plainTools (after sampleHistory (.initial [])) gt :=
  evaluation_current plainTools sampleHistory (.initial []) fun s _ => ran_sampleHistory s

end TTCEvaluation.Pipeline
