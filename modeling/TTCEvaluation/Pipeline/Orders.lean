import TTCEvaluation.Pipeline.Stages

/-!
# In which order the stages run

No two stages write to the same place, so what a schedule leaves is decided by
which stages it runs, as long as none runs before one whose output it reads.
Two processes may order a set differently, which only stage 05 shows.
-/

namespace TTCEvaluation.Pipeline

open Workflow

/-- The stages from the raw tables to the pre-annotation. -/
def datasetStages : List Stage :=
  [.buildMetadata, .selectCandidateFunctions, .createFinalDataset, .createGroundTruthTemplate,
    .preannotateGroundTruth]

/-- The stages from the edited ground truth to the thesis tables. -/
def evaluationStages : List Stage :=
  [.createPrompts, .exportPrompts, .collectGeneratedTests, .ttcScore, .compileScore,
    .generateMetrics, .generateFigures, .statisticalAnalysis, .createFinalResultsTable,
    .generateThesisTables]

/-- No stage comes before one whose output it reads. -/
def InOrder (es : List Stage) : Prop := es.Pairwise fun s t => Disjoint s.reads t.writes

instance (es : List Stage) : Decidable (InOrder es) := inferInstanceAs (Decidable (List.Pairwise ..))

def runStages (T : Tools) (es : List Stage) (w : Workspace) : Workspace :=
  runAll (es.map (script T)) w

theorem disjoint_writes {s t : Stage} (h : s ≠ t) : Disjoint s.writes t.writes := by
  revert h
  cases s <;> cases t <;> decide

theorem inOrder_all : InOrder Stage.all := by decide

theorem mem_all (s : Stage) : s ∈ Stage.all := by cases s <;> decide

variable {T : Tools} {es es' : List Stage}

theorem isSchedule_iff : IsSchedule (es.map (script T)) ↔ InOrder es := by
  simp only [IsSchedule, List.pairwise_map, script_reads, script_writes, InOrder]

theorem InOrder.failure_eq {before after : List Stage} {s : Stage}
    (h : InOrder (before ++ s :: after)) (w : Workspace) :
    (script T s).failure (runStages T before w) =
      (script T s).failure (runStages T (before ++ s :: after) w) := by
  have hschedule := isSchedule_iff (T := T).mpr h
  rw [List.map_append, List.map_cons] at hschedule
  have hfailure := hschedule.failure_eq w
  rwa [← List.map_cons, ← List.map_append] at hfailure

/-- Two runs of the same stages with the same tools, in orders in which no stage comes before one whose
output it reads, leave the same project folder. -/
theorem runStages_perm (T : Tools) (hperm : es.Perm es') (hnodup : es.Nodup) (h : InOrder es)
    (h' : InOrder es') (w : Workspace) : runStages T es w = runStages T es' w := by
  have hwrites : (es.map (script T)).Pairwise fun a b => Disjoint a.writes b.writes := by
    rw [List.pairwise_map]
    refine hnodup.imp fun hne => ?_
    rw [script_writes, script_writes]
    exact disjoint_writes hne
  exact runAll_eq_of_schedules (fun _ _ => Workspace.ext_view) (hperm.map (script T)) hwrites
    (isSchedule_iff.mpr h) (isSchedule_iff.mpr h') w

/-! ## The order of a set -/

/-- The two folders differ in the pre-annotation at most. -/
def SameButPreannotation (w w' : Workspace) : Prop :=
  ∀ k : Place, k ≠ .table .preannotated → k.view w = k.view w'

theorem SameButPreannotation.trans {w w' w'' : Workspace} (h : SameButPreannotation w w')
    (h' : SameButPreannotation w' w'') : SameButPreannotation w w'' :=
  fun k hk => (h k hk).trans (h' k hk)

theorem script_withSetOrder {s : Stage} (hs : s ≠ .preannotateGroundTruth) (order : SetOrder) :
    script (T.withSetOrder order) s = script T s := by
  cases s with
  | preannotateGroundTruth => exact absurd rfl hs
  | _ => rfl

/-- No stage reads the pre-annotation, and one writes it. -/
theorem disjoint_preannotated {s : Stage} (hs : s ≠ .preannotateGroundTruth) :
    Disjoint (s.reads ∪ s.writes) {.table .preannotated} := by
  revert hs
  cases s <;> decide

/-- Whether a stage fails is not decided by the order in which it enumerates a set. -/
theorem failure_withSetOrder (s : Stage) (order : SetOrder) (w : Workspace) :
    (script (T.withSetOrder order) s).failure w = (script T s).failure w := by
  by_cases hs : s = .preannotateGroundTruth
  · subst hs
    change (preannotateStage (T.withSetOrder order)).failure ((w.read .template).map _) =
      (preannotateStage T).failure ((w.read .template).map _)
    cases w.read .template <;> rfl
  · rw [script_withSetOrder hs]

theorem SameButPreannotation.failure_eq {w w' : Workspace} (h : SameButPreannotation w w')
    (s : Stage) : (script T s).failure w = (script T s).failure w' := by
  refine congrArg (script T s).error ((script T s).input_congr fun k hk => h k ?_)
  rintro rfl
  rw [script_reads] at hk
  revert hk
  cases s <;> decide

/-- Runs that enumerate sets in different orders differ in the pre-annotation alone. -/
theorem sameButPreannotation_runStages (es : List Stage) (order order' : SetOrder)
    {w w' : Workspace} (h : SameButPreannotation w w') :
    SameButPreannotation (runStages (T.withSetOrder order) es w)
      (runStages (T.withSetOrder order') es w') := by
  have hsame : ∀ k ∉ ({.table .preannotated} : Finset Place), k.view w = k.view w' :=
    fun k hk => h k fun heq => hk (Finset.mem_singleton.mpr heq)
  intro k hk
  refine same_runAll (fun s _ => ?_) hsame k fun hmem => hk (Finset.mem_singleton.mp hmem)
  by_cases hs : s = .preannotateGroundTruth
  · subst hs
    refine Or.inr ⟨?_, ?_⟩
    · rw [script_writes]
      decide
    · rw [script_writes]
      decide
  · refine Or.inl ⟨?_, ?_⟩
    · rw [script_withSetOrder hs, script_withSetOrder hs]
    · rw [script_reads, script_writes]
      exact disjoint_preannotated hs

def plainTools : Tools where
  arithmetic := .binary64
  unicode := asciiData
  sortValues := .stable
  setOrder := .plain
  compiler := fun _ => quietCompiler
  std := fun _ => none

end TTCEvaluation.Pipeline
