import TTCEvaluation.Pipeline.Completion

/-!
# Running stages again

The same stages leave the same folder in any order in which none comes before one
whose output it reads.  No stage writes to a place of an earlier one, so an
earlier stage has nothing to do after later ones ran.  After an edit it is enough
to run the stages that use what was edited, directly or through other stages.

A stage that runs again is another process, which may enumerate its sets in
another order; this shows in the pre-annotation alone.
-/

namespace TTCEvaluation.Pipeline

open Workflow

/-- A stage after the others ends as it would if all of them enumerated sets in the other order. -/
theorem failure_runStages_withSetOrder (T : Tools) (order : SetOrder) (es : List Stage) (s : Stage)
    (w : Workspace) :
    (script (T.withSetOrder order) s).failure (runStages (T.withSetOrder order) es w) =
      (script T s).failure (runStages T es w) := by
  have hsame : SameButPreannotation (runStages (T.withSetOrder order) es w) (runStages T es w) :=
    sameButPreannotation_runStages es order T.setOrder fun _ _ => rfl
  rw [failure_withSetOrder, hsame.failure_eq]

/-! ## Other orders -/

/-- Two runs of the same stages, in orders in which no stage comes before one whose output it reads,
leave the same project folder, and each stage ends in the same way in both.  Only the pre-annotation
may differ if the two enumerate sets in different orders. -/
theorem order_irrelevant (T : Tools) (order order' : SetOrder) {es es' : List Stage}
    (hperm : es.Perm es') (hnodup : es.Nodup) (h : InOrder es) (h' : InOrder es') (w : Workspace) :
    (order = order' → runStages (T.withSetOrder order) es w =
        runStages (T.withSetOrder order') es' w) ∧
      SameButPreannotation (runStages (T.withSetOrder order) es w)
        (runStages (T.withSetOrder order') es' w) ∧
      ∀ (s : Stage) (before after before' after' : List Stage),
        es = before ++ s :: after → es' = before' ++ s :: after' →
          (script (T.withSetOrder order) s).failure (runStages (T.withSetOrder order) before w) =
            (script (T.withSetOrder order') s).failure
              (runStages (T.withSetOrder order') before' w) := by
  refine ⟨?_, ?_, ?_⟩
  · rintro rfl
    exact runStages_perm _ hperm hnodup h h' w
  · rw [← runStages_perm (T.withSetOrder order') hperm hnodup h h' w]
    exact sameButPreannotation_runStages es order order' fun _ _ => rfl
  · rintro s before after before' after' rfl rfl
    rw [failure_runStages_withSetOrder, failure_runStages_withSetOrder, h.failure_eq, h'.failure_eq,
      runStages_perm T hperm hnodup h h' w]

/-- The raw tables, the ground truth and the tests may arrive before any stage runs. -/
theorem runStages_after_edits (T : Tools) (raw : List ParquetTable)
    (gt : SourceTable annotationSources) (dir : TestDir) (w : Workspace) :
    runStages T Stage.all (after [.newRaw raw, .newGroundTruth gt, .newTests dir] w) =
      after (fullHistory T raw gt dir) w := by
  let first : List Event :=
    .newRaw raw :: .newGroundTruth gt :: .newTests dir :: Stage.all.map (.run T)
  have hsplit : runStages T Stage.all (after [.newRaw raw, .newGroundTruth gt, .newTests dir] w) =
      runAll (first.map Event.script) w := rfl
  have hperm : first.Perm (fullHistory T raw gt dir) := by
    have hstages : Stage.all.map (Event.run T) =
        datasetStages.map (.run T) ++ evaluationStages.map (.run T) := rfl
    refine List.Perm.cons _ ?_
    rw [hstages]
    exact (List.perm_middle.trans (List.perm_middle.cons _)).symm.trans (by rfl)
  -- the places do not depend on the data
  have hplaces : (first.map Event.places).Pairwise fun p q =>
      Disjoint p.2 q.2 ∧ Disjoint p.1 q.2 := by
    change ((Event.newRaw [] :: .newGroundTruth ⟨[], by simp⟩ :: .newTests (.ofListing []) ::
      Stage.all.map (.run plainTools)).map Event.places).Pairwise _
    decide
  have hscripts : (first.map Event.script).Pairwise fun a b =>
      Disjoint a.writes b.writes ∧ Disjoint a.reads b.writes := by
    rw [List.pairwise_map] at hplaces ⊢
    refine hplaces.imp fun {e f} h => ?_
    rwa [← Event.script_places, ← Event.script_places] at h
  have hschedule : IsSchedule ((fullHistory T raw gt dir).map Event.script) :=
    (pairwise_fullHistory T raw gt dir).imp fun h => (h.mono_right Finset.subset_union_left).symm
  rw [hsplit]
  exact runAll_eq_of_schedules (fun _ _ => Workspace.ext_view) (hperm.map Event.script)
    (hscripts.imp And.left) (hscripts.imp And.right) hschedule w

/-- The folder before the sample run: raw table, ground truth and tests are there. -/
def sampleFolder : Workspace :=
  after [.newRaw [singleTable sampleCode], .newGroundTruth sampleTruthTable,
    .newTests (.ofListing [])] (.initial [])

/-- The evaluation of an edited ground truth, before the dataset is annotated again. -/
def evaluationFirst : List Stage :=
  [.buildMetadata, .createPrompts, .exportPrompts, .selectCandidateFunctions, .createFinalDataset,
    .compileScore, .ttcScore, .generateThesisTables, .createFinalResultsTable,
    .statisticalAnalysis, .generateFigures, .generateMetrics, .collectGeneratedTests,
    .createGroundTruthTemplate, .preannotateGroundTruth]

/-- All stages succeed, in either order. -/
theorem order_irrelevant_evaluationFirst :
    runStages plainTools evaluationFirst sampleFolder =
        runStages plainTools Stage.all sampleFolder ∧
      ∀ s, (script plainTools s).failure (runStages plainTools Stage.all sampleFolder) = none := by
  have hperm : evaluationFirst.Perm Stage.all := by decide
  have horder : InOrder evaluationFirst := by decide
  constructor
  · exact (order_irrelevant plainTools .plain .plain hperm (by decide) horder inOrder_all
      sampleFolder).1 rfl
  · intro s
    unfold sampleFolder
    rw [runStages_after_edits]
    exact (ran_sampleHistory s).upToDate.1

/-! ## Later stages -/

theorem pairwise_undisturbed :
    Stage.all.Pairwise fun s t => Disjoint t.writes (s.reads ∪ s.writes) := by
  decide

/-- After a stage and any runs of later ones, in any order, with any tools and whether they fail or
not, the stage changes nothing and ends as it did before.  Stage 05 may list its constants in another
order if it enumerates sets in another one. -/
theorem later_stages_keep (T : Tools) {s : Stage} {before later : List Stage}
    (hall : Stage.all = before ++ s :: later) (runs : List (Tools × Stage))
    (hruns : ∀ p ∈ runs, p.2 ∈ later) (w : Workspace) (order : SetOrder) {v : Workspace}
    (hv : v = after (runs.map fun p => .run p.1 p.2) ((script T s).run w)) :
    (s ≠ .preannotateGroundTruth ∨ order = T.setOrder →
        (script (T.withSetOrder order) s).run v = v) ∧
      SameButPreannotation ((script (T.withSetOrder order) s).run v) v ∧
      (script (T.withSetOrder order) s).failure v = (script T s).failure w := by
  have hlater := pairwise_undisturbed
  rw [hall] at hlater
  have hundisturbed : Undisturbed (script T s)
      ((runs.map fun p => Event.run p.1 p.2).map Event.script) := by
    rw [Undisturbed, List.forall_mem_map, List.forall_mem_map]
    intro p hp
    change Disjoint (script p.1 p.2).writes _
    rw [script_writes, script_reads, script_writes]
    exact (List.pairwise_cons.mp (List.pairwise_append.mp hlater).2.1).1 p.2 (hruns p hp)
  have hkeeps : (script T s).run v = v := by
    rw [hv]
    exact hundisturbed.run_eq (fun _ _ => Workspace.ext_view) w
  refine ⟨?_, ?_, ?_⟩
  · rintro (hs | rfl)
    · rwa [script_withSetOrder hs]
    · exact hkeeps
  · have hsame : SameButPreannotation ((script (T.withSetOrder order) s).run v)
        ((script T s).run v) :=
      sameButPreannotation_runStages [s] order T.setOrder fun _ _ => rfl
    rwa [hkeeps] at hsame
  · rw [failure_withSetOrder, hv]
    exact hundisturbed.failure_eq w

/-- In the sample folder stage 09 succeeds, and has nothing to do after stage 11. -/
theorem later_stages_keep_sample :
    ∃ v, v = after [.run plainTools .generateMetrics]
        ((script plainTools .ttcScore).run (after sampleHistory (.initial []))) ∧
      (script plainTools .ttcScore).run v = v ∧
      (script plainTools .ttcScore).failure v = none := by
  obtain ⟨hrun, -, hfailure⟩ := @later_stages_keep plainTools .ttcScore
    [.buildMetadata, .selectCandidateFunctions, .createFinalDataset, .createGroundTruthTemplate,
      .preannotateGroundTruth, .createPrompts, .exportPrompts, .collectGeneratedTests] _
    rfl [(plainTools, .generateMetrics)] (by simp) (after sampleHistory (.initial [])) .plain _ rfl
  exact ⟨_, rfl, hrun (Or.inr rfl), hfailure.trans (ran_sampleHistory .ttcScore).upToDate.1⟩

/-! ## After an edit -/

/-- The places that the events write to. -/
def changed (events : List Event) : Finset Place :=
  events.foldr (fun e D => e.places.2 ∪ D) ∅

theorem places_subset_changed {events : List Event} {e : Event} (he : e ∈ events) :
    e.places.2 ⊆ changed events := by
  induction events with
  | nil => cases he
  | cons f events ih =>
      rcases List.mem_cons.mp he with rfl | he
      · exact Finset.subset_union_left
      · exact (ih he).trans Finset.subset_union_right

theorem view_after {events : List Event} {k : Place} (hk : k ∉ changed events) (w : Workspace) :
    k.view (after events w) = k.view w := by
  have hagree : Agree Place.view {k} (after events w) w := by
    refine agree_runAll (List.forall_mem_map.mpr fun e he => ?_) w
    have hwrites : e.script.writes = e.places.2 := congrArg Prod.snd e.script_places
    rw [hwrites, Finset.disjoint_singleton_right]
    exact fun hmem => hk (places_subset_changed he hmem)
  exact hagree k (Finset.mem_singleton_self k)

/-- The stages, by their numbers, that use what the events wrote, directly or through stages before
them. -/
def affectedStages (edits : List Event) : List Stage :=
  affected Stage.reads Stage.writes (changed edits) Stage.all

/-- If every stage has run with success and then something happens to the folder, running the
affected stages leaves the same folder as running all fifteen; the affected stages end as they
would there, and the others would succeed.  Only the pre-annotation may differ if the runs enumerate
sets in different orders. -/
theorem rerun_affected (T : Tools) (events edits : List Event) (w : Workspace)
    (h : ∀ s, Ran T s events w) (order order' : SetOrder) {v : Workspace}
    (hv : v = after (events ++ edits) w) :
    runStages T (affectedStages edits) v = runStages T Stage.all v ∧
      SameButPreannotation (runStages (T.withSetOrder order) (affectedStages edits) v)
        (runStages (T.withSetOrder order') Stage.all v) ∧
      ∀ (before later : List Stage) (s : Stage), Stage.all = before ++ s :: later →
        (s ∉ affectedStages edits →
          (script (T.withSetOrder order') s).failure
            (runStages (T.withSetOrder order') before v) = none) ∧
        ∀ before' later', affectedStages edits = before' ++ s :: later' →
          (script (T.withSetOrder order) s).failure (runStages (T.withSetOrder order) before' v) =
            (script (T.withSetOrder order') s).failure
              (runStages (T.withSetOrder order') before v) := by
  rw [after_append] at hv
  have hdone : ∀ s ∈ Stage.all, (script T s).run (after events w) = after events w :=
    fun s _ => (h s).upToDate.2
  have hsame : ∀ k ∉ changed edits, k.view v = k.view (after events w) := by
    rw [hv]
    exact fun k hk => view_after hk _
  have hequal : runStages T (affectedStages edits) v = runStages T Stage.all v :=
    runAll_affected (script_reads T) (script_writes T) (fun _ _ => Workspace.ext_view) hdone hsame
  have haffected : SameButPreannotation (runStages (T.withSetOrder order) (affectedStages edits) v)
      (runStages T (affectedStages edits) v) :=
    sameButPreannotation_runStages _ order T.setOrder fun _ _ => rfl
  rw [hequal] at haffected
  refine ⟨hequal, haffected.trans (sameButPreannotation_runStages _ T.setOrder order' fun _ _ => rfl),
    fun before later s hall => ⟨fun hnot => ?_, fun before' later' haffected => ?_⟩⟩
  · have hbefore : ∀ t ∈ before, (script T t).run (after events w) = after events w := by
      intro t ht
      apply hdone
      rw [hall]
      exact List.mem_append_left _ ht
    rw [affectedStages, hall] at hnot
    rw [failure_runStages_withSetOrder]
    exact (failure_of_notMem_affected (script_reads T) (script_writes T)
      (fun _ _ => Workspace.ext_view) hbefore hsame hnot).trans (h s).upToDate.1
  · have horder : InOrder (affectedStages edits) := inOrder_all.sublist (affected_sublist _ _)
    have horder' := inOrder_all
    rw [haffected] at horder hequal
    rw [hall] at horder' hequal
    rw [failure_runStages_withSetOrder, failure_runStages_withSetOrder, horder.failure_eq,
      horder'.failure_eq, hequal]

theorem rerun_affected_sample :
    runStages plainTools (affectedStages [.newTests sampleDir])
        (after (sampleHistory ++ [.newTests sampleDir]) (.initial [])) =
      runStages plainTools Stage.all
        (after (sampleHistory ++ [.newTests sampleDir]) (.initial [])) :=
  (rerun_affected plainTools sampleHistory [.newTests sampleDir] (.initial []) ran_sampleHistory
    .plain .plain rfl).1

/-- An edited ground truth does not concern the dataset. -/
example (gt : SourceTable annotationSources) :
    affectedStages [.newGroundTruth gt] = evaluationStages := by
  change affectedStages [.newGroundTruth ⟨[], by simp⟩] = evaluationStages
  decide

/-- New raw tables reach neither the collected tests nor the scores, but what the tests include. -/
example (tables : List ParquetTable) : affectedStages [.newRaw tables] =
    Stage.all.filter fun s => s ∉ [.collectGeneratedTests, .ttcScore] := by
  change affectedStages [.newRaw []] = _
  decide

/-! ## What earlier runs leave -/

section

variable {T : Tools} {raw : List ParquetTable} {gt : SourceTable annotationSources} {dir : TestDir}
  {w w' : Workspace}

end

end TTCEvaluation.Pipeline
