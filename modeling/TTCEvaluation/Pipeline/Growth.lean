import TTCEvaluation.Extraction.Selection
import TTCEvaluation.Pipeline.Completion

/-!
# More raw tables

When raw tables are added behind the ones that are there, stage 01 issues new
numbers only: rows and files that were made before stay as they are.  Functions
of the new tables can push others out of the final dataset, but the new tables
bring no function into it that was left out before, ties apart.
-/

namespace TTCEvaluation.Pipeline

open Workflow

section

variable {U : UnicodeData}

theorem readableTables_append {tables : List ParquetTable} (more : List ParquetTable)
    (h : ∀ table ∈ tables, (detectCodeColumn U table.columns).isSome) :
    readableTables U (tables ++ more) = tables ++ readableTables U more :=
  List.takeWhile_append_of_pos h

/-- The sources of the row of a cell hold what the cell and its test hold. -/
theorem files_rowSources {tables : List ParquetTable} {files files' : Text → Option Text}
    {p : CodeCell × ℕ} (hp : p ∈ numberedCells U tables) {tables' : List ParquetTable}
    (hp' : p ∈ numberedCells U tables') {path : Text}
    (hpath : path ∈ rowSources (p.1.metadataRow U p.2)) :
    (extraction U tables files).files path = (extraction U tables' files').files path := by
  obtain ⟨c, hc, rfl⟩ := List.mem_map.mp hpath
  rcases mem_finalCopies.mp hc with rfl | ⟨hne, rfl⟩
  · exact (files_functionFile hp).trans (files_functionFile hp').symm
  · obtain ⟨test, htest, hfile⟩ := (humanTestFile_metadataRow p.1 p.2).resolve_left hne
    change (extraction U tables files).files (p.1.metadataRow U p.2).humanTestFile =
      (extraction U tables' files').files (p.1.metadataRow U p.2).humanTestFile
    rw [hfile, files_testFile hp htest, files_testFile hp' htest]

end

/-- If stage 01 is up to date and runs again with more raw tables behind the ones it read, the rows
that it wrote stay the first rows of its table, and their files stay as they are, even if it stops at
one of the new tables. -/
theorem growth_keeps_dataset (T : Tools) (events : List Event) (w : Workspace)
    (h : Ran T .buildMetadata events w) (more : List ParquetTable) :
    ∃ old new : SourceTable rowSources,
      (after events w).tables .metadata = some old ∧
      (after (events ++ [.newRaw ((after events w).raw ++ more), .run T .buildMetadata])
        w).tables .metadata = some new ∧
      old.rows <+: new.rows ∧
      ∀ row ∈ old.rows, ∀ path ∈ rowSources row,
        (after (events ++ [.newRaw ((after events w).raw ++ more), .run T .buildMetadata])
          w).files path = (after events w).files path := by
  have hupToDate := h.upToDate
  rw [after_append]
  generalize after events w = v at hupToDate ⊢
  obtain ⟨hmetadata, hfiles⟩ := hupToDate.metadata
  obtain ⟨hdetected, -⟩ := buildMetadata_failure_iff.mp hupToDate.1
  have hrun : after [.newRaw (v.raw ++ more), .run T .buildMetadata] v =
      ((({ v with raw := v.raw ++ more } : Workspace).withFiles
        (runBuildMetadata T.unicode (v.raw ++ more) v.files).files).record .metadata
          (metadataTable T (v.raw ++ more) v.files)) := rfl
  rw [hrun, Workspace.tables_record, Workspace.files_record]
  have hearlier : cellRows T.unicode (numberedCells T.unicode v.raw) <+:
      cellRows T.unicode (numberedCells T.unicode (v.raw ++ more)) :=
    (numberedCells_prefix_append v.raw more).map _
  have hkept : ∀ row ∈ (cellTable T.unicode v.raw).rows, ∀ path ∈ rowSources row,
      (runBuildMetadata T.unicode (v.raw ++ more) v.files).files path = v.files path := by
    refine List.forall_mem_map.mpr fun p hp path hpath => ?_
    have hp' : p ∈ numberedCells T.unicode (readableTables T.unicode (v.raw ++ more)) := by
      rw [readableTables_append more hdetected]
      exact (numberedCells_prefix_append v.raw _).subset hp
    calc
      _ = (extraction T.unicode (readableTables T.unicode (v.raw ++ more)) v.files).files path := by
        rw [runBuildMetadata_files]
        rfl
      _ = (extraction T.unicode v.raw v.files).files path := files_rowSources hp' hp hpath
      _ = v.files path := by rw [hfiles]
  cases htable : metadataTable T (v.raw ++ more) v.files with
  | none =>
      exact ⟨cellTable T.unicode v.raw, cellTable T.unicode v.raw, hmetadata, hmetadata,
        List.prefix_refl _, hkept⟩
  | some table =>
      refine ⟨cellTable T.unicode v.raw, table, hmetadata, rfl, ?_, hkept⟩
      obtain ⟨rows, hrows, hcells, rfl⟩ := Option.pmap_eq_some_iff.mp htable
      change (cellTable T.unicode v.raw).rows <+: rows
      rw [(runBuildMetadata_metadata hcells).1]
      exact hearlier

def halfCode : Text := "int half(int x) { return x / 2; }".toList

theorem growth_keeps_dataset_sample :
    ∃ old new : SourceTable rowSources,
      (after sampleHistory (.initial [])).tables .metadata = some old ∧
      (after (sampleHistory ++ [.newRaw ((after sampleHistory (.initial [])).raw ++
          [singleTable halfCode]),
        .run plainTools .buildMetadata]) (.initial [])).tables .metadata = some new ∧
      old.rows <+: new.rows ∧
      ∀ row ∈ old.rows, ∀ path ∈ rowSources row,
        (after (sampleHistory ++ [.newRaw ((after sampleHistory (.initial [])).raw ++
            [singleTable halfCode]),
          .run plainTools .buildMetadata]) (.initial [])).files path =
          (after sampleHistory (.initial [])).files path :=
  growth_keeps_dataset plainTools sampleHistory (.initial []) (ran_sampleHistory .buildMetadata)
    [singleTable halfCode]

/-! ## The selection -/

theorem nodup_rewrite (U : UnicodeData) (tables : List ParquetTable) :
    ((cellTable U tables).rows.map MetadataRow.rewrite).Nodup := by
  apply List.Nodup.of_map MetadataRow.id
  rw [List.map_map]
  exact nodup_itemIds tables

/-- The final dataset of an up-to-date folder. -/
theorem final_of_ran {T : Tools} {events : List Event} {w : Workspace}
    (h : ∀ s ∈ [Stage.buildMetadata, .selectCandidateFunctions, .createFinalDataset],
      Ran T s events w) :
    ∃ final, (after events w).tables .finalSelected = some final ∧
      final.rows = (selectCandidates T.sortValues
        ((cellTable T.unicode (after events w).raw).rows.map MetadataRow.rewrite)).take 60 := by
  obtain ⟨hmetadata, -⟩ := (h .buildMetadata (by simp)).upToDate.metadata
  have hselected := (h .selectCandidateFunctions (by simp)).upToDate.selected hmetadata
  have hfinal := ((h .createFinalDataset (by simp)).upToDate.final hselected).1
  exact ⟨_, hfinal, rows_finalTable T _ _⟩

/-- If the raw tables of one folder are those of another one and more behind them, a function of the
first that its final dataset leaves out is in the dataset of the second only if it ties with one that
is displaced there.  The two may sort ties differently. -/
theorem growth_promotes_none (T T' : Tools) (hunicode : T'.unicode = T.unicode)
    (events events' : List Event) (w w' : Workspace)
    (h : ∀ s ∈ [Stage.buildMetadata, .selectCandidateFunctions, .createFinalDataset],
      Ran T s events w)
    (h' : ∀ s ∈ [Stage.buildMetadata, .selectCandidateFunctions, .createFinalDataset],
      Ran T' s events' w')
    (hraw : (after events w).raw <+: (after events' w').raw) :
    ∃ metadata old new,
      (after events w).tables .metadata = some metadata ∧
      (after events w).tables .finalSelected = some old ∧
      (after events' w').tables .finalSelected = some new ∧
      ∀ c ∈ new.rows, c.row.id ∈ metadata.rows.map MetadataRow.id →
        c ∈ old.rows ∨ ∃ d ∈ old.rows, d ∉ new.rows ∧ d.sortKey = c.sortKey := by
  obtain ⟨hmetadata, -⟩ := (h .buildMetadata (by simp)).upToDate.metadata
  obtain ⟨old, hold, hrows⟩ := final_of_ran h
  obtain ⟨new, hnew, hrows'⟩ := final_of_ran h'
  refine ⟨_, old, new, hmetadata, hold, hnew, fun c hc hid => ?_⟩
  rw [hunicode] at hrows'
  rw [hrows'] at hc
  rw [hrows, hrows']
  obtain ⟨more, hmore⟩ := hraw
  rw [← hmore] at hc ⊢
  generalize (after events w).raw = tables at *
  have hearlier : (cellTable T.unicode tables).rows.map MetadataRow.rewrite <+:
      (cellTable T.unicode (tables ++ more)).rows.map MetadataRow.rewrite :=
    ((numberedCells_prefix_append tables more).map _).map _
  refine mem_or_displaced (nodup_rewrite _ _) (nodup_rewrite _ _) hearlier.subset hc ?_
  -- the row of a number that stage 01 issued before is the row of that number
  obtain ⟨row, hrow, hsame⟩ := List.mem_map.mp hid
  have hold' : row.rewrite ∈ (cellTable T.unicode tables).rows.map MetadataRow.rewrite :=
    List.mem_map_of_mem hrow
  obtain ⟨hcrow, -, -⟩ := selectionScore_of_mem_selectCandidates (List.mem_of_mem_take hc)
  have hids : (((cellTable T.unicode (tables ++ more)).rows.map MetadataRow.rewrite).map
      MetadataRow.id).Nodup := by
    rw [List.map_map]
    exact nodup_itemIds (tables ++ more)
  have heq : row.rewrite = c.row :=
    List.inj_on_of_nodup_map hids (hearlier.subset hold') hcrow hsame
  rwa [heq] at hold'

def lastCode : Text := "int last(int x) { while (x > 9) x -= 1; return x; }".toList

/-- The sample run with further raw tables. -/
def grownHistory (more : List Text) : List Event :=
  fullHistory plainTools (singleTable sampleCode :: more.map singleTable) sampleTruthTable
    (.ofListing [])

theorem ran_grownHistory (more : List Text) (s : Stage) :
    Ran plainTools s (grownHistory more) (.initial []) :=
  settled_of_succeeds (pairwise_fullHistory ..) (succeeds_sampleCode more _ _)
    (List.mem_map_of_mem (run_mem_fullHistory ..))

theorem raw_grownHistory (more : List Text) :
    (after (grownHistory more) (.initial [])).raw =
      singleTable sampleCode :: more.map singleTable := by
  unfold grownHistory
  exact (fullHistory_end plainTools _ _ _ _).1

theorem rows_halfCode :
    (cellTable asciiData [singleTable sampleCode, singleTable halfCode]).rows =
      [(singleCell sampleCode).metadataRow asciiData 1,
        (singleCell halfCode).metadataRow asciiData 2] := by
  have hblank : strip sampleCode ≠ [] := by decide
  have hblank' : strip halfCode ≠ [] := by decide
  have hcells : numberedCells asciiData [singleTable sampleCode, singleTable halfCode] =
      [(singleCell sampleCode, 1), (singleCell halfCode, 2)] := by
    rw [numberedCells, List.flatMap_cons, List.flatMap_singleton, codeCells_singleTable hblank,
      codeCells_singleTable hblank']
    rfl
  change cellRows asciiData (numberedCells asciiData _) = _
  rw [hcells]
  rfl

/-- The second function has too low a score to be selected. -/
theorem halfCode_leftOut {final : SourceTable candidateSources}
    (h : (after (grownHistory [halfCode]) (.initial [])).tables .finalSelected = some final) :
    ∀ c ∈ final.rows, c.row.id ≠ itemId 2 := by
  have hscore : ¬7 ≤ scoreFunction ((singleCell halfCode).metadataRow asciiData 2).rewrite := by
    decide +kernel
  obtain ⟨final', hfinal, hrows⟩ := final_of_ran fun s _ => ran_grownHistory [halfCode] s
  rw [h] at hfinal
  rw [← Option.some.inj hfinal, raw_grownHistory] at hrows
  intro c hc hid
  rw [hrows] at hc
  obtain ⟨hrow, hselection, hgood⟩ := selectionScore_of_mem_selectCandidates (List.mem_of_mem_take hc)
  rw [hselection] at hgood
  change c.row ∈ (cellTable asciiData [singleTable sampleCode, singleTable halfCode]).rows.map _
    at hrow
  rw [rows_halfCode, List.map_cons, List.map_singleton, List.mem_cons, List.mem_singleton] at hrow
  rcases hrow with hrow | hrow
  · rw [hrow] at hid
    exact absurd (itemId_injective hid) (by decide)
  · rw [hrow] at hgood
    exact hscore hgood

/-- The function with number 2 is left out, and stays so when a third raw table arrives. -/
theorem growth_promotes_none_sample :
    ∃ metadata old new,
      (after (grownHistory [halfCode]) (.initial [])).tables .metadata = some metadata ∧
      (after (grownHistory [halfCode]) (.initial [])).tables .finalSelected = some old ∧
      (after (grownHistory [halfCode, lastCode]) (.initial [])).tables .finalSelected = some new ∧
      itemId 2 ∈ metadata.rows.map MetadataRow.id ∧ (∀ c ∈ old.rows, c.row.id ≠ itemId 2) ∧
      ∀ c ∈ new.rows, c.row.id ∈ metadata.rows.map MetadataRow.id →
        c ∈ old.rows ∨ ∃ d ∈ old.rows, d ∉ new.rows ∧ d.sortKey = c.sortKey := by
  have hraw : (after (grownHistory [halfCode]) (.initial [])).raw <+:
      (after (grownHistory [halfCode, lastCode]) (.initial [])).raw := by
    rw [raw_grownHistory, raw_grownHistory]
    exact List.prefix_append [singleTable sampleCode, singleTable halfCode] [singleTable lastCode]
  obtain ⟨metadata, old, new, hmetadata, hold, hnew, hpromoted⟩ :=
    growth_promotes_none plainTools plainTools rfl (grownHistory [halfCode])
      (grownHistory [halfCode, lastCode]) _ _ (fun s _ => ran_grownHistory _ s)
      (fun s _ => ran_grownHistory _ s) hraw
  have hcells := (ran_grownHistory [halfCode] .buildMetadata).upToDate.metadata.1
  rw [hmetadata, raw_grownHistory] at hcells
  have hmember : itemId 2 ∈ metadata.rows.map MetadataRow.id := by
    rw [Option.some.inj hcells]
    change itemId 2 ∈ (cellTable asciiData [singleTable sampleCode, singleTable halfCode]).rows.map _
    rw [rows_halfCode]
    exact List.mem_cons_of_mem _ List.mem_cons_self
  exact ⟨metadata, old, new, hmetadata, hold, hnew, hmember, halfCode_leftOut hold, hpromoted⟩

end TTCEvaluation.Pipeline
