import TTCEvaluation.Extraction.Numbering
import Mathlib.Data.List.Sort

/-!
# Selecting the final dataset

Stage 02 scores the metadata rows, keeps the good ones and sorts them; stage 03
takes the first sixty and copies their files.  The copies never write into the
folders they read from, and the target of a copy determines its source.
-/

namespace TTCEvaluation

def scoreFunction (row : MetadataRow) : ℕ :=
  (if row.hasIf then 3 else 0) + (if row.hasSwitch then 3 else 0) + (if row.hasLoop then 2 else 0) +
    (if row.hasComparison then 3 else 0) + (if row.humanTestAvailable then 2 else 0) +
    if 100 ≤ row.codeLength ∧ row.codeLength ≤ 3000 then 2 else 0

/-- A metadata row with its `selection_score`. -/
structure Candidate where
  row : MetadataRow
  selectionScore : ℕ
deriving DecidableEq

/-- By descending score, then by ascending length. -/
def Candidate.Before (a b : Candidate) : Prop :=
  b.selectionScore < a.selectionScore ∨
    (b.selectionScore = a.selectionScore ∧ a.row.codeLength ≤ b.row.codeLength)

instance (a b : Candidate) : Decidable (a.Before b) := inferInstanceAs (Decidable (_ ∨ _ ∧ _))

instance : Std.Total Candidate.Before where
  total a b := by
    unfold Candidate.Before
    omega

instance : IsTrans Candidate Candidate.Before where
  trans a b c := by
    unfold Candidate.Before
    omega

/-- A way to sort by the two keys; ties are in any order. -/
structure SortValues where
  sort : List Candidate → List Candidate
  perm : ∀ l, (sort l).Perm l
  sorted : ∀ l, (sort l).Pairwise Candidate.Before

/-- Sorting by several keys keeps the order of ties. -/
def SortValues.stable : SortValues where
  sort := List.insertionSort Candidate.Before
  perm := List.perm_insertionSort _
  sorted := List.pairwise_insertionSort _

/-- Stage 02. -/
def selectCandidates (order : SortValues) (metadata : List MetadataRow) : List Candidate :=
  order.sort ((metadata.map fun row => ⟨row, scoreFunction row⟩).filter (7 ≤ ·.selectionScore))

def finalDir : Text := "datasets/final/".toList

def finalFunctionsDir : Text := finalDir ++ "functions/".toList

def finalTestsDir : Text := finalDir ++ "human_tests/".toList

/-- `path.name`. -/
def baseName (path : Text) : Text := path.rtakeWhile (· ≠ '/')

/-- The copies made for one row: the function file and, if there is one, the human test. -/
def finalCopies (row : MetadataRow) : List (Text × Text) :=
  (row.functionFile, finalFunctionsDir ++ baseName row.functionFile) ::
    if row.humanTestFile = [] then []
    else [(row.humanTestFile, finalTestsDir ++ baseName row.humanTestFile)]

/-- Stage 03: the final table and the files after copying. -/
def createFinalDataset (selected : List Candidate) (files : Text → Option Text) :
    List Candidate × (Text → Option Text) :=
  let final := selected.take 60
  (final, Store.copyAll files (final.flatMap fun c => finalCopies c.row))

structure Dataset where
  metadata : List MetadataRow
  selected : List Candidate
  finalSelected : List Candidate
  files : Text → Option Text

section

variable (U : UnicodeData) (order : SortValues)

def selectDataset (st : Extraction) : Dataset :=
  let selected := selectCandidates order st.allRows
  let final := createFinalDataset selected st.files
  { metadata := st.allRows
    selected := selected
    finalSelected := final.1
    files := final.2 }

def buildDataset (tables : List ParquetTable) (files : Text → Option Text) :
    Except PyError Dataset := do
  let st ← buildMetadata U tables files
  .ok (selectDataset order st)

end

variable {U : UnicodeData} {order : SortValues}

theorem selectionScore_of_mem_selectCandidates {metadata : List MetadataRow} {c : Candidate}
    (h : c ∈ selectCandidates order metadata) :
    c.row ∈ metadata ∧ c.selectionScore = scoreFunction c.row ∧ 7 ≤ c.selectionScore := by
  rw [selectCandidates, (order.perm _).mem_iff, List.mem_filter, List.mem_map] at h
  obtain ⟨⟨row, hrow, rfl⟩, hscore⟩ := h
  exact ⟨hrow, rfl, by simpa using hscore⟩

/-! ## Paths -/

theorem baseName_append {dir name : Text} (hdir : dir.getLast? = some '/') (hname : '/' ∉ name) :
    baseName (dir ++ name) = name := by
  obtain ⟨dir, rfl⟩ := List.getLast?_eq_some_iff.mp hdir
  have hplain : ∀ c ∈ name.reverse, decide (c ≠ '/') = true := by
    intro c hc
    rw [List.mem_reverse] at hc
    simpa using ne_of_mem_of_not_mem hc hname
  rw [baseName, List.rtakeWhile, List.reverse_append, List.takeWhile_append_of_pos hplain]
  simp

theorem baseName_functionFile (cell : CodeCell) (n : ℕ) :
    baseName (cell.functionFile n) = functionFileName n cell.functionName :=
  baseName_append rfl (slash_notMem_functionFileName n _)

theorem extractedDir_append_ne (a b : Text) : extractedDir ++ a ≠ finalDir ++ b := by
  unfold extractedDir finalDir
  simp

theorem finalFunctionsDir_append_ne (a b : Text) : finalFunctionsDir ++ a ≠ finalTestsDir ++ b := by
  unfold finalFunctionsDir finalTestsDir
  simp

/-! ## Copying the selected functions -/

theorem mem_finalCopies {row : MetadataRow} {c : Text × Text} :
    c ∈ finalCopies row ↔
      c = (row.functionFile, finalFunctionsDir ++ baseName row.functionFile) ∨
        row.humanTestFile ≠ [] ∧
          c = (row.humanTestFile, finalTestsDir ++ baseName row.humanTestFile) := by
  rw [finalCopies, List.mem_cons]
  split_ifs with h <;> simp [h]

theorem exists_target_of_mem_finalCopies {row : MetadataRow} {c : Text × Text}
    (hc : c ∈ finalCopies row) : ∃ b, c.2 = finalDir ++ b := by
  rcases mem_finalCopies.mp hc with rfl | ⟨-, rfl⟩
  · exact ⟨_, List.append_assoc _ _ _⟩
  · exact ⟨_, List.append_assoc _ _ _⟩

theorem exists_source_of_mem_finalCopies {cells : List (CodeCell × ℕ)} {row : MetadataRow}
    (hrow : row ∈ cellRows U cells) {c : Text × Text} (hc : c ∈ finalCopies row) :
    ∃ a, c.1 = extractedDir ++ a := by
  obtain ⟨p, -, rfl⟩ := List.mem_map.mp hrow
  rcases mem_finalCopies.mp hc with rfl | ⟨hne, rfl⟩
  · exact ⟨_, List.append_assoc _ _ _⟩
  · have htest : (p.1.metadataRow U p.2).humanTestFile = p.1.testFile p.2 := by
      by_contra h
      refine hne (if_neg fun hlooks => h ?_)
      exact if_pos hlooks
    exact ⟨_, htest.trans (List.append_assoc _ _ _)⟩

section

variable {tables : List ParquetTable} {files : Text → Option Text}

def datasetCopies (U : UnicodeData) (order : SortValues) (tables : List ParquetTable) :
    List (Text × Text) :=
  ((selectCandidates order (cellRows U (numberedCells U tables))).take 60).flatMap fun c =>
    finalCopies c.row

theorem exists_row_of_mem_datasetCopies {c : Text × Text} (hc : c ∈ datasetCopies U order tables) :
    ∃ row ∈ cellRows U (numberedCells U tables), c ∈ finalCopies row := by
  obtain ⟨candidate, hcandidate, hc⟩ := List.mem_flatMap.mp hc
  exact ⟨candidate.row,
    (selectionScore_of_mem_selectCandidates (List.mem_of_mem_take hcandidate)).1, hc⟩

theorem datasetCopies_source_ne_target {c d : Text × Text} (hc : c ∈ datasetCopies U order tables)
    (hd : d ∈ datasetCopies U order tables) : c.1 ≠ d.2 := by
  obtain ⟨row, hrow, hc⟩ := exists_row_of_mem_datasetCopies hc
  obtain ⟨row', -, hd⟩ := exists_row_of_mem_datasetCopies hd
  obtain ⟨a, ha⟩ := exists_source_of_mem_finalCopies hrow hc
  obtain ⟨b, hb⟩ := exists_target_of_mem_finalCopies hd
  rw [ha, hb]
  exact extractedDir_append_ne a b

theorem source_eq_of_target_eq {c : Text × Text} (hc : c ∈ datasetCopies U order tables)
    {p : CodeCell × ℕ} (hp : p ∈ numberedCells U tables)
    (h : c.2 = finalFunctionsDir ++ baseName (p.1.functionFile p.2)) :
    c.1 = p.1.functionFile p.2 := by
  obtain ⟨row, hrow, hc⟩ := exists_row_of_mem_datasetCopies hc
  obtain ⟨q, hq, rfl⟩ := List.mem_map.mp hrow
  rcases mem_finalCopies.mp hc with rfl | ⟨-, rfl⟩
  · have hname : baseName (q.1.functionFile q.2) = baseName (p.1.functionFile p.2) :=
      List.append_cancel_left h
    rw [baseName_functionFile, baseName_functionFile] at hname
    have hpq : q = p := eq_of_number_eq hq hp (eq_of_itemId_append_eq hname)
    rw [hpq]
    rfl
  · exact (finalFunctionsDir_append_ne _ _ h.symm).elim

end

/-! ## The code survives -/

/-- The row describes the cell, and its function file, directly in the folder of the functions,
holds the code of the cell. -/
structure HoldsCode (U : UnicodeData) (files : Text → Option Text) (row : MetadataRow)
    (cell : CodeCell) : Prop where
  describes : ∃ n, row = cell.metadataRow U n
  direct : ∃ name, '/' ∉ name ∧ row.functionFile = functionsDir ++ name
  content : files row.functionFile = some cell.code

section

variable {tables : List ParquetTable} {files : Text → Option Text} {p : CodeCell × ℕ}
  (hp : p ∈ numberedCells U tables)

include hp

theorem dataset_functionFile :
    (selectDataset order (extraction U tables files)).files (p.1.functionFile p.2) =
      some p.1.code := by
  calc
    _ = (extraction U tables files).files (p.1.functionFile p.2) := by
      refine Store.copyAll_of_notMem (l := datasetCopies U order tables)
        (fun c hc d hd => datasetCopies_source_ne_target hc hd) fun hmem => ?_
      obtain ⟨c, hc, htarget⟩ := List.mem_map.mp hmem
      obtain ⟨row, -, hcopy⟩ := exists_row_of_mem_datasetCopies hc
      obtain ⟨b, hb⟩ := exists_target_of_mem_finalCopies hcopy
      rw [hb, CodeCell.functionFile, functionsDir, List.append_assoc] at htarget
      exact extractedDir_append_ne _ _ htarget.symm
    _ = some p.1.code := files_functionFile hp

theorem holdsCode_dataset :
    HoldsCode U (selectDataset order (extraction U tables files)).files (p.1.metadataRow U p.2)
      p.1 where
  describes := ⟨p.2, rfl⟩
  direct := ⟨_, slash_notMem_functionFileName p.2 _, rfl⟩
  content := dataset_functionFile hp

theorem dataset_finalFile {c : Candidate}
    (hc : c ∈ (selectDataset order (extraction U tables files)).finalSelected)
    (hrow : c.row = p.1.metadataRow U p.2) :
    (selectDataset order (extraction U tables files)).files
      (finalFunctionsDir ++ baseName c.row.functionFile) = some p.1.code := by
  rw [hrow]
  refine Store.copyAll_of_agree (l := datasetCopies U order tables)
    (fun c hc d hd => datasetCopies_source_ne_target hc hd) ?_
    (files_functionFile hp) fun d hd htarget => source_eq_of_target_eq hd hp htarget
  refine List.mem_flatMap.mpr ⟨c, hc, mem_finalCopies.mpr (Or.inl ?_)⟩
  rw [hrow]
  rfl

end

/-- Stages 01 to 03 stop for want of a code column or of code, or they give every non-blank code
cell, in reading order, a row of its own whose file keeps exactly its code, also under the final
selection. -/
theorem dataset_keeps_code (U : UnicodeData) (order : SortValues) (tables : List ParquetTable)
    (files : Text → Option Text) :
    match buildDataset U order tables files with
    | .error _ =>
        tables.flatMap (codeCells U) = [] ∨
          ∃ table ∈ tables, detectCodeColumn U table.columns = none
    | .ok dataset =>
        List.Forall₂ (HoldsCode U dataset.files) dataset.metadata
          (tables.flatMap (codeCells U)) ∧
        (dataset.metadata.map (·.id)).Nodup ∧
        (dataset.metadata.map (·.functionFile)).Nodup ∧
        ∀ c ∈ dataset.finalSelected, ∃ cell,
          (c.row, cell) ∈ dataset.metadata.zip (tables.flatMap (codeCells U)) ∧
          dataset.files (finalFunctionsDir ++ baseName c.row.functionFile) = some cell.code := by
  cases hrun : buildMetadata U tables files with
  | error e =>
      simp only [buildDataset, hrun, bind, Except.bind]
      exact cells_of_buildMetadata_eq_error hrun
  | ok st =>
      obtain ⟨-, -, rfl⟩ := buildMetadata_eq_ok_iff.mp hrun
      simp only [buildDataset, hrun, bind, Except.bind]
      have hmetadata : (selectDataset order (extraction U tables files)).metadata =
          cellRows U (numberedCells U tables) := rfl
      rw [hmetadata]
      refine ⟨forall₂_cellRows.mpr fun p hp => holdsCode_dataset hp, nodup_itemIds tables,
        nodup_functionFiles tables, fun c hc => ?_⟩
      obtain ⟨hrow, -⟩ := selectionScore_of_mem_selectCandidates (List.mem_of_mem_take hc)
      obtain ⟨p, hp, hrow⟩ := List.mem_map.mp hrow
      refine ⟨p.1, ?_, dataset_finalFile hp hc hrow.symm⟩
      rw [← map_fst_numberedCells, cellRows, List.zip_map', List.mem_map]
      exact ⟨p, hp, by rw [hrow]⟩

end TTCEvaluation
