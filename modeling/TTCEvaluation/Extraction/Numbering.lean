import TTCEvaluation.Extraction.Metadata

/-!
# The numbered code cells

A completed run of stage 01 is described by its code cells in reading order,
numbered from one: the metadata has their rows, and the project the files that
their writes leave.  The names of the files contain the number, so no write
replaces another one.
-/

namespace TTCEvaluation

section

variable (U : UnicodeData)

/-- The non-blank cells of the code column of a table. -/
def codeCells (table : ParquetTable) : List CodeCell :=
  match detectCodeColumn U table.columns with
  | none => []
  | some codeColumn =>
      table.rows.filterMap fun row =>
        (nonBlank (row codeColumn)).map fun code => ⟨table, codeColumn, row, code⟩

/-- The code cells of all tables in reading order, with their numbers. -/
def numberedCells (tables : List ParquetTable) : List (CodeCell × ℕ) :=
  (tables.flatMap (codeCells U)).zipIdx 1

def cellRows (cells : List (CodeCell × ℕ)) : List MetadataRow :=
  cells.map fun p => p.1.metadataRow U p.2

def cellWrites (cells : List (CodeCell × ℕ)) : List (Text × Text) :=
  cells.flatMap fun p => p.1.writes U p.2

/-- What a completed run of stage 01 leaves. -/
def extraction (tables : List ParquetTable) (files : Text → Option Text) : Extraction where
  allRows := cellRows U (numberedCells U tables)
  globalId := 1 + (numberedCells U tables).length
  files := Store.writeAll files (cellWrites U (numberedCells U tables))

end

variable {U : UnicodeData}

/-! ## The run -/

theorem foldl_extractRow {table : ParquetTable} {codeColumn : Text}
    (h : detectCodeColumn U table.columns = some codeColumn) (st : Extraction) :
    table.rows.foldl (extractRow U table codeColumn) st =
      (codeCells U table).foldl (Extraction.record U) st := by
  rw [codeCells, h, List.foldl_filterMap]
  congr 1
  funext st row
  rw [extractRow]
  cases nonBlank (row codeColumn) <;> rfl

theorem foldlM_extractTable {tables : List ParquetTable}
    (h : ∀ table ∈ tables, (detectCodeColumn U table.columns).isSome) (st : Extraction) :
    tables.foldlM (extractTable U) st =
      .ok ((tables.flatMap (codeCells U)).foldl (Extraction.record U) st) := by
  induction tables generalizing st with
  | nil => rfl
  | cons table tables ih =>
      rw [List.forall_mem_cons] at h
      obtain ⟨codeColumn, hcol⟩ := Option.isSome_iff_exists.mp h.1
      rw [List.foldlM_cons, extractTable, hcol, List.flatMap_cons, List.foldl_append,
        ← foldl_extractRow hcol]
      exact ih h.2 _

theorem detected_of_foldlM_eq_ok {tables : List ParquetTable} {st st' : Extraction}
    (h : tables.foldlM (extractTable U) st = .ok st') :
    ∀ table ∈ tables, (detectCodeColumn U table.columns).isSome := by
  induction tables generalizing st with
  | nil => simp
  | cons table tables ih =>
      rw [List.foldlM_cons, extractTable] at h
      cases hcol : detectCodeColumn U table.columns with
      | none =>
          rw [hcol] at h
          cases h
      | some codeColumn =>
          rw [hcol] at h
          exact List.forall_mem_cons.mpr ⟨by rw [hcol]; rfl, ih h⟩

/-- Recording cells one by one numbers them from the current number on. -/
theorem foldl_record (cells : List CodeCell) (st : Extraction) :
    cells.foldl (Extraction.record U) st =
      { allRows := st.allRows ++ cellRows U (cells.zipIdx st.globalId)
        globalId := st.globalId + cells.length
        files := Store.writeAll st.files (cellWrites U (cells.zipIdx st.globalId)) } := by
  induction cells generalizing st with
  | nil => simp [cellRows, cellWrites]
  | cons cell cells ih =>
      rw [List.foldl_cons, ih]
      simp only [Extraction.record, List.zipIdx_cons, cellRows, cellWrites, List.map_cons,
        List.flatMap_cons, Store.writeAll_append, List.length_cons, List.append_assoc,
        List.singleton_append, Extraction.mk.injEq, true_and, and_true]
      omega

theorem buildMetadata_eq_ok_iff {tables : List ParquetTable} {files : Text → Option Text}
    {st : Extraction} :
    buildMetadata U tables files = .ok st ↔
      (∀ table ∈ tables, (detectCodeColumn U table.columns).isSome) ∧
        numberedCells U tables ≠ [] ∧ st = extraction U tables files := by
  have hrows : (extraction U tables files).allRows = [] ↔ numberedCells U tables = [] :=
    List.map_eq_nil_iff
  have hfold (hdetected : ∀ table ∈ tables, (detectCodeColumn U table.columns).isSome) :
      tables.foldlM (extractTable U) ⟨[], 1, files⟩ = .ok (extraction U tables files) := by
    rw [foldlM_extractTable hdetected, foldl_record]
    simp [extraction, numberedCells]
  have htables (h : numberedCells U tables ≠ []) : tables ≠ [] := by
    rintro rfl
    exact h rfl
  constructor
  · intro h
    rw [buildMetadata] at h
    split_ifs at h
    cases hrun : tables.foldlM (extractTable U) ⟨[], 1, files⟩ with
    | error e =>
        rw [hrun] at h
        cases h
    | ok st' =>
        have hdetected := detected_of_foldlM_eq_ok hrun
        rw [hfold hdetected] at h
        change (if (extraction U tables files).allRows = [] then _ else _) = _ at h
        split_ifs at h with hempty
        exact ⟨hdetected, fun hnil => hempty (hrows.mpr hnil), (Except.ok.inj h).symm⟩
  · rintro ⟨hdetected, hcells, rfl⟩
    rw [buildMetadata, if_neg (htables hcells), hfold hdetected]
    exact if_neg fun hempty => hcells (hrows.mp hempty)

theorem map_fst_numberedCells (tables : List ParquetTable) :
    (numberedCells U tables).map Prod.fst = tables.flatMap (codeCells U) :=
  List.zipIdx_map_fst 1 _

/-- A relation between rows and code cells is checked on the numbered cells. -/
theorem forall₂_cellRows {R : MetadataRow → CodeCell → Prop} {tables : List ParquetTable} :
    List.Forall₂ R (cellRows U (numberedCells U tables)) (tables.flatMap (codeCells U)) ↔
      ∀ p ∈ numberedCells U tables, R (p.1.metadataRow U p.2) p.1 := by
  rw [← map_fst_numberedCells, cellRows, List.forall₂_map_left_iff, List.forall₂_map_right_iff,
    List.forall₂_same]

/-- Without a code column in every table, or without code, stage 01 stops. -/
theorem cells_of_buildMetadata_eq_error {tables : List ParquetTable} {files : Text → Option Text}
    {e : PyError} (h : buildMetadata U tables files = .error e) :
    tables.flatMap (codeCells U) = [] ∨
      ∃ table ∈ tables, detectCodeColumn U table.columns = none := by
  by_contra hneither
  obtain ⟨hne, hdetected⟩ := not_or.mp hneither
  have hok : buildMetadata U tables files = .ok (extraction U tables files) := by
    apply buildMetadata_eq_ok_iff.mpr
    refine ⟨fun table htable => ?_, fun hnil => hne ?_, rfl⟩
    · exact Option.isSome_iff_ne_none.mpr fun hnone => hdetected ⟨table, htable, hnone⟩
    · rw [← map_fst_numberedCells, hnil, List.map_nil]
  rw [h] at hok
  cases hok

/-- The cells of further tables get further numbers. -/
theorem numberedCells_prefix_append (tables more : List ParquetTable) :
    numberedCells U tables <+: numberedCells U (tables ++ more) := by
  unfold numberedCells
  rw [List.flatMap_append, List.zipIdx_append]
  exact List.prefix_append _ _

/-! ## Distinct numbers, distinct files -/

theorem nodup_numbers (tables : List ParquetTable) :
    ((numberedCells U tables).map Prod.snd).Nodup := by
  rw [numberedCells, List.zipIdx_map_snd]
  exact List.nodup_range'

theorem eq_of_number_eq {tables : List ParquetTable} {p q : CodeCell × ℕ}
    (hp : p ∈ numberedCells U tables) (hq : q ∈ numberedCells U tables) (h : p.2 = q.2) : p = q :=
  List.inj_on_of_nodup_map (nodup_numbers tables) hp hq h

theorem number_eq_of_functionFile_eq {c d : CodeCell} {n m : ℕ}
    (h : c.functionFile n = d.functionFile m) : n = m :=
  eq_of_itemId_append_eq (List.append_cancel_left h)

theorem number_eq_of_testFile_eq {c d : CodeCell} {n m : ℕ} (h : c.testFile n = d.testFile m) :
    n = m :=
  eq_of_itemId_append_eq (List.append_cancel_left h)

theorem functionsDir_append_ne (a b : Text) : functionsDir ++ a ≠ humanTestsDir ++ b := by
  unfold functionsDir humanTestsDir
  simp

theorem nodup_itemIds (tables : List ParquetTable) :
    ((cellRows U (numberedCells U tables)).map (·.id)).Nodup := by
  rw [cellRows, List.map_map]
  apply List.Nodup.map_on _ (List.Nodup.of_map _ (nodup_numbers tables))
  intro p hp q hq h
  exact eq_of_number_eq hp hq (itemId_injective h)

theorem nodup_functionFiles (tables : List ParquetTable) :
    ((cellRows U (numberedCells U tables)).map (·.functionFile)).Nodup := by
  rw [cellRows, List.map_map]
  apply List.Nodup.map_on _ (List.Nodup.of_map _ (nodup_numbers tables))
  intro p hp q hq h
  exact eq_of_number_eq hp hq (number_eq_of_functionFile_eq h)

theorem mem_cellWrites {cells : List (CodeCell × ℕ)} {w : Text × Text} :
    w ∈ cellWrites U cells ↔ ∃ p ∈ cells, w = (p.1.functionFile p.2, p.1.code) ∨
      ∃ test, humanTest (p.1.testCode U) = some test ∧ w = (p.1.testFile p.2, test) := by
  rw [cellWrites, List.mem_flatMap]
  apply exists_congr
  intro p
  apply and_congr_right
  intro _
  rw [CodeCell.writes, List.mem_cons]
  cases humanTest (p.1.testCode U) <;> simp

section

variable {tables : List ParquetTable} {files : Text → Option Text} {p : CodeCell × ℕ}
  (hp : p ∈ numberedCells U tables)

include hp

theorem files_functionFile :
    (extraction U tables files).files (p.1.functionFile p.2) = some p.1.code := by
  refine Store.writeAll_of_agree files (mem_cellWrites.mpr ⟨p, hp, Or.inl rfl⟩) ?_
  intro w hw hkey
  obtain ⟨q, hq, rfl | ⟨test, -, rfl⟩⟩ := mem_cellWrites.mp hw
  · rw [eq_of_number_eq hq hp (number_eq_of_functionFile_eq hkey)]
  · exact (functionsDir_append_ne _ _ hkey.symm).elim

theorem files_testFile {test : Text} (htest : humanTest (p.1.testCode U) = some test) :
    (extraction U tables files).files (p.1.testFile p.2) = some test := by
  refine Store.writeAll_of_agree files (mem_cellWrites.mpr ⟨p, hp, Or.inr ⟨test, htest, rfl⟩⟩) ?_
  intro w hw hkey
  obtain ⟨q, hq, rfl | ⟨test', htest', rfl⟩⟩ := mem_cellWrites.mp hw
  · exact (functionsDir_append_ne _ _ hkey).elim
  · rw [eq_of_number_eq hq hp (number_eq_of_testFile_eq hkey), htest] at htest'
    exact (Option.some.inj htest').symm

end

/-- A row names a human test exactly when one is written. -/
theorem humanTestFile_metadataRow (cell : CodeCell) (n : ℕ) :
    (cell.metadataRow U n).humanTestFile = [] ∨
      ∃ test, humanTest (cell.testCode U) = some test ∧
        (cell.metadataRow U n).humanTestFile = cell.testFile n := by
  by_cases hlooks : looksLikeCppTestCode (cell.testCode U) = true
  · right
    cases hcode : cell.testCode U with
    | other value =>
        rw [hcode] at hlooks
        cases hlooks
    | text test =>
        refine ⟨test, ?_, if_pos hlooks⟩
        rw [hcode] at hlooks
        exact if_pos hlooks
  · exact Or.inl (if_neg hlooks)

theorem slash_notMem_extractFunctionName (code : RawCell) : '/' ∉ extractFunctionName code :=
  fun h => absurd (isWordChar_of_mem_extractFunctionName h) (by decide)

theorem slash_notMem_itemId (n : ℕ) : '/' ∉ itemId n := by
  intro hmem
  rcases List.mem_append.mp hmem with hmem | hmem
  · exact absurd hmem (by decide)
  · exact absurd (isDigit_of_mem_paddedNumber hmem) (by decide)

theorem slash_notMem_fileNames {name : Text} (n : ℕ) (h : '/' ∉ name) :
    '/' ∉ functionFileName n name ∧ '/' ∉ testFileName n name := by
  have hid := slash_notMem_itemId n
  simp [functionFileName, testFileName, hid, h]

theorem slash_notMem_functionFileName (n : ℕ) (code : RawCell) :
    '/' ∉ functionFileName n (extractFunctionName code) :=
  (slash_notMem_fileNames n (slash_notMem_extractFunctionName code)).1

end TTCEvaluation
