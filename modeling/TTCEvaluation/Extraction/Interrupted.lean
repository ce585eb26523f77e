import TTCEvaluation.Extraction.Dataset

/-!
# What stage 01 leaves when it stops

Stage 01 writes the source files of a table before it looks at the next table,
and the metadata at the end.  A table without a code column stops it with the
files of the tables before it written; without any code the metadata is
written, but has no columns.
-/

namespace TTCEvaluation

/-- The metadata, if it is written, and the files that a run of stage 01 leaves, and the exception
that ends it, if there is one. -/
structure MetadataRun where
  metadata : Option (List MetadataRow)
  files : Text → Option Text
  error : Option PyError

section

variable (U : UnicodeData)

/-- The loop over the tables, with its state when it is left. -/
def extractTables : List ParquetTable → Extraction → Extraction × Option PyError
  | [], st => (st, none)
  | table :: tables, st =>
      match extractTable U st table with
      | .error e => (st, some e)
      | .ok st => extractTables tables st

/-- `main` of stage 01 with its effects, also if it stops. -/
def runBuildMetadata (tables : List ParquetTable) (files : Text → Option Text) : MetadataRun :=
  if tables = [] then
    { metadata := none
      files := files
      error := some (.fileNotFoundError ("No parquet files found in: ".toList ++ rawDir)) }
  else
    match extractTables U tables ⟨[], 1, files⟩ with
    | (st, some e) => { metadata := none, files := st.files, error := some e }
    | (st, none) =>
      { metadata := some st.allRows
        files := st.files
        error := if st.allRows = [] then some (.keyError "human_test_available".toList) else none }

/-- The tables before the first one without a code column. -/
def readableTables (tables : List ParquetTable) : List ParquetTable :=
  tables.takeWhile fun table => (detectCodeColumn U table.columns).isSome

/-- What stage 01 raises at the first table without a code column. -/
def columnError (tables : List ParquetTable) : Option PyError :=
  (tables.find? fun table => (detectCodeColumn U table.columns).isNone).map fun table =>
    .valueError ("Could not detect code column in ".toList ++ table.name)

end

variable {U : UnicodeData}

theorem readableTables_eq_self_iff {tables : List ParquetTable} :
    readableTables U tables = tables ↔
      ∀ table ∈ tables, (detectCodeColumn U table.columns).isSome :=
  List.takeWhile_eq_self_iff

theorem columnError_eq_none_iff {tables : List ParquetTable} :
    columnError U tables = none ↔ ∀ table ∈ tables, (detectCodeColumn U table.columns).isSome := by
  simp [columnError, Option.isSome_iff_ne_none]

theorem extractTables_eq (tables : List ParquetTable) (st : Extraction) :
    extractTables U tables st =
      (((readableTables U tables).flatMap (codeCells U)).foldl (Extraction.record U) st,
        columnError U tables) := by
  induction tables generalizing st with
  | nil => rfl
  | cons table tables ih =>
      unfold extractTables extractTable readableTables columnError
      rw [List.takeWhile_cons, List.find?_cons]
      cases hcol : detectCodeColumn U table.columns with
      | none => rfl
      | some codeColumn =>
          simp only [Option.isSome_some, if_true, Option.isNone_some]
          rw [List.flatMap_cons, List.foldl_append, ← foldl_extractRow hcol]
          exact ih _

theorem extractTables_start (tables : List ParquetTable) (files : Text → Option Text) :
    extractTables U tables ⟨[], 1, files⟩ =
      (extraction U (readableTables U tables) files, columnError U tables) := by
  rw [extractTables_eq, foldl_record]
  simp [extraction, numberedCells]

theorem allRows_extraction_eq_nil_iff {tables : List ParquetTable} {files : Text → Option Text} :
    (extraction U tables files).allRows = [] ↔ numberedCells U tables = [] :=
  List.map_eq_nil_iff

/-- A run writes the files of the readable tables, and the metadata if all tables are readable. -/
theorem runBuildMetadata_eq {tables : List ParquetTable} (h : tables ≠ [])
    (files : Text → Option Text) :
    runBuildMetadata U tables files =
      match columnError U tables with
      | some e =>
        { metadata := none
          files := (extraction U (readableTables U tables) files).files
          error := some e }
      | none =>
        { metadata := some (cellRows U (numberedCells U tables))
          files := (extraction U tables files).files
          error :=
            if numberedCells U tables = [] then some (.keyError "human_test_available".toList)
            else none } := by
  rw [runBuildMetadata, if_neg h, extractTables_start]
  cases herror : columnError U tables with
  | some e => rfl
  | none =>
      rw [readableTables_eq_self_iff.mpr (columnError_eq_none_iff.mp herror)]
      simp only [allRows_extraction_eq_nil_iff]
      rfl

theorem runBuildMetadata_files (tables : List ParquetTable) (files : Text → Option Text) :
    (runBuildMetadata U tables files).files =
      Store.writeAll files (cellWrites U (numberedCells U (readableTables U tables))) := by
  by_cases htables : tables = []
  · rw [htables]
    rfl
  · rw [runBuildMetadata_eq htables]
    cases herror : columnError U tables with
    | some e => rfl
    | none =>
        rw [readableTables_eq_self_iff.mpr (columnError_eq_none_iff.mp herror)]
        rfl

/-- Neither the metadata nor the exception depends on the files that were there. -/
theorem runBuildMetadata_congr (tables : List ParquetTable) (files files' : Text → Option Text) :
    (runBuildMetadata U tables files).metadata = (runBuildMetadata U tables files').metadata ∧
      (runBuildMetadata U tables files).error = (runBuildMetadata U tables files').error := by
  by_cases htables : tables = []
  · rw [htables]
    exact ⟨rfl, rfl⟩
  · rw [runBuildMetadata_eq htables, runBuildMetadata_eq htables]
    cases columnError U tables <;> exact ⟨rfl, rfl⟩

theorem runBuildMetadata_metadata {tables : List ParquetTable} {files : Text → Option Text}
    {rows : List MetadataRow} (h : (runBuildMetadata U tables files).metadata = some rows) :
    rows = cellRows U (numberedCells U tables) ∧
      (runBuildMetadata U tables files).files = (extraction U tables files).files ∧
      columnError U tables = none := by
  by_cases htables : tables = []
  · rw [htables] at h
    cases h
  · rw [runBuildMetadata_eq htables] at h ⊢
    cases herror : columnError U tables with
    | some e =>
        rw [herror] at h
        cases h
    | none =>
        rw [herror] at h
        exact ⟨(Option.some.inj h).symm, rfl, rfl⟩

theorem foldlM_extractTable_eq (tables : List ParquetTable) (st : Extraction) :
    tables.foldlM (extractTable U) st =
      match extractTables U tables st with
      | (st', none) => .ok st'
      | (_, some e) => .error e := by
  induction tables generalizing st with
  | nil => rfl
  | cons table tables ih =>
      rw [List.foldlM_cons, extractTables]
      cases extractTable U st table with
      | error e => rfl
      | ok st' => exact ih st'

/-- The run with its effects ends as the run that only keeps its result. -/
theorem buildMetadata_eq_run (tables : List ParquetTable) (files : Text → Option Text) :
    buildMetadata U tables files =
      match (runBuildMetadata U tables files).error with
      | some e => .error e
      | none => .ok (extraction U tables files) := by
  by_cases htables : tables = []
  · rw [htables]
    rfl
  · rw [runBuildMetadata_eq htables, buildMetadata, if_neg htables, foldlM_extractTable_eq,
      extractTables_start]
    cases herror : columnError U tables with
    | some e => rfl
    | none =>
        rw [readableTables_eq_self_iff.mpr (columnError_eq_none_iff.mp herror)]
        change (if (extraction U tables files).allRows = [] then _ else _) = _
        simp only [allRows_extraction_eq_nil_iff]
        split_ifs <;> rfl

theorem runBuildMetadata_error_eq_none_iff {tables : List ParquetTable}
    {files : Text → Option Text} :
    (runBuildMetadata U tables files).error = none ↔
      (∀ table ∈ tables, (detectCodeColumn U table.columns).isSome) ∧
        numberedCells U tables ≠ [] := by
  have hrun := buildMetadata_eq_run (U := U) tables files
  constructor
  · intro h
    rw [h] at hrun
    obtain ⟨hdetected, hcells, -⟩ := buildMetadata_eq_ok_iff.mp hrun
    exact ⟨hdetected, hcells⟩
  · rintro ⟨hdetected, hcells⟩
    rw [buildMetadata_eq_ok_iff.mpr ⟨hdetected, hcells, rfl⟩] at hrun
    cases herror : (runBuildMetadata U tables files).error with
    | none => rfl
    | some e =>
        rw [herror] at hrun
        cases hrun

theorem runBuildMetadata_of_success {tables : List ParquetTable} {files : Text → Option Text}
    (h : (runBuildMetadata U tables files).error = none) :
    runBuildMetadata U tables files =
      { metadata := some (cellRows U (numberedCells U tables))
        files := (extraction U tables files).files
        error := none } := by
  obtain ⟨hdetected, hcells⟩ := runBuildMetadata_error_eq_none_iff.mp h
  have htables : tables ≠ [] := by
    rintro rfl
    exact hcells rfl
  rw [runBuildMetadata_eq htables, columnError_eq_none_iff.mpr hdetected]
  simp only [if_neg hcells]

end TTCEvaluation
