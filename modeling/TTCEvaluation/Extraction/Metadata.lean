import TTCEvaluation.Extraction.Identifiers
import TTCEvaluation.Extraction.Names
import TTCEvaluation.Store.Writes

/-!
# Building the metadata

Stage 01 reads the parquet tables one after the other, chooses the columns of
each table by their names, and gives every non-blank code cell a number, a
metadata row and its files.  The run is a fold over the tables; its result is
the list of numbered code cells, mapped to rows and to writes.
-/

namespace TTCEvaluation

inductive PyError where
  | fileNotFoundError (message : Text)
  | valueError (message : Text)
  | keyError (key : Text)
  | unicodeDecodeError
deriving DecidableEq

/-- A parquet file: its name and stem, the columns, and what `row.get` returns for each row. -/
structure ParquetTable where
  name : Text
  stem : Text
  columns : List Text
  rows : List (Text → RawCell)

structure MetadataRow where
  id : Text
  sourceSplit : Text
  functionName : Text
  repository : RawCell
  originalFileName : RawCell
  functionFile : Text
  humanTestFile : Text
  humanTestAvailable : Bool
  codeLength : ℕ
  hasIf : Bool
  hasSwitch : Bool
  hasLoop : Bool
  hasComparison : Bool
  rawCodeColumn : Text
  rawTestColumn : Text
deriving DecidableEq

/-! Paths are relative to the project root. -/

def rawDir : Text := "datasets/raw".toList

def extractedDir : Text := "datasets/extracted/".toList

def functionsDir : Text := extractedDir ++ "functions/".toList

def humanTestsDir : Text := extractedDir ++ "human_tests/".toList

/-- `f"{item_id}_{function_name}.cpp"`. -/
def functionFileName (n : ℕ) (functionName : Text) : Text :=
  itemId n ++ '_' :: (functionName ++ ".cpp".toList)

/-- `f"{item_id}_{function_name}_test.cpp"`. -/
def testFileName (n : ℕ) (functionName : Text) : Text :=
  itemId n ++ '_' :: (functionName ++ "_test.cpp".toList)

/-- `isinstance(code, str)` with a non-empty `code.strip()`. -/
def nonBlank : RawCell → Option Text
  | .other _ => none
  | .text code => if strip code = [] then none else some code

def testIndicators : List Text :=
  ["TEST(".toList, "TEST_F(".toList, "TEST_P(".toList, "TYPED_TEST(".toList, "EXPECT_".toList,
    "ASSERT_".toList, "#include".toList]

def looksLikeCppTestCode : RawCell → Bool
  | .other _ => false
  | .text text =>
      let stripped := strip text
      if '\n' ∉ stripped ∧ '/' ∈ stripped then false
      else if '\n' ∉ stripped ∧
          ∃ ending ∈ [".cc".toList, ".cpp".toList, ".cxx".toList, ".h".toList, ".hpp".toList],
            ending <:+ stripped then false
      else testIndicators.any (· <:+: stripped)

/-- The text written as a human test, if the cell passes the check. -/
def humanTest (testCode : RawCell) : Option Text :=
  match testCode with
  | .other _ => none
  | .text text => if looksLikeCppTestCode testCode then some text else none

/-- `row.get(col, "") if col else ""`. -/
def getOptional (row : Text → RawCell) : Option Text → RawCell
  | none => .text []
  | some col => row col

def codeNames : List Text := ["code".toList, "function_code".toList, "source_code".toList]

section

variable (U : UnicodeData)

def detectCodeColumn (columns : List Text) : Option Text :=
  columns.find? fun col =>
    let name := U.lower col
    codeNames.any (· = name) ∨ ("code".toList <:+: name ∧ ¬"test".toList <:+: name)

def detectTestColumn (columns : List Text) : Option Text :=
  columns.find? fun col =>
    let name := U.lower col
    "unit test".toList <:+: name ∨ "test".toList <:+: name

def detectRepoColumn (columns : List Text) : Option Text :=
  columns.find? fun col =>
    let name := U.lower col
    "repository".toList <:+: name ∨ "repo".toList <:+: name

def detectFileColumn (columns : List Text) : Option Text :=
  columns.find? fun col =>
    let name := U.lower col
    "file".toList <:+: name ∨ "path".toList <:+: name

end

/-- A non-blank code cell with the row and the table it stands in. -/
structure CodeCell where
  table : ParquetTable
  codeColumn : Text
  row : Text → RawCell
  code : Text

section

variable (U : UnicodeData) (cell : CodeCell) (n : ℕ)

namespace CodeCell

def testCode : RawCell := getOptional cell.row (detectTestColumn U cell.table.columns)

def functionName : Text := extractFunctionName (.text cell.code)

def functionFile : Text := functionsDir ++ functionFileName n cell.functionName

def testFile : Text := humanTestsDir ++ testFileName n cell.functionName

def writes : List (Text × Text) :=
  (cell.functionFile n, cell.code) ::
    match humanTest (cell.testCode U) with
    | none => []
    | some test => [(cell.testFile n, test)]

def metadataRow : MetadataRow where
  id := itemId n
  sourceSplit := cell.table.stem
  functionName := cell.functionName
  repository := getOptional cell.row (detectRepoColumn U cell.table.columns)
  originalFileName := getOptional cell.row (detectFileColumn U cell.table.columns)
  functionFile := cell.functionFile n
  humanTestFile := if looksLikeCppTestCode (cell.testCode U) then cell.testFile n else []
  humanTestAvailable := looksLikeCppTestCode (cell.testCode U)
  codeLength := cell.code.length
  hasIf := "if".toList <:+: cell.code
  hasSwitch := "switch".toList <:+: cell.code
  hasLoop := ["for".toList, "while".toList].any (· <:+: cell.code)
  hasComparison :=
    [">=".toList, "<=".toList, "==".toList, "!=".toList, ">".toList, "<".toList].any
      (· <:+: cell.code)
  rawCodeColumn := cell.codeColumn
  rawTestColumn := (detectTestColumn U cell.table.columns).getD []

end CodeCell

end

/-- `all_rows`, `global_id` and the files of the project. -/
structure Extraction where
  allRows : List MetadataRow
  globalId : ℕ
  files : Text → Option Text

section

variable (U : UnicodeData)

/-- The loop body once the code cell is known not to be blank. -/
def Extraction.record (st : Extraction) (cell : CodeCell) : Extraction where
  allRows := st.allRows ++ [cell.metadataRow U st.globalId]
  globalId := st.globalId + 1
  files := Store.writeAll st.files (cell.writes U st.globalId)

/-- The loop body of stage 01. -/
def extractRow (table : ParquetTable) (codeColumn : Text) (st : Extraction)
    (row : Text → RawCell) : Extraction :=
  match nonBlank (row codeColumn) with
  | none => st
  | some code => st.record U ⟨table, codeColumn, row, code⟩

def extractTable (st : Extraction) (table : ParquetTable) : Except PyError Extraction :=
  match detectCodeColumn U table.columns with
  | none => .error (.valueError ("Could not detect code column in ".toList ++ table.name))
  | some codeColumn => .ok (table.rows.foldl (extractRow U table codeColumn) st)

/-- `main` of stage 01; the tables are sorted by file name.  The final count reads a column that a
table without rows does not have. -/
def buildMetadata (tables : List ParquetTable) (files : Text → Option Text) :
    Except PyError Extraction :=
  if tables = [] then
    .error (.fileNotFoundError ("No parquet files found in: ".toList ++ rawDir))
  else do
    let st ← tables.foldlM (extractTable U) ⟨[], 1, files⟩
    if st.allRows = [] then .error (.keyError "human_test_available".toList) else .ok st

end

end TTCEvaluation
