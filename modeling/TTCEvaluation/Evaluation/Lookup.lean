import TTCEvaluation.Extraction.Metadata
import TTCEvaluation.Scoring.Rows

/-!
# Looking up generated tests

Stages 08, 09 and 10 walk over the ground truth and take, for each function,
the first file that the test directory lists under the function's identifier.
Each of them writes a table with one row for each function.
-/

namespace TTCEvaluation

/-- Wildcard matching: `*` stands for any text and `?` for any character. -/
def globMatch : Text → Text → Bool
  | [], name => name.isEmpty
  | '*' :: pattern, name => name.tails.any fun rest => globMatch pattern rest
  | _ :: _, [] => false
  | c :: pattern, d :: name => (c = '?' || c = d) && globMatch pattern name

/-- The directory of generated tests, through `list(GENERATED_DIR.glob(pattern))`. -/
structure TestDir where
  glob : Text → List TestFile

/-- A directory that lists its files in the given order. -/
def TestDir.ofListing (files : List TestFile) : TestDir where
  glob pattern := files.filter (globMatch pattern ·.name)

/-- The first of the files named `function_id*`. -/
def findGeneratedTest (dir : TestDir) (functionId : Text) : Option TestFile :=
  (dir.glob (functionId ++ ['*'])).head?

/-! ## Stage 08 -/

structure CollectedRow where
  functionId : Text
  functionName : Cell
  testFile : Text
  generatedTestCode : Text
  testAvailable : Bool
deriving DecidableEq

def collectRow (row : GroundTruthRow) : Option TestFile → CollectedRow
  | none =>
    { functionId := row.id
      functionName := row.functionName
      testFile := []
      generatedTestCode := []
      testAvailable := false }
  | some file =>
    { functionId := row.id
      functionName := row.functionName
      testFile := file.path
      generatedTestCode := file.readText
      testAvailable := true }

def collectTests (dir : TestDir) (gt : List GroundTruthRow) : List CollectedRow :=
  gt.map fun row => collectRow row (findGeneratedTest dir row.id)

/-! ## Stage 09 -/

section

variable (A : Arithmetic) (U : UnicodeData)

def ttcRows (dir : TestDir) (gt : List GroundTruthRow) : List TtcRow :=
  gt.map fun row => scoreRow A U row (findGeneratedTest dir row.id)

/-- `main` of stage 09; the printed averages read columns that an empty table does not have. -/
def scoreTests (dir : TestDir) (gt : List GroundTruthRow) : Except PyError (List TtcRow) :=
  if gt = [] then .error (.keyError "ttc_score".toList) else .ok (ttcRows A U dir gt)

end

/-! ## Stage 10 -/

/-- With `text=True` the message is decoded; one that is not UTF-8 cannot be. -/
structure CompilerRun where
  returncode : ℤ
  stderr : Option Text
deriving DecidableEq

/-- The compiler in the project folder as it stands, called on a function's identifier, which names
the object file, and its test. -/
abbrev Compiler := Text → TestFile → CompilerRun

/-- A compiler that accepts every test without a word. -/
def quietCompiler : Compiler := fun _ _ => ⟨0, some []⟩

structure CompileRow where
  functionId : Text
  functionName : Cell
  testFile : Text
  compileSuccess : Bool
  error : Text
deriving DecidableEq

section

variable (gpp : Compiler)

def compileRow (row : GroundTruthRow) : Option TestFile → CompileRow
  | none =>
    { functionId := row.id
      functionName := row.functionName
      testFile := []
      compileSuccess := false
      error := "Generated test file missing".toList }
  | some file =>
    let result := gpp row.id file
    { functionId := row.id
      functionName := row.functionName
      testFile := file.path
      compileSuccess := result.returncode = 0
      error := (result.stderr.getD []).take 3000 }

def compileRows (dir : TestDir) (gt : List GroundTruthRow) : List CompileRow :=
  gt.map fun row => compileRow gpp row (findGeneratedTest dir row.id)

/-- The compiler's message on the test of the function cannot be decoded. -/
def undecodable (dir : TestDir) (row : GroundTruthRow) : Bool :=
  (findGeneratedTest dir row.id).any fun file => (gpp row.id file).stderr.isNone

/-- Stage 10; a message that cannot be decoded stops its loop, and like stage 09 it reads a column
that an empty table does not have. -/
def compileTests (dir : TestDir) (gt : List GroundTruthRow) : Except PyError (List CompileRow) :=
  if gt.any (undecodable gpp dir) then .error .unicodeDecodeError
  else if gt = [] then .error (.keyError "compile_success".toList)
  else .ok (compileRows gpp dir gt)

end

variable {A : Arithmetic} {U : UnicodeData} {gpp : Compiler}

@[simp] theorem collectRow_functionId (row : GroundTruthRow) (found : Option TestFile) :
    (collectRow row found).functionId = row.id := by
  cases found <;> rfl

@[simp] theorem collectRow_functionName (row : GroundTruthRow) (found : Option TestFile) :
    (collectRow row found).functionName = row.functionName := by
  cases found <;> rfl

@[simp] theorem compileRow_functionId (row : GroundTruthRow) (found : Option TestFile) :
    (compileRow gpp row found).functionId = row.id := by
  cases found <;> rfl

@[simp] theorem compileRow_functionName (row : GroundTruthRow) (found : Option TestFile) :
    (compileRow gpp row found).functionName = row.functionName := by
  cases found <;> rfl

theorem undecodable_quietCompiler (dir : TestDir) (row : GroundTruthRow) :
    undecodable quietCompiler dir row = false := by
  rw [undecodable]
  cases findGeneratedTest dir row.id <;> rfl

/-- Stage 10 ends with its table, or with one of its two errors. -/
theorem compileTests_cases (gpp : Compiler) (dir : TestDir) {gt : List GroundTruthRow}
    (hgt : gt ≠ []) :
    compileTests gpp dir gt = .ok (compileRows gpp dir gt) ∨
      compileTests gpp dir gt = .error .unicodeDecodeError ∧
        ∃ row ∈ gt, undecodable gpp dir row = true := by
  unfold compileTests
  split_ifs with hany
  · exact Or.inr ⟨rfl, List.any_eq_true.mp hany⟩
  · exact Or.inl rfl

/-! ## Globbing for a literal beginning -/

end TTCEvaluation
