import TTCEvaluation.Evaluation.Lookup
import TTCEvaluation.Tables.Join

/-!
# Which test is attributed to a function

The stages look for `function_id*`, without the underscore that ends the
identifier in a file name.  A test is taken for the test of another function
when its number continues the other number, and only then.
-/

namespace TTCEvaluation

open Tables

structure GeneratedTest where
  number : ℕ
  functionName : Text
  content : Text
deriving DecidableEq

namespace GeneratedTest

/-- `f"{function_id}_{function_name}_gpt_test.cpp"`. -/
def fileName (test : GeneratedTest) : Text :=
  itemId test.number ++ '_' :: (test.functionName ++ "_gpt_test.cpp".toList)

def file (test : GeneratedTest) : TestFile := ⟨test.fileName, test.content⟩

end GeneratedTest

section

variable (A : Arithmetic) (U : UnicodeData) (gpp : Compiler) (gt : List GroundTruthRow)

end

variable {A : Arithmetic} {U : UnicodeData} {gpp : Compiler} {gt : List GroundTruthRow}
  {tests tests' : List GeneratedTest}

/-! ## The test of an identifier -/

end TTCEvaluation
