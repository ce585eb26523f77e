import TTCEvaluation.Annotation.Preannotation
import TTCEvaluation.Scoring.Rows
import TTCEvaluation.Tables.Csv

/-!
# The prompts

Stage 06 writes a prompt for each function of the ground truth whose source is
there, and stage 07 puts every prompt into a file named by the identifier and
the name of its function.  A `/` in that name asks for a folder that is not
there, and ends the stage.
-/

namespace TTCEvaluation

structure PromptRow where
  functionId : Text
  functionName : Cell
  functionFile : Text
  prompt : Text
deriving DecidableEq

def promptHead : Text :=
  ("\nYou are a software testing expert.\n\n" ++
    "Generate Google Test unit tests for the following C++ function.\n\n" ++
    "Focus on:\n- Boundary Value Analysis (BVA)\n- Equivalence Class Partitioning (ECP)\n" ++
    "- valid inputs\n- invalid inputs\n- edge cases\n\nC++ Function:\n\n").toList

def promptEnd : Text := "\n\nReturn only Google Test code.\n".toList

def promptText (functionCode : Text) : Text := promptHead ++ functionCode ++ promptEnd

/-- Stage 06: functions without a source file are passed over. -/
def createPrompts (files : Text → Option Text) (gt : List AnnotationRow) : List PromptRow :=
  gt.filterMap fun row =>
    (files row.functionFile).map fun content =>
      { functionId := row.id
        functionName := row.functionName
        functionFile := row.functionFile
        prompt := promptText (universalNewlines content) }

def promptsDir : Text := "generated_tests/manual_prompts/".toList

/-- `f"{function_id}_{function_name}_prompt.txt"`. -/
def promptFileName (functionId : Text) (functionName : Cell) : Text :=
  functionId ++ '_' :: (cellStr functionName ++ "_prompt.txt".toList)

def PromptRow.path (row : PromptRow) : Text :=
  promptsDir ++ promptFileName row.functionId row.functionName

/-- `open(prompt_file, "w")` succeeds: the file name asks for no further folder, which is not there.
Identifiers are not paths themselves. -/
def opensPrompt (functionId : Text) (functionName : Cell) : Bool :=
  '/' ∉ promptFileName functionId functionName

def PromptRow.opens (row : PromptRow) : Bool := opensPrompt row.functionId row.functionName

/-- Stage 07: the files that are written, and the path that cannot be opened, if there is one. -/
def exportPrompts (prompts : List PromptRow) : List (Text × Text) × Option Text :=
  ((prompts.takeWhile PromptRow.opens).map fun row => (row.path, row.prompt),
    (prompts.find? fun row => !row.opens).map PromptRow.path)

theorem exists_prompt_of_mem_exportPrompts {prompts : List PromptRow} {p : Text × Text}
    (h : p ∈ (exportPrompts prompts).1) : ∃ row ∈ prompts, (row.path, row.prompt) = p := by
  obtain ⟨row, hrow, heq⟩ := List.mem_map.mp h
  exact ⟨row, (List.takeWhile_prefix _).subset hrow, heq⟩

/-- A stage 07 that does not stop writes all prompts. -/
theorem exportPrompts_of_opens {prompts : List PromptRow} (h : ∀ row ∈ prompts, row.opens = true) :
    exportPrompts prompts = (prompts.map fun row => (row.path, row.prompt), none) := by
  have hnone : (prompts.find? fun row => !row.opens) = none := by
    rw [List.find?_eq_none]
    intro row hrow
    rw [h row hrow]
    exact Bool.false_ne_true
  rw [exportPrompts, List.takeWhile_eq_self_iff.mpr h, hnone]
  rfl

theorem exportPrompts_error_eq_none_iff {prompts : List PromptRow} :
    (exportPrompts prompts).2 = none ↔ ∀ row ∈ prompts, row.opens = true := by
  simp [exportPrompts]

theorem opensPrompt_iff {functionId : Text} {functionName : Cell} :
    opensPrompt functionId functionName = true ↔
      '/' ∉ functionId ∧ '/' ∉ cellStr functionName := by
  have hrest : '/' ≠ '_' ∧ '/' ∉ "_prompt.txt".toList := by decide
  rw [opensPrompt, decide_eq_true_iff, promptFileName, List.mem_append, List.mem_cons,
    List.mem_append, not_or, not_or, not_or]
  simp [hrest]

theorem exists_row_of_mem_createPrompts {files : Text → Option Text} {gt : List AnnotationRow}
    {prompt : PromptRow} (h : prompt ∈ createPrompts files gt) :
    ∃ row ∈ gt, prompt.functionId = row.id ∧ prompt.functionName = row.functionName := by
  obtain ⟨row, hrow, hprompt⟩ := List.mem_filterMap.mp h
  obtain ⟨content, -, rfl⟩ := Option.map_eq_some_iff.mp hprompt
  exact ⟨row, hrow, rfl, rfl⟩

end TTCEvaluation
