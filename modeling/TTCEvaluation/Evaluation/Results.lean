import TTCEvaluation.Evaluation.Lookup
import TTCEvaluation.Tables.Join

/-!
# The final results table

Stage 14 joins the scores of stage 09 with the compiler results of stage 10 by
the identifier.  Both tables have one row for each function of the ground
truth, so with distinct identifiers the join pairs the two rows of a function.
-/

namespace TTCEvaluation

open Tables

/-- A row of the final table; the compiler result is missing where the join finds no partner. -/
structure FinalRow where
  functionId : Text
  functionName : Cell
  bvaScore : ℚ
  ecpScore : ℚ
  ttcScore : ℚ
  compileSuccess : Option Bool
deriving DecidableEq

def finalRow (pair : TtcRow × Option CompileRow) : FinalRow where
  functionId := pair.1.functionId
  functionName := pair.1.functionName
  bvaScore := pair.1.bvaScore
  ecpScore := pair.1.ecpScore
  ttcScore := pair.1.ttcScore
  compileSuccess := pair.2.map CompileRow.compileSuccess

/-- Stage 14. -/
def finalResults (ttc : List TtcRow) (compile : List CompileRow) : List FinalRow :=
  (leftJoin TtcRow.functionId CompileRow.functionId ttc compile).map finalRow

structure Evaluation where
  ttc : List TtcRow
  compile : List CompileRow
  final : List FinalRow

section

variable (A : Arithmetic) (U : UnicodeData) (gpp : Compiler) (dir : TestDir)

def evaluate (gt : List GroundTruthRow) : Except PyError Evaluation := do
  let ttc ← scoreTests A U dir gt
  let compile ← compileTests gpp dir gt
  .ok ⟨ttc, compile, finalResults ttc compile⟩

/-- The final row is made of the rows that stages 09 and 10 wrote for the function from one test
file. -/
structure Combines (e : Evaluation) (row : GroundTruthRow) (final : FinalRow) : Prop where
  function_id : final.functionId = row.id
  function_name : final.functionName = row.functionName
  scored : ∃ t ∈ e.ttc, t = scoreRow A U row (findGeneratedTest dir row.id) ∧
    final.bvaScore = t.bvaScore ∧ final.ecpScore = t.ecpScore ∧ final.ttcScore = t.ttcScore
  compiled : ∃ c ∈ e.compile, c = compileRow gpp row (findGeneratedTest dir row.id) ∧
    final.compileSuccess = some c.compileSuccess
  missing : findGeneratedTest dir row.id = none →
    final.bvaScore = 0 ∧ final.ecpScore = 0 ∧ final.ttcScore = 0 ∧
      final.compileSuccess = some false

end

variable {A : Arithmetic} {U : UnicodeData} {gpp : Compiler} {dir : TestDir}
  {gt : List GroundTruthRow}

theorem evaluate_eq (hgt : gt ≠ [])
    (hcompile : compileTests gpp dir gt = .ok (compileRows gpp dir gt)) :
    evaluate A U gpp dir gt = .ok ⟨ttcRows A U dir gt, compileRows gpp dir gt,
      finalResults (ttcRows A U dir gt) (compileRows gpp dir gt)⟩ := by
  rw [evaluate, scoreTests, hcompile, if_neg hgt]
  rfl

theorem evaluate_error (hgt : gt ≠ []) {e : PyError} (hcompile : compileTests gpp dir gt = .error e) :
    evaluate A U gpp dir gt = .error e := by
  rw [evaluate, scoreTests, hcompile, if_neg hgt]
  rfl

theorem finalResults_eq_map (h : (gt.map (·.id)).Nodup) :
    finalResults (ttcRows A U dir gt) (compileRows gpp dir gt) =
      gt.map fun row => finalRow (scoreRow A U row (findGeneratedTest dir row.id),
        some (compileRow gpp row (findGeneratedTest dir row.id))) := by
  rw [finalResults, ttcRows, compileRows, leftJoin_map_map h, List.map_map]
  · rfl
  · exact fun row => scoreRow_functionId row _
  · exact fun row => compileRow_functionId row _

theorem combines_of_mem {e : Evaluation} {row : GroundTruthRow}
    (hscored : scoreRow A U row (findGeneratedTest dir row.id) ∈ e.ttc)
    (hcompiled : compileRow gpp row (findGeneratedTest dir row.id) ∈ e.compile) :
    Combines A U gpp dir e row (finalRow (scoreRow A U row (findGeneratedTest dir row.id),
      some (compileRow gpp row (findGeneratedTest dir row.id)))) where
  function_id := scoreRow_functionId row _
  function_name := scoreRow_functionName row _
  scored := ⟨_, hscored, rfl, rfl, rfl, rfl⟩
  compiled := ⟨_, hcompiled, rfl, rfl⟩
  missing hnone := by
    rw [hnone]
    exact ⟨rfl, rfl, rfl, rfl⟩

/-- The evaluation stops for want of functions or at a compiler message that cannot be decoded, or its
final table has, in the order of the ground truth, one row for each function, with the scores and the
compiler result of the same test. -/
theorem evaluate_combines (h : (gt.map (·.id)).Nodup) :
    match evaluate A U gpp dir gt with
    | .error error =>
      gt = [] ∧ error = .keyError "ttc_score".toList ∨
        error = .unicodeDecodeError ∧ ∃ row ∈ gt, undecodable gpp dir row = true
    | .ok e => List.Forall₂ (Combines A U gpp dir e) gt e.final := by
  by_cases hgt : gt = []
  · subst hgt
    exact Or.inl ⟨rfl, rfl⟩
  · rcases compileTests_cases gpp dir hgt with hcompile | ⟨hcompile, hmessage⟩
    · rw [evaluate_eq hgt hcompile]
      change List.Forall₂ _ gt (finalResults _ _)
      rw [finalResults_eq_map h, List.forall₂_map_right_iff, List.forall₂_same]
      intro row hrow
      exact combines_of_mem (List.mem_map_of_mem hrow) (List.mem_map_of_mem hrow)
    · rw [evaluate_error hgt hcompile]
      exact Or.inr ⟨rfl, hmessage⟩

def sampleTruth : List GroundTruthRow :=
  [⟨"function_0001".toList, some "add".toList, some "yes".toList, some "7".toList, none, none⟩,
    ⟨"function_0002".toList, some "sub".toList, none, none, some "yes".toList, none⟩]

def sampleDir : TestDir :=
  TestDir.ofListing [⟨"function_0001_add_gpt_test.cpp".toList, "TEST(A, b) { add(7); }".toList⟩]

theorem evaluate_combines_sample :
    ∃ e, evaluate Arithmetic.exact asciiData quietCompiler sampleDir sampleTruth = .ok e ∧
      List.Forall₂ (Combines Arithmetic.exact asciiData quietCompiler sampleDir e)
        sampleTruth e.final := by
  have hne : sampleTruth ≠ [] := by decide
  have hcompile : compileTests quietCompiler sampleDir sampleTruth =
      .ok (compileRows quietCompiler sampleDir sampleTruth) := by decide
  have hcombines := @evaluate_combines Arithmetic.exact asciiData quietCompiler sampleDir
    sampleTruth (by decide)
  rw [evaluate_eq hne hcompile] at hcombines
  exact ⟨_, evaluate_eq hne hcompile, hcombines⟩

end TTCEvaluation
