import TTCEvaluation.Annotation.Constants
import TTCEvaluation.Scoring.Values

/-!
# The boundary-value cell between annotator and scorer

Constants hold no separator and no white space, so the joined cell decodes to
the list it was made of; each constant is a segment of the source, so the
scorer finds all of them in the source itself.
-/

namespace TTCEvaluation

open Segments

variable {A : Arithmetic} {U : UnicodeData} {order : SetOrder} {code w : Text}

theorem strip_constant (h : w ∈ extractNumericConstants U order code) : strip w = w :=
  trim_eq_self_of_forall fun c hc => (uncased_of_isConstantChar (isConstantChar_of_mem h c hc)).2.2

theorem not_isSeparator_constant (h : w ∈ extractNumericConstants U order code) :
    ∀ c ∈ w, isSeparator c = false := by
  intro c hc
  have hchar := isConstantChar_of_mem h c hc
  rw [isSeparator, Bool.or_eq_false_iff, decide_eq_false_iff_not, decide_eq_false_iff_not]
  constructor <;> rintro rfl <;>
    rcases ascii_of_isConstantChar (by decide) hchar with hc | hc | hc <;> revert hc <;> decide

theorem upper_constant (h : w ∈ extractNumericConstants U order code) : U.upper w = w := by
  have hmap : ∀ c ∈ w, U.upperChar c = [c] := fun c hc =>
    (uncased_of_isConstantChar (isConstantChar_of_mem h c hc)).1
  rw [UnicodeData.upper, List.flatMap_congr hmap, List.flatMap_singleton']

theorem available_constant (h : w ∈ extractNumericConstants U order code) :
    U.upper w ∉ notAvailable := by
  rw [upper_constant h]
  intro hna
  simp only [notAvailable, List.mem_cons, List.not_mem_nil, or_false] at hna
  have hN : 'N' ∈ w := by
    rcases hna with rfl | rfl <;> decide
  rcases ascii_of_isConstantChar (by decide) (isConstantChar_of_mem h 'N' hN) with hc | hc | hc <;>
    exact absurd hc (by decide)

theorem containsValue_constant (h : w ∈ extractNumericConstants U order code) :
    containsValue U code w := by
  rw [containsValue_iff (constant_ne_nil h) (strip_constant h)]
  refine ⟨available_constant h, normalize_infix_of_no_sigma ?_ (infix_of_mem_constants h)⟩
  intro hsigma
  exact (uncased_of_isConstantChar (isConstantChar_of_mem h _ hsigma)).2.1 rfl

theorem pieces_constant (h : w ∈ extractNumericConstants U order code) : pieces w = [w] :=
  pieces_of_plain (constant_ne_nil h) (strip_constant h) (not_isSeparator_constant h)

theorem splitValues_bvaExpectedCell (h : 2 ≤ (extractNumericConstants U order code).length) :
    splitValues U (bvaExpectedCell (extractNumericConstants U order code)) =
      extractNumericConstants U order code := by
  have hcomma : ',' ∈ [','].intercalate (extractNumericConstants U order code) := by
    match hnumbers : extractNumericConstants U order code, h with
    | a :: b :: numbers, _ =>
        rw [List.intercalate_cons_cons]
        simp
  have hpieces : (extractNumericConstants U order code).flatMap pieces =
      (extractNumericConstants U order code).flatMap fun w => [w] :=
    List.flatMap_congr fun w hw => pieces_constant hw
  rw [bvaExpectedCell, if_pos h,
    splitValues_of_available (available_of_mem_separator (c := ',') (by decide) hcomma),
    pieces_intercalate (by decide) (by simp), hpieces, List.flatMap_singleton']

/-- Annotator and scorer agree on the boundary-value cell: the cell decodes to the constants,
each of them occurs in the source, and the source scores all of them. -/
theorem annotation_agrees_with_scorer (A : Arithmetic) (U : UnicodeData) (order : SetOrder)
    (code : Text) (h : 2 ≤ (extractNumericConstants U order code).length) :
    bvaExpectedCell (extractNumericConstants U order code) =
        some ([','].intercalate (extractNumericConstants U order code)) ∧
      splitValues U (bvaExpectedCell (extractNumericConstants U order code)) =
        extractNumericConstants U order code ∧
      (∀ w ∈ extractNumericConstants U order code, w <:+: code) ∧
      scoreExpectedValues A U code (bvaExpectedCell (extractNumericConstants U order code)) =
        (1, (extractNumericConstants U order code).length,
          (extractNumericConstants U order code).length) := by
  have hsplit := splitValues_bvaExpectedCell h
  have hne : splitValues U (bvaExpectedCell (extractNumericConstants U order code)) ≠ [] := by
    rw [hsplit, ← List.length_pos_iff]
    omega
  have hscore := scoreExpectedValues_of_all (A := A) (t := code) hne (by
    rw [hsplit]
    exact fun w hw => containsValue_constant hw)
  rw [hsplit] at hscore
  exact ⟨by rw [bvaExpectedCell, if_pos h], hsplit, fun w hw => infix_of_mem_constants hw, hscore⟩

theorem annotation_agrees_with_scorer_sample :
    2 ≤ (extractNumericConstants asciiData .plain "if (x > -5) y = x1 + 0.5;".toList).length ∧
    scoreExpectedValues .binary64 asciiData "if (x > -5) y = x1 + 0.5;".toList
      (bvaExpectedCell
        (extractNumericConstants asciiData .plain "if (x > -5) y = x1 + 0.5;".toList)) =
      (1, 2, 2) := by
  have hlen : (extractNumericConstants asciiData .plain
      "if (x > -5) y = x1 + 0.5;".toList).length = 2 := by
    rw [extractNumericConstants, List.length_insertionSort]
    decide
  have h := (annotation_agrees_with_scorer .binary64 asciiData .plain
    "if (x > -5) y = x1 + 0.5;".toList (by rw [hlen])).2.2.2
  rw [hlen] at h
  exact ⟨hlen.ge, h⟩

end TTCEvaluation
