import TTCEvaluation.Annotation.Literals
import TTCEvaluation.Annotation.Reproducible
import TTCEvaluation.Extraction.Metadata

/-!
# Includes and features

The features of a function are text tests on its whole file.  An include line
adds to what the tests see the comparison that its brackets look like, and
the keywords and constants that its header name holds.
-/

namespace TTCEvaluation

open Pattern Segments

/-- The line `#include <h>`. -/
def includeLine (header : Text) : Text := "#include ".toList ++ '<' :: (header ++ ['>', '\n'])

/-- The code cell with an include line in front of its code. -/
def CodeCell.including (cell : CodeCell) (header : Text) : CodeCell :=
  { cell with code := includeLine header ++ cell.code }

/-- Stages 01 and 05 see the same features in two code cells. -/
structure SameFeatures (U : UnicodeData) (order : SetOrder) (n : ℕ) (row : AnnotationRow)
    (cell cell' : CodeCell) : Prop where
  hasIf : (cell.metadataRow U n).hasIf = (cell'.metadataRow U n).hasIf
  hasSwitch : (cell.metadataRow U n).hasSwitch = (cell'.metadataRow U n).hasSwitch
  hasLoop : (cell.metadataRow U n).hasLoop = (cell'.metadataRow U n).hasLoop
  hasComparison : (cell.metadataRow U n).hasComparison = (cell'.metadataRow U n).hasComparison
  bvaApplicable : (preannotate U order cell.code row).bvaApplicable =
    (preannotate U order cell'.code row).bvaApplicable
  ecpApplicable : (preannotate U order cell.code row).ecpApplicable =
    (preannotate U order cell'.code row).ecpApplicable
  constants : ∀ w, w ∈ extractNumericConstants U order cell.code ↔
    w ∈ extractNumericConstants U order cell'.code

def loopKeywords : List Text := ["for".toList, "while".toList]

/-- What a text test finds in the header, it also finds in the code. -/
structure HeaderCovered (U : UnicodeData) (header code : Text) : Prop where
  hasIf : "if".toList <:+: header → "if".toList <:+: code
  hasSwitch : "switch".toList <:+: header → "switch".toList <:+: code
  hasLoop : (∃ w ∈ loopKeywords, w <:+: header) → ∃ w ∈ loopKeywords, w <:+: code
  hasBoundary : '<' ∈ code ∨ '>' ∈ code
  hasPartition : (∃ w ∈ partitionKeywords, w <:+: header) → ∃ w ∈ partitionKeywords, w <:+: code
  constants : ∀ w ∈ matchedConstants U header, w ∈ matchedConstants U code

variable {U : UnicodeData} {order : SetOrder} {header code : Text}

/-! ## Text tests -/

theorem includeLine_append (header code : Text) :
    includeLine header ++ code = "#include ".toList ++ '<' :: (header ++ '>' :: '\n' :: code) := by
  unfold includeLine
  rw [List.append_assoc, List.cons_append, List.append_assoc]
  rfl

/-- A word that is not in the line's own text and reaches over no bracket. -/
theorem infix_including_iff {w : Text} (hw : ∀ c ∈ w, c ≠ '<' ∧ c ≠ '>' ∧ c ≠ '\n')
    (hline : ¬w <:+: "#include ".toList) :
    w <:+: includeLine header ++ code ↔ w <:+: header ∨ w <:+: code := by
  have hnil : ¬w <:+: [] := fun h => hline (h.trans List.nil_infix)
  have hnewline : w <:+: '\n' :: code ↔ w <:+: code := by
    have h := infix_append_cons_iff (s := []) (t := code) fun h => (hw '\n' h).2.2 rfl
    simpa [hnil] using h
  rw [includeLine_append, infix_append_cons_iff fun h => (hw '<' h).1 rfl,
    infix_append_cons_iff fun h => (hw '>' h).2.1 rfl, hnewline]
  tauto

theorem any_including_iff {ws : List Text}
    (hws : ∀ w ∈ ws, (∀ c ∈ w, c ≠ '<' ∧ c ≠ '>' ∧ c ≠ '\n') ∧ ¬w <:+: "#include ".toList) :
    (∃ w ∈ ws, w <:+: includeLine header ++ code) ↔
      (∃ w ∈ ws, w <:+: header) ∨ ∃ w ∈ ws, w <:+: code := by
  constructor
  · rintro ⟨w, hw, h⟩
    rcases (infix_including_iff (hws w hw).1 (hws w hw).2).mp h with h | h
    · exact Or.inl ⟨w, hw, h⟩
    · exact Or.inr ⟨w, hw, h⟩
  · rintro (⟨w, hw, h⟩ | ⟨w, hw, h⟩)
    · exact ⟨w, hw, (infix_including_iff (hws w hw).1 (hws w hw).2).mpr (Or.inl h)⟩
    · exact ⟨w, hw, (infix_including_iff (hws w hw).1 (hws w hw).2).mpr (Or.inr h)⟩

/-- A bracket is found by the operator that it spells. -/
theorem any_infix_of_bracket {ws : List Text} (hlt : "<".toList ∈ ws) (hgt : ">".toList ∈ ws)
    (h : '<' ∈ code ∨ '>' ∈ code) : ws.any (· <:+: code) = true := by
  rw [List.any_eq_true]
  rcases h with h | h
  · refine ⟨"<".toList, hlt, ?_⟩
    simpa using (List.singleton_infix_iff '<' code).mpr h
  · refine ⟨">".toList, hgt, ?_⟩
    simpa using (List.singleton_infix_iff '>' code).mpr h

theorem hasBoundaryLogic_iff : hasBoundaryLogic code ↔ '<' ∈ code ∨ '>' ∈ code := by
  have hbracket : ∀ w ∈ boundaryOperators, '<' ∈ w ∨ '>' ∈ w := by decide
  constructor
  · intro h
    rw [hasBoundaryLogic, List.any_eq_true] at h
    obtain ⟨w, hw, h⟩ := h
    have h : w <:+: code := by simpa using h
    rcases hbracket w hw with hc | hc
    · exact Or.inl (h.subset hc)
    · exact Or.inr (h.subset hc)
  · exact any_infix_of_bracket (by decide) (by decide)

/-! ## Constants -/

theorem isConstantChar_eq_false {c : Char}
    (h : isAscii c ∧ c ≠ '-' ∧ c ≠ '.' ∧ isAsciiDigit c = false) : isConstantChar U c = false := by
  obtain ⟨hascii, hminus, hdot, hdigit⟩ := h
  by_contra hc
  rcases ascii_of_isConstantChar hascii (by simpa using hc) with h | h | h
  · exact hminus h
  · exact hdot h
  · simp [hdigit] at h

theorem startsWithDigit_append_cons {x : Char} (hx : U.isDecimal x = false) (u r : Text) :
    startsWithDigit U (u ++ x :: r) = startsWithDigit U u := by
  cases u with
  | nil => simp [startsWithDigit, hx]
  | cons c u => rfl

section

variable {p : Char → Bool} {x : Char} (hx : p x = false) (u r : Text)

include hx

theorem takeWhile_append_stop : (u ++ x :: r).takeWhile p = u.takeWhile p := by
  induction u with
  | nil => simp [hx]
  | cons c u ih => simp only [List.cons_append, List.takeWhile_cons, ih]

theorem dropWhile_append_stop : (u ++ x :: r).dropWhile p = u.dropWhile p ++ x :: r := by
  induction u with
  | nil => simp [hx]
  | cons c u ih =>
      rw [List.cons_append, List.dropWhile_cons, List.dropWhile_cons, ih]
      split_ifs <;> rfl

end

theorem literalAt_append_cons {x : Char} (hx : isConstantChar U x = false) (u r : Text) :
    literalAt U (u ++ x :: r) = literalAt U u := by
  obtain ⟨⟨-, hdot⟩, hdecimal⟩ : (x ≠ '-' ∧ x ≠ '.') ∧ U.isDecimal x = false := by
    simpa [isConstantChar] using hx
  unfold literalAt
  rw [dropWhile_append_stop hdecimal, takeWhile_append_stop hdecimal]
  cases hrest : u.dropWhile U.isDecimal with
  | nil => simp [hdot]
  | cons c rest =>
      by_cases hc : c = '.'
      · subst hc
        simp [startsWithDigit_append_cons hdecimal, takeWhile_append_stop hdecimal]
      · simp [hc]

theorem constantAt_append_cons {x : Char} (hx : isConstantChar U x = false) (prev : Option Char)
    {u : Text} (hu : u ≠ []) (r : Text) :
    constantAt U prev (u ++ x :: r) = constantAt U prev u := by
  obtain ⟨c, u, rfl⟩ := List.exists_cons_of_ne_nil hu
  have hdecimal : U.isDecimal x = false := by
    simp only [isConstantChar, Bool.or_eq_false_iff] at hx
    exact hx.2
  have hhead : (c :: u ++ x :: r).head? = (c :: u).head? := rfl
  have htail : (c :: u ++ x :: r).tail = (c :: u).tail ++ x :: r := rfl
  rw [constantAt, constantAt, hhead, htail, startsWithDigit_append_cons hdecimal,
    startsWithDigit_append_cons hdecimal, literalAt_append_cons hx, literalAt_append_cons hx]

theorem constantAt_of_not_char {x : Char} (hx : isConstantChar U x = false) (prev : Option Char)
    (r : Text) : constantAt U prev (x :: r) = none := by
  obtain ⟨⟨hminus, -⟩, hdecimal⟩ : (x ≠ '-' ∧ x ≠ '.') ∧ U.isDecimal x = false := by
    simpa [isConstantChar] using hx
  simp [constantAt, startsWithDigit, hminus, hdecimal]

/-- The scan is cut at a character of no constant, if that is not a letter or an underscore. -/
theorem mem_matchedConstants_append_cons {x : Char} (hx : isConstantChar U x = false)
    (hname : isNameStart x = false) {w s t : Text} :
    w ∈ matchedConstants U (s ++ x :: t) ↔
      w ∈ matchedConstants U s ∨ w ∈ matchedConstants U t := by
  have hcut := findAllFrom_append_cons consumes_constantPattern (c := x) (r := t)
    (fun prev u hu => by
      rw [whole_constantPattern, whole_constantPattern, constantAt_append_cons hx prev hu])
    (fun prev => by rw [whole_constantPattern, constantAt_of_not_char hx]; rfl) none s
  have hprev : findAllFrom (constantPattern U).whole (some x) 0 t = matchedConstants U t := by
    apply findAllFrom_congr
    rw [whole_constantPattern, whole_constantPattern]
    simp [constantAt, hname]
  rw [matchedConstants, findAll, hcut, hprev, List.mem_append]
  rfl

theorem mem_matchedConstants_including {w : Text} :
    w ∈ matchedConstants U (includeLine header ++ code) ↔
      w ∈ matchedConstants U header ∨ w ∈ matchedConstants U code := by
  have hline : matchedConstants U "#include ".toList = [] := by
    apply List.eq_nil_iff_forall_not_mem.mpr
    intro v hv
    have hmem : v ∈ extractNumericConstants U .plain "#include ".toList :=
      mem_extractNumericConstants.mpr hv
    obtain ⟨c, hc⟩ := List.exists_mem_of_ne_nil v (constant_ne_nil hmem)
    have hplain : ∀ d ∈ "#include ".toList,
        isAscii d ∧ d ≠ '-' ∧ d ≠ '.' ∧ isAsciiDigit d = false := forall_mem_of_all (by decide)
    have hchar := isConstantChar_of_mem hmem c hc
    simp [isConstantChar_eq_false (hplain c ((infix_of_mem_constants hmem).subset hc))] at hchar
  have hempty : matchedConstants U [] = [] := rfl
  have hnewline : w ∈ matchedConstants U ('\n' :: code) ↔ w ∈ matchedConstants U code := by
    have h := mem_matchedConstants_append_cons (U := U) (s := []) (t := code) (w := w)
      (isConstantChar_eq_false (c := '\n') (by decide)) (by decide)
    simpa [hempty] using h
  rw [includeLine_append,
    mem_matchedConstants_append_cons (isConstantChar_eq_false (by decide)) (by decide),
    mem_matchedConstants_append_cons (isConstantChar_eq_false (by decide)) (by decide),
    hnewline, hline]
  simp

/-! ## The features of a file with one more include -/

theorem any_eq_any_iff {ws : List Text} {a b : Text} :
    ws.any (· <:+: a) = ws.any (· <:+: b) ↔ ((∃ w ∈ ws, w <:+: a) ↔ ∃ w ∈ ws, w <:+: b) := by
  rw [Bool.eq_iff_iff, List.any_eq_true, List.any_eq_true]
  simp only [decide_eq_true_eq]

/-- A test for some of the words comes out the same if the header adds none. -/
theorem any_including_eq_iff (header code : Text) {ws : List Text}
    (hws : ∀ w ∈ ws, (∀ c ∈ w, c ≠ '<' ∧ c ≠ '>' ∧ c ≠ '\n') ∧ ¬w <:+: "#include ".toList) :
    ws.any (· <:+: code) = ws.any (· <:+: includeLine header ++ code) ↔
      ((∃ w ∈ ws, w <:+: header) → ∃ w ∈ ws, w <:+: code) := by
  rw [any_eq_any_iff, any_including_iff hws]
  exact Iff.comm.trans or_iff_right_iff_imp

theorem decide_including_eq_iff (header code : Text) {w : Text}
    (hw : ∀ c ∈ w, c ≠ '<' ∧ c ≠ '>' ∧ c ≠ '\n')
    (hline : ¬w <:+: "#include ".toList) :
    decide (w <:+: code) = decide (w <:+: includeLine header ++ code) ↔
      (w <:+: header → w <:+: code) := by
  rw [decide_eq_decide, infix_including_iff hw hline]
  exact Iff.comm.trans or_iff_right_iff_imp

theorem plain_loopKeywords : ∀ w ∈ loopKeywords,
    (∀ c ∈ w, c ≠ '<' ∧ c ≠ '>' ∧ c ≠ '\n') ∧ ¬w <:+: "#include ".toList := by
  intro w hw
  unfold loopKeywords at hw
  simp only [List.mem_cons, List.not_mem_nil, or_false] at hw
  rcases hw with rfl | rfl <;> exact ⟨forall_mem_of_all (by decide), by decide⟩

theorem plain_partitionKeywords : ∀ w ∈ partitionKeywords,
    (∀ c ∈ w, c ≠ '<' ∧ c ≠ '>' ∧ c ≠ '\n') ∧ ¬w <:+: "#include ".toList := by
  intro w hw
  unfold partitionKeywords at hw
  simp only [List.mem_cons, List.not_mem_nil, or_false] at hw
  rcases hw with rfl | rfl | rfl | rfl | rfl <;> exact ⟨forall_mem_of_all (by decide), by decide⟩

theorem mark_eq_iff {b b' : Bool} :
    some (if b then "review_yes".toList else "review_no".toList) =
        some (if b' then "review_yes".toList else "review_no".toList) ↔ b = b' := by
  cases b <;> cases b' <;> decide

theorem hasBoundaryLogic_including : hasBoundaryLogic (includeLine header ++ code) = true := by
  rw [hasBoundaryLogic_iff, includeLine_append]
  exact Or.inl (List.mem_append_right _ List.mem_cons_self)

def comparisonOperators : List Text :=
  [">=".toList, "<=".toList, "==".toList, "!=".toList, ">".toList, "<".toList]

theorem anyComparison_of_bracket (h : '<' ∈ code ∨ '>' ∈ code) :
    comparisonOperators.any (· <:+: code) = true :=
  any_infix_of_bracket (by decide) (by decide) h

/-- An include line changes no feature exactly when what it adds to the text tests is already in
the code: a bracket, and the keywords and constants of the header. -/
theorem sameFeatures_including_iff (U : UnicodeData) (order : SetOrder) (n : ℕ)
    (row : AnnotationRow) (cell : CodeCell) (header : Text) :
    SameFeatures U order n row cell (cell.including header) ↔
      HeaderCovered U header cell.code := by
  have hif := decide_including_eq_iff header cell.code (w := "if".toList)
    (forall_mem_of_all (by decide)) (by decide)
  have hswitch := decide_including_eq_iff header cell.code (w := "switch".toList)
    (forall_mem_of_all (by decide)) (by decide)
  have hloop := any_including_eq_iff header cell.code plain_loopKeywords
  have hpartition := any_including_eq_iff header cell.code plain_partitionKeywords
  have hbva : (preannotate U order cell.code row).bvaApplicable =
      (preannotate U order (includeLine header ++ cell.code) row).bvaApplicable ↔
        '<' ∈ cell.code ∨ '>' ∈ cell.code := by
    rw [(preannotate_marks order _ row).1, (preannotate_marks order _ row).1, mark_eq_iff,
      hasBoundaryLogic_including, hasBoundaryLogic_iff]
  have hecp : (preannotate U order cell.code row).ecpApplicable =
      (preannotate U order (includeLine header ++ cell.code) row).ecpApplicable ↔
        hasPartitionLogic cell.code = hasPartitionLogic (includeLine header ++ cell.code) := by
    rw [(preannotate_marks order _ row).2, (preannotate_marks order _ row).2, mark_eq_iff]
  constructor
  · intro h
    refine ⟨hif.mp h.hasIf, hswitch.mp h.hasSwitch, hloop.mp h.hasLoop, hbva.mp h.bvaApplicable,
      hpartition.mp (hecp.mp h.ecpApplicable), ?_⟩
    intro w hw
    have hmem := (h.constants w).mpr
    rw [mem_extractNumericConstants, mem_extractNumericConstants] at hmem
    exact hmem (mem_matchedConstants_including.mpr (Or.inl hw))
  · intro h
    refine ⟨hif.mpr h.hasIf, hswitch.mpr h.hasSwitch, hloop.mpr h.hasLoop, ?_,
      hbva.mpr h.hasBoundary, hecp.mpr (hpartition.mpr h.hasPartition), ?_⟩
    · have hnew : comparisonOperators.any (· <:+: includeLine header ++ cell.code) = true := by
        apply anyComparison_of_bracket
        rw [includeLine_append]
        exact Or.inl (List.mem_append_right _ List.mem_cons_self)
      exact (anyComparison_of_bracket h.hasBoundary).trans hnew.symm
    · intro w
      have hor : w ∈ matchedConstants U (includeLine header ++ cell.code) ↔
          w ∈ matchedConstants U header ∨ w ∈ matchedConstants U cell.code :=
        mem_matchedConstants_including
      rw [mem_extractNumericConstants, mem_extractNumericConstants]
      exact ⟨fun hw => hor.mpr (Or.inr hw), fun hw => (hor.mp hw).elim (h.constants w) id⟩

/-- The brackets of the line are taken for a comparison. -/
theorem include_makes_comparison :
    ¬∀ (U : UnicodeData) (order : SetOrder) (n : ℕ) (row : AnnotationRow) (cell : CodeCell)
        (header : Text), (∀ c ∈ header, isWordChar c ∨ c = '/' ∨ c = '.') →
      SameFeatures U order n row cell (cell.including header) := by
  intro h
  have hsame := h asciiData .plain 1 (templateRow [] none [])
    ⟨⟨[], [], [], []⟩, [], fun _ => .other [], "int f() { return 0; }".toList⟩ "vector".toList
    (forall_mem_of_all (by decide))
  exact absurd hsame.hasComparison (by decide)

end TTCEvaluation
