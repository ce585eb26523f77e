import TTCEvaluation.Scoring.Rows

/-!
# Scores depend on the lines of a test

The normal form of a test is its lines' normal forms, joined by line breaks.
A value without a line break is found in one of them, so a test that has all
the lines of another one is credited with all its values.
-/

namespace TTCEvaluation

open Segments

def lines (t : Text) : List Text := t.splitOn '\n'

variable {A : Arithmetic} {U : UnicodeData}

theorem lines_append_cons {s : Text} (hs : '\n' ∉ s) (t : Text) :
    lines (s ++ '\n' :: t) = s :: lines t :=
  List.splitOn_append_cons_self_of_not_mem hs t

theorem normalize_eq_intercalate (t : Text) :
    normalize U t = ['\n'].intercalate ((lines t).map (normalize U)) := by
  induction t using separator_induction (p := (· == '\n')) with
  | plain t ht =>
      have hmem : '\n' ∉ t := fun h => by simpa using ht _ h
      simp [lines, List.splitOn_eq_singleton hmem]
  | step s c t hs hc ih =>
      obtain rfl : c = '\n' := by simpa using hc
      have hmem : '\n' ∉ s := fun h => by simpa using hs _ h
      rw [lines_append_cons hmem, normalize_append_newline, ih, List.map_cons]
      have hne : (lines t).map (normalize U) ≠ [] := by simp [lines]
      rw [List.intercalate_cons_of_ne_nil hne, List.append_assoc, List.singleton_append]

theorem normalize_infix_iff_lines {v : Text} (hv : '\n' ∉ v) (t : Text) :
    normalize U v <:+: normalize U t ↔ ∃ l ∈ lines t, normalize U v <:+: normalize U l := by
  rw [normalize_eq_intercalate t,
    infix_intercalate_iff (newline_not_mem_normalize hv) (by simp [lines])]
  simp

theorem containsValue_of_lines_subset {v t t' : Text} (hne : v ≠ []) (hstrip : strip v = v)
    (hv : '\n' ∉ v) (hlines : ∀ l ∈ lines t, l ∈ lines t') (h : containsValue U t v) :
    containsValue U t' v := by
  rw [containsValue_iff hne hstrip] at h ⊢
  refine ⟨h.1, (normalize_infix_iff_lines hv t').mpr ?_⟩
  obtain ⟨l, hl, hin⟩ := (normalize_infix_iff_lines hv t).mp h.2
  exact ⟨l, hlines l hl, hin⟩

theorem containsValue_of_cell {cell : Cell} {t t' : Text} (hcell : ∀ text ∈ cell, '\n' ∉ text)
    (hlines : ∀ l ∈ lines t, l ∈ lines t') :
    ∀ v ∈ splitValues U cell, containsValue U t v → containsValue U t' v := by
  intro v hv
  cases cell with
  | none => simp [splitValues] at hv
  | some text =>
      have hbreak : '\n' ∉ v := fun h =>
        hcell text rfl ((delimitedIn_of_mem_splitValues hv).isInfix.subset h)
      exact containsValue_of_lines_subset (ne_nil_of_mem_splitValues hv)
        (strip_of_mem_splitValues hv) hbreak hlines

theorem recordedScores_le_of_lines {row : GroundTruthRow}
    (hbva : ∀ text ∈ row.bvaExpectedValues, '\n' ∉ text)
    (hecp : ∀ text ∈ row.ecpExpectedValues, '\n' ∉ text) {t t' : Text}
    (hlines : ∀ l ∈ lines t, l ∈ lines t') :
    (recordedScores A U row t).Le (recordedScores A U row t') :=
  (testScores_le (containsValue_of_cell hbva hlines) (containsValue_of_cell hecp hlines)).rounded

/-- A test that has all lines of another one scores no less on every row with one-line cells;
with the same set of lines, in any order and multiplicity, the scores are the same. -/
theorem recordedScores_lines (A : Arithmetic) (U : UnicodeData) (row : GroundTruthRow)
    (hbva : ∀ text ∈ row.bvaExpectedValues, '\n' ∉ text)
    (hecp : ∀ text ∈ row.ecpExpectedValues, '\n' ∉ text) (t t' : Text)
    (hlines : ∀ l ∈ lines t, l ∈ lines t') :
    (recordedScores A U row t).Le (recordedScores A U row t') ∧
      ((∀ l ∈ lines t', l ∈ lines t) → recordedScores A U row t = recordedScores A U row t') :=
  ⟨recordedScores_le_of_lines hbva hecp hlines, fun hback =>
    (recordedScores_le_of_lines hbva hecp hlines).antisymm
      (recordedScores_le_of_lines hbva hecp hback)⟩

def sampleRow : GroundTruthRow where
  id := "function_0347".toList
  functionName := some "Hash".toList
  bvaApplicable := some "yes".toList
  bvaExpectedValues := some "0,1".toList
  ecpApplicable := some "no".toList
  ecpExpectedValues := none

theorem recordedScores_lines_sample :
    (recordedScores .binary64 asciiData sampleRow "f(0);".toList).Le
      (recordedScores .binary64 asciiData sampleRow "f(1);\nf(0);\nf(0);".toList) :=
  (recordedScores_lines .binary64 asciiData sampleRow (by decide) (by decide) _ _ (by decide)).1

end TTCEvaluation
