import TTCEvaluation.Extraction.Numbering

/-!
# Choosing columns by name

Every column detector returns the first column whose lower-cased name passes a
substring test, so a column with a longer name that stands earlier wins over
the column that is meant.  On tables with a `Code` and a `Unit Test` column
the detectors are right exactly when no such column stands before these.
-/

namespace TTCEvaluation

def codeColumnName : Text := "Code".toList

def unitTestPrefix : Text := "Unit Test".toList

section

variable (U : UnicodeData)

def Mentions (word col : Text) : Prop := word <:+: U.lower col

instance (word col : Text) : Decidable (Mentions U word col) :=
  inferInstanceAs (Decidable (word <:+: U.lower col))

def NamesResource (col : Text) : Prop :=
  Mentions U "file".toList col ∨ Mentions U "path".toList col ∨ Mentions U "url".toList col

instance (col : Text) : Decidable (NamesResource U col) := inferInstanceAs (Decidable (_ ∨ _ ∨ _))

/-- One column is `Code`, one starts with `Unit Test`; every other one names a resource, or neither
code nor tests. -/
structure BenchmarkColumns (columns : List Text) (unitTest : Text) : Prop where
  code : columns.filter (· = codeColumnName) = [codeColumnName]
  unit_test : columns.filter (unitTestPrefix <+: ·) = [unitTest]
  others : ∀ col ∈ columns, col ≠ codeColumnName → col ≠ unitTest → NamesResource U col ∨
    (¬Mentions U "code".toList col ∧ ¬Mentions U "test".toList col)

/-- A multi-line unit test with a `TEST(` in a row with code is marked as available and stored. -/
def StoresTest (columns : List Text) (unitTest : Text) (st : Extraction) (row : MetadataRow)
    (cell : CodeCell) : Prop :=
  cell.table.columns = columns → ∀ test, cell.row unitTest = .text test →
    '\n' ∈ strip test → "TEST(".toList <:+: test →
      row.humanTestAvailable = true ∧ st.files row.humanTestFile = some test

/-- The detectors find the two columns, and every completed run of stage 01 stores the tests. -/
structure ReadsColumns (columns : List Text) (unitTest : Text) : Prop where
  code_column : detectCodeColumn U columns = some codeColumnName
  test_column : detectTestColumn U columns = some unitTest
  human_test : ∀ tables files st, buildMetadata U tables files = .ok st →
    List.Forall₂ (StoresTest columns unitTest st) st.allRows (tables.flatMap (codeCells U))

/-- No column before `Code` mentions code without tests, and none before `unitTest` mentions
tests. -/
structure NoEarlierHit (columns : List Text) (unitTest : Text) : Prop where
  code : ∀ col ∈ columns.takeWhile (· ≠ codeColumnName),
    Mentions U "code".toList col → Mentions U "test".toList col
  test : ∀ col ∈ columns.takeWhile (· ≠ unitTest), ¬Mentions U "test".toList col

end

variable {U : UnicodeData}

/-! ## First hits -/

theorem find?_eq_some_iff_takeWhile {α : Type*} [DecidableEq α] {p : α → Bool} {l : List α} {a : α}
    (hmem : a ∈ l) (ha : p a) :
    l.find? p = some a ↔ ∀ b ∈ l.takeWhile (· ≠ a), p b = false := by
  induction l with
  | nil => simp at hmem
  | cons b l ih =>
      by_cases hb : b = a
      · subst hb
        simp [ha]
      · have hl : a ∈ l := (List.mem_cons.mp hmem).resolve_left (Ne.symm hb)
        rw [List.takeWhile_cons_of_pos (by simpa using hb), List.forall_mem_cons]
        cases hpb : p b with
        | true =>
            rw [List.find?_cons_of_pos hpb]
            simp [hb]
        | false =>
            rw [List.find?_cons_of_neg (by simp [hpb]), ih hl]
            simp

theorem codeHit_iff {col : Text} :
    (codeNames.any (· = U.lower col) ∨
      ("code".toList <:+: U.lower col ∧ ¬"test".toList <:+: U.lower col)) ↔
    Mentions U "code".toList col ∧ ¬Mentions U "test".toList col := by
  have hlisted : ∀ name ∈ codeNames, "code".toList <:+: name ∧ ¬"test".toList <:+: name := by
    decide
  constructor
  · rintro (h | h)
    · obtain ⟨name, hname, heq⟩ := List.any_eq_true.mp h
      rw [Mentions, Mentions, ← of_decide_eq_true heq]
      exact hlisted name hname
    · exact h
  · exact Or.inr

theorem testHit_iff {col : Text} :
    ("unit test".toList <:+: U.lower col ∨ "test".toList <:+: U.lower col) ↔
    Mentions U "test".toList col := by
  have hword : "test".toList <:+: "unit test".toList := by decide
  exact ⟨fun h => h.elim hword.trans id, Or.inr⟩

theorem lower_codeColumnName : U.lower codeColumnName = "code".toList :=
  UnicodeData.lower_of_ascii (forall_mem_of_all (by decide))

theorem mentions_test_of_unitTestPrefix {col : Text} (h : unitTestPrefix <+: col) :
    Mentions U "test".toList col := by
  have hlower : U.lower unitTestPrefix = "unit test".toList :=
    UnicodeData.lower_of_ascii (forall_mem_of_all (by decide))
  have hword : "test".toList <:+: U.lower unitTestPrefix := by
    rw [hlower]
    decide
  exact hword.trans (UnicodeData.lower_infix_of_no_sigma (by decide) h.isInfix)

namespace BenchmarkColumns

variable {columns : List Text} {unitTest : Text} (h : BenchmarkColumns U columns unitTest)

include h

theorem code_mem : codeColumnName ∈ columns := by
  have hmem : codeColumnName ∈ columns.filter (· = codeColumnName) := by
    rw [h.code]
    exact List.mem_singleton_self _
  exact List.mem_of_mem_filter hmem

theorem unitTest_mem : unitTest ∈ columns ∧ unitTestPrefix <+: unitTest := by
  have hmem : unitTest ∈ columns.filter (unitTestPrefix <+: ·) := by
    rw [h.unit_test]
    exact List.mem_singleton_self _
  simpa using hmem

theorem detectCodeColumn_iff : detectCodeColumn U columns = some codeColumnName ↔
    ∀ col ∈ columns.takeWhile (· ≠ codeColumnName),
      Mentions U "code".toList col → Mentions U "test".toList col := by
  rw [detectCodeColumn, find?_eq_some_iff_takeWhile h.code_mem]
  · apply forall₂_congr
    intro col _
    rw [decide_eq_false_iff_not, codeHit_iff, not_and_not_right]
  · rw [decide_eq_true_iff, lower_codeColumnName]
    decide

theorem detectTestColumn_iff : detectTestColumn U columns = some unitTest ↔
    ∀ col ∈ columns.takeWhile (· ≠ unitTest), ¬Mentions U "test".toList col := by
  obtain ⟨hmem, hprefix⟩ := h.unitTest_mem
  rw [detectTestColumn, find?_eq_some_iff_takeWhile hmem]
  · apply forall₂_congr
    intro col _
    rw [decide_eq_false_iff_not, testHit_iff]
  · rw [decide_eq_true_iff, testHit_iff]
    exact mentions_test_of_unitTestPrefix hprefix

end BenchmarkColumns

/-! ## Human tests -/

theorem humanTest_of_multiline {test : Text} (hline : '\n' ∈ strip test)
    (htest : "TEST(".toList <:+: test) : humanTest (.text test) = some test := by
  have hstripped : "TEST(".toList <:+: strip test :=
    Segments.infix_trim (forall_mem_of_all (by decide)) htest
  have hany : testIndicators.any (fun indicator => indicator <:+: strip test) = true := by
    rw [List.any_eq_true]
    exact ⟨_, List.mem_cons_self, decide_eq_true hstripped⟩
  have hlooks : looksLikeCppTestCode (.text test) = true := by
    rw [looksLikeCppTestCode, if_neg fun h => h.1 hline, if_neg fun h => h.1 hline]
    exact hany
  rw [humanTest, if_pos hlooks]

theorem looksLike_of_humanTest {testCode : RawCell} {test : Text}
    (h : humanTest testCode = some test) : looksLikeCppTestCode testCode = true := by
  unfold humanTest at h
  split at h
  · cases h
  · split_ifs at h with hlooks
    exact hlooks

theorem stored_humanTest {tables : List ParquetTable} {files : Text → Option Text}
    {p : CodeCell × ℕ} (hp : p ∈ numberedCells U tables) {test : Text}
    (htest : humanTest (p.1.testCode U) = some test) :
    (p.1.metadataRow U p.2).humanTestAvailable = true ∧
      (extraction U tables files).files (p.1.metadataRow U p.2).humanTestFile = some test := by
  have hlooks := looksLike_of_humanTest htest
  have hfile : (p.1.metadataRow U p.2).humanTestFile = p.1.testFile p.2 := if_pos hlooks
  rw [hfile]
  exact ⟨hlooks, files_testFile hp htest⟩

theorem humanTests_of_detected {columns : List Text} {unitTest : Text}
    (hdetect : detectTestColumn U columns = some unitTest) {tables : List ParquetTable}
    {files : Text → Option Text} {st : Extraction}
    (hrun : buildMetadata U tables files = .ok st) :
    List.Forall₂ (StoresTest columns unitTest st) st.allRows (tables.flatMap (codeCells U)) := by
  obtain ⟨-, -, rfl⟩ := buildMetadata_eq_ok_iff.mp hrun
  apply forall₂_cellRows.mpr
  intro p hp hcolumns test hcell hline htest
  refine stored_humanTest hp ?_
  rw [CodeCell.testCode, hcolumns, hdetect, getOptional, hcell]
  exact humanTest_of_multiline hline htest

/-- Stage 01 reads the right columns of a benchmark table exactly when no earlier column is hit
first. -/
theorem readsColumns_iff {columns : List Text} {unitTest : Text}
    (h : BenchmarkColumns U columns unitTest) :
    ReadsColumns U columns unitTest ↔ NoEarlierHit U columns unitTest := by
  constructor
  · intro hreads
    exact ⟨h.detectCodeColumn_iff.mp hreads.code_column,
      h.detectTestColumn_iff.mp hreads.test_column⟩
  · intro hhit
    have htest := h.detectTestColumn_iff.mpr hhit.test
    exact ⟨h.detectCodeColumn_iff.mpr hhit.code, htest,
      fun _ _ _ hrun => humanTests_of_detected htest hrun⟩

def reorderedColumns : List Text :=
  ["Code".toList, "Unit Test - (Ground Truth)".toList, "File Path for Unit Test".toList,
    "Code Url".toList, "Repository Name".toList]

theorem readsColumns_reordered :
    BenchmarkColumns asciiData reorderedColumns "Unit Test - (Ground Truth)".toList ∧
      ReadsColumns asciiData reorderedColumns "Unit Test - (Ground Truth)".toList := by
  have hcolumns : BenchmarkColumns asciiData reorderedColumns
      "Unit Test - (Ground Truth)".toList := ⟨by decide, by decide, by decide⟩
  exact ⟨hcolumns, (readsColumns_iff hcolumns).mpr ⟨by decide, by decide⟩⟩

/-- The columns of the benchmark, as its inspection notebook prints them. -/
def benchmarkColumns : List Text :=
  ["ID".toList, "Language".toList, "Repository Name".toList, "File Name".toList,
    "File Path in Repository".toList, "File Path for Unit Test".toList, "Code".toList,
    "Unit Test - (Ground Truth)".toList, "Code Url".toList, "Test Code Url".toList,
    "Commit Hash".toList]

/-- The test paths of the benchmark are taken for its unit tests. -/
theorem benchmarkColumns_misread :
    BenchmarkColumns asciiData benchmarkColumns "Unit Test - (Ground Truth)".toList ∧
      detectTestColumn asciiData benchmarkColumns = some "File Path for Unit Test".toList ∧
      ¬ReadsColumns asciiData benchmarkColumns "Unit Test - (Ground Truth)".toList := by
  have hdetect : detectTestColumn asciiData benchmarkColumns =
      some "File Path for Unit Test".toList := by decide
  refine ⟨⟨by decide, by decide, by decide⟩, hdetect, fun h => ?_⟩
  exact absurd (hdetect.symm.trans h.test_column) (by decide)

end TTCEvaluation
