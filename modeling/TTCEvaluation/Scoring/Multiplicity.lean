import TTCEvaluation.Arithmetic.Shares
import TTCEvaluation.Scoring.Values

/-!
# Repeated expected values

Every listed entry counts, so a repetition gives its value a larger share of
the score.  Two cells with the same values get the same scores from all tests
exactly when every normal form has the same share of both lists.
-/

namespace TTCEvaluation

open Shares

section

variable (U : UnicodeData)

/-- The normal forms of the listed values, the not-available marks left out. -/
def creditedForms (cell : Cell) : List Text :=
  ((splitValues U cell).filter fun v => !isNotAvailable U v).map (normalize U)

/-- Every normal form is the same part of both lists. -/
def EqualShares (c₁ c₂ : Cell) : Prop :=
  SameShares (creditedForms U c₁) (creditedForms U c₂) (splitValues U c₁).length
    (splitValues U c₂).length

end

variable {A : Arithmetic} {U : UnicodeData}

theorem countP_containsValue (t : Text) (cell : Cell) :
    (splitValues U cell).countP (containsValue U t) =
      (creditedForms U cell).countP (fun n => n <:+: normalize U t) := by
  rw [creditedForms, List.countP_map, List.countP_filter]
  apply List.countP_congr
  intro v hv
  cases cell with
  | none => simp [splitValues] at hv
  | some text =>
      rw [containsValue_iff (ne_nil_of_mem_splitValues hv) (strip_of_mem_splitValues hv)]
      simp [isNotAvailable, and_comm]

theorem mem_creditedForms_iff {cell : Cell} {n : Text} :
    n ∈ creditedForms U cell ↔
      ∃ v ∈ splitValues U cell, U.upper v ∉ notAvailable ∧ normalize U v = n := by
  simp [creditedForms, isNotAvailable, and_assoc]

theorem length_lt_of_infix {m n : Text} (h : m <:+: n) (hne : m ≠ n) : m.length < n.length := by
  apply h.length_le.lt_of_ne
  intro hlen
  exact hne (h.eq_of_length hlen)

theorem scoreExpectedValues_eq_div (t : Text) (cell : Cell) :
    (scoreExpectedValues A U t cell).1 =
      A.div ((creditedForms U cell).countP fun n => n <:+: normalize U t)
        (splitValues U cell).length := by
  rw [scoreExpectedValues_score, countP_containsValue]

section

variable {c₁ c₂ : Cell} (hset : ∀ v, v ∈ splitValues U c₁ ↔ v ∈ splitValues U c₂)

include hset

theorem mem_creditedForms_congr (n : Text) :
    n ∈ creditedForms U c₁ ↔ n ∈ creditedForms U c₂ := by
  simp only [mem_creditedForms_iff, hset]

theorem equalShares_iff_countP :
    EqualShares U c₁ c₂ ↔ ∀ b ∈ creditedForms U c₁,
      (creditedForms U c₁).countP (fun n => n <:+: b) * (splitValues U c₂).length =
        (creditedForms U c₂).countP (fun n => n <:+: b) * (splitValues U c₁).length := by
  have hrefl : ∀ n : Text, decide (n <:+: n) = true := by simp
  apply sameShares_iff_countP (r := fun m n => decide (m <:+: n)) hrefl List.length
  · intro m n h hne
    exact length_lt_of_infix (by simpa using h) hne
  · exact mem_creditedForms_congr hset

/-- Cells with the same values score the same on every test exactly when every normal form has the
same share of both lists. -/
theorem scores_eq_iff_equalShares :
    (∀ (A : Arithmetic) (t : Text),
      (scoreExpectedValues A U t c₁).1 = (scoreExpectedValues A U t c₂).1) ↔
        EqualShares U c₁ c₂ := by
  by_cases hnil : splitValues U c₁ = []
  · have hnil' : splitValues U c₂ = [] := by
      apply List.eq_nil_iff_forall_not_mem.mpr
      intro v hv
      simpa [hnil] using (hset v).mpr hv
    simp [scoreExpectedValues_of_nil hnil, scoreExpectedValues_of_nil hnil', EqualShares,
      SameShares, hnil, hnil']
  · obtain ⟨v, hv⟩ := List.exists_mem_of_ne_nil _ hnil
    have hpos₁ : ((splitValues U c₁).length : ℚ) ≠ 0 := by
      simpa using hnil
    have hpos₂ : ((splitValues U c₂).length : ℚ) ≠ 0 := by
      simpa using List.ne_nil_of_mem ((hset v).mp hv)
    constructor
    · intro h
      rw [equalShares_iff_countP hset]
      intro b hb
      obtain ⟨v, -, -, rfl⟩ := mem_creditedForms_iff.mp hb
      have hexact := h .exact v
      rw [scoreExpectedValues_eq_div, scoreExpectedValues_eq_div] at hexact
      simp only [Arithmetic.div, Arithmetic.exact] at hexact
      rw [div_eq_div_iff hpos₁ hpos₂] at hexact
      exact_mod_cast hexact
    · intro h A t
      have hshare := countP_mul_eq (p := fun n => decide (n <:+: normalize U t)) fun n _ => h n
      rw [scoreExpectedValues_eq_div, scoreExpectedValues_eq_div, Arithmetic.div, Arithmetic.div]
      apply congrArg
      rw [div_eq_div_iff hpos₁ hpos₂]
      exact_mod_cast hshare

/-- The score is the covered part of the listed entries, repetitions counted, so that order has no
influence and a repetition only where it shifts a share. -/
theorem scores_of_repeated_values :
    ((∀ (A : Arithmetic) (t : Text),
      (scoreExpectedValues A U t c₁).1 = (scoreExpectedValues A U t c₂).1) ↔
        EqualShares U c₁ c₂) ∧
    ∀ (A : Arithmetic) (t : Text), (scoreExpectedValues A U t c₁).1 =
      A.div ((splitValues U c₁).countP (containsValue U t)) (splitValues U c₁).length :=
  ⟨scores_eq_iff_equalShares hset, fun _ t => scoreExpectedValues_score t c₁⟩

end

theorem equalShares_of_perm {c₁ c₂ : Cell} (h : (splitValues U c₁).Perm (splitValues U c₂)) :
    EqualShares U c₁ c₂ := by
  rw [EqualShares, h.length_eq]
  exact sameShares_of_perm ((h.filter _).map _) _

theorem scores_of_repeated_values_reordered :
    (scoreExpectedValues .binary64 asciiData "f(0);".toList (some "-1, 0, 1".toList)).1 =
      (scoreExpectedValues .binary64 asciiData "f(0);".toList (some "1; -1; 0".toList)).1 := by
  have hperm : (splitValues asciiData (some "-1, 0, 1".toList)).Perm
      (splitValues asciiData (some "1; -1; 0".toList)) := by decide
  exact (scores_of_repeated_values fun _ => hperm.mem_iff).1.mpr (equalShares_of_perm hperm)
    .binary64 _

/-- Writing a value twice changes the score of a test that covers it. -/
theorem repetition_shifts_score :
    (∀ v, v ∈ splitValues asciiData (some "1,1,2".toList) ↔
      v ∈ splitValues asciiData (some "1,2".toList)) ∧
    (scoreExpectedValues .exact asciiData "EXPECT_TRUE(f(1));".toList (some "1,1,2".toList)).1 =
      2 / 3 ∧
    (scoreExpectedValues .exact asciiData "EXPECT_TRUE(f(1));".toList (some "1,2".toList)).1 =
      1 / 2 ∧
    (scoreExpectedValues .binary64 asciiData "EXPECT_TRUE(f(1));".toList
      (some "1,1,2".toList)).1 ≠
        (scoreExpectedValues .binary64 asciiData "EXPECT_TRUE(f(1));".toList
          (some "1,2".toList)).1 := by
  have htwice : splitValues asciiData (some "1,1,2".toList) =
      ["1".toList, "1".toList, "2".toList] := by decide
  have honce : splitValues asciiData (some "1,2".toList) = ["1".toList, "2".toList] := by decide
  refine ⟨?_, by decide +kernel, by decide +kernel, by decide +kernel⟩
  intro v
  rw [htwice, honce]
  simp

end TTCEvaluation
