import TTCEvaluation.Tables.Statistics
import Mathlib.Algebra.Order.BigOperators.Group.List
import Mathlib.Order.Interval.Set.Basic

/-!
# Where mean and median lie

The mean and the median lie between the least and the greatest value of a
column.  At least half of the values are not above the median, and at least
half are not below it.
-/

namespace TTCEvaluation.Tables

variable {l : List ℚ} {m low high : ℚ}

theorem mean_mem_Icc (h : ∀ a ∈ l, a ∈ Set.Icc low high) (hm : mean l = some m) :
    m ∈ Set.Icc low high := by
  unfold mean at hm
  split_ifs at hm with hl
  obtain rfl := Option.some.inj hm
  have hpos : (0 : ℚ) < l.length := by
    rw [Nat.cast_pos]
    exact List.length_pos_iff.mpr hl
  have hlow := l.card_nsmul_le_sum low fun a ha => (h a ha).1
  have hhigh := l.sum_le_card_nsmul high fun a ha => (h a ha).2
  rw [nsmul_eq_mul] at hlow hhigh
  exact ⟨(le_div_iff₀ hpos).mpr (by linarith), (div_le_iff₀ hpos).mpr (by linarith)⟩

/-! ## The middle of a sorted list -/

theorem countP_of_split {s t : List ℚ} (hs : ∀ a ∈ s, a ≤ m) (ht : ∀ a ∈ t, m ≤ a) :
    s.length ≤ (s ++ t).countP (· ≤ m) ∧ t.length ≤ (s ++ t).countP (m ≤ ·) := by
  have hleft : s.countP (· ≤ m) = s.length := List.countP_eq_length.mpr (by simpa using hs)
  have hright : t.countP (m ≤ ·) = t.length := List.countP_eq_length.mpr (by simpa using ht)
  rw [List.countP_append, List.countP_append]
  omega

/-- The median of a sorted list as one of its values or between two neighbours. -/
theorem exists_middle {s : List ℚ} (hs : s.Pairwise (· ≤ ·)) (hm : median s = some m) :
    (∃ before after, s = before ++ m :: after ∧ before.length = after.length) ∨
      ∃ a b before after, s = before ++ a :: b :: after ∧ before.length = after.length ∧
        m = (a + b) / 2 := by
  have hsorted : s.insertionSort (· ≤ ·) = s := hs.insertionSort_eq
  unfold median at hm
  rw [hsorted] at hm
  dsimp only at hm
  split_ifs at hm with hodd
  · left
    obtain ⟨hlt, hget⟩ := List.getElem?_eq_some_iff.mp hm
    refine ⟨s.take (s.length / 2), s.drop (s.length / 2 + 1), ?_, ?_⟩
    · rw [← hget, List.getElem_cons_drop, List.take_append_drop]
    · rw [List.length_take, List.length_drop]
      omega
  · right
    have hne : s ≠ [] := by
      rintro rfl
      cases hm
    have hpos := List.length_pos_iff.mpr hne
    have hlt : s.length / 2 - 1 < s.length := by omega
    have hlt' : s.length / 2 - 1 + 1 < s.length := by omega
    rw [List.drop_eq_getElem_cons hlt, List.drop_eq_getElem_cons hlt'] at hm
    refine ⟨s[s.length / 2 - 1], s[s.length / 2 - 1 + 1], s.take (s.length / 2 - 1),
      s.drop (s.length / 2 - 1 + 1 + 1), ?_, ?_, ?_⟩
    · rw [List.getElem_cons_drop, List.getElem_cons_drop, List.take_append_drop]
    · rw [List.length_take, List.length_drop]
      omega
    · have hmean : mean [s[s.length / 2 - 1], s[s.length / 2 - 1 + 1]] = some m := hm
      rw [mean_of_ne_nil (List.cons_ne_nil _ _), Option.some.injEq] at hmean
      simpa using hmean.symm

theorem median_ne_none (hl : l ≠ []) : median l ≠ none := by
  have hpos := List.length_pos_iff.mpr hl
  have hlength : (l.insertionSort (· ≤ ·)).length = l.length := List.length_insertionSort _ _
  unfold median
  dsimp only
  split_ifs with hodd
  · rw [ne_eq, List.getElem?_eq_none_iff]
    omega
  · have hmiddle : ((l.insertionSort (· ≤ ·)).drop (l.length / 2 - 1)).take 2 ≠ [] := by
      rw [ne_eq, List.take_eq_nil_iff, List.drop_eq_nil_iff]
      omega
    rw [mean_of_ne_nil hmiddle]
    exact Option.some_ne_none _

/-- At least half of the values are not above the median, and at least half are not below it. -/
theorem median_splits (hm : median l = some m) :
    l.length ≤ 2 * l.countP (· ≤ m) ∧ l.length ≤ 2 * l.countP (m ≤ ·) := by
  have hperm : (l.insertionSort (· ≤ ·)).Perm l := l.perm_insertionSort _
  have hsorted : (l.insertionSort (· ≤ ·)).Pairwise (· ≤ ·) := l.pairwise_insertionSort _
  have hmiddle : median (l.insertionSort (· ≤ ·)) = some m := by
    unfold median at hm ⊢
    rwa [hsorted.insertionSort_eq, hperm.length_eq]
  rw [← hperm.length_eq, ← hperm.countP_eq, ← hperm.countP_eq]
  obtain ⟨before, after, hs, hlength⟩ | ⟨a, b, before, after, hs, hlength, rfl⟩ :=
    exists_middle hsorted hmiddle
  · rw [hs] at hsorted ⊢
    obtain ⟨-, hafter, hbefore⟩ := List.pairwise_append.mp hsorted
    have hle : ∀ x ∈ before, x ≤ m := fun x hx => hbefore x hx m List.mem_cons_self
    have hge : ∀ x ∈ after, m ≤ x := (List.pairwise_cons.mp hafter).1
    have hright := (countP_of_split hle (List.forall_mem_cons.mpr ⟨le_refl m, hge⟩)).2
    have hle' : ∀ x ∈ before ++ [m], x ≤ m :=
      List.forall_mem_append.mpr ⟨hle, fun x hx => (List.mem_singleton.mp hx).le⟩
    have hleft := (countP_of_split hle' hge).1
    rw [List.append_assoc, List.singleton_append] at hleft
    simp only [List.length_append, List.length_cons, List.length_nil] at hleft hright ⊢
    omega
  · rw [hs] at hsorted ⊢
    obtain ⟨-, hafter, hbefore⟩ := List.pairwise_append.mp hsorted
    obtain ⟨ha, hafter⟩ := List.pairwise_cons.mp hafter
    have hab : a ≤ b := ha b List.mem_cons_self
    have hle : ∀ x ∈ before ++ [a], x ≤ (a + b) / 2 := by
      intro x hx
      have hxa : x ≤ a := by
        rcases List.mem_append.mp hx with hx | hx
        · exact hbefore x hx a List.mem_cons_self
        · exact (List.mem_singleton.mp hx).le
      linarith
    have hge : ∀ x ∈ b :: after, (a + b) / 2 ≤ x := by
      intro x hx
      have hbx : b ≤ x := by
        rcases List.mem_cons.mp hx with rfl | hx
        · exact le_refl x
        · exact (List.pairwise_cons.mp hafter).1 x hx
      linarith
    obtain ⟨hleft, hright⟩ := countP_of_split hle hge
    rw [List.append_assoc, List.singleton_append] at hleft hright
    simp only [List.length_append, List.length_cons, List.length_nil] at hleft hright ⊢
    omega

theorem median_mem_Icc (h : ∀ a ∈ l, a ∈ Set.Icc low high) (hm : median l = some m) :
    m ∈ Set.Icc low high := by
  obtain ⟨hbelow, habove⟩ := median_splits hm
  have hl : 0 < l.length := by
    rw [List.length_pos_iff]
    rintro rfl
    cases hm
  obtain ⟨a, ha, ham⟩ := List.countP_pos_iff.mp (by omega : 0 < l.countP (· ≤ m))
  obtain ⟨b, hb, hmb⟩ := List.countP_pos_iff.mp (by omega : 0 < l.countP (m ≤ ·))
  exact ⟨(h a ha).1.trans (of_decide_eq_true ham), (of_decide_eq_true hmb).trans (h b hb).2⟩

end TTCEvaluation.Tables
