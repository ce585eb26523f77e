import TTCEvaluation.Tables.TopRows
import Mathlib.Algebra.BigOperators.Group.List.Lemmas
import Mathlib.Algebra.GroupWithZero.Nat

/-!
# Counting the values of a column

Each value that occurs is listed once with the number of its occurrences, the
most frequent value first.  The counts add up to the length of the column.
-/

namespace TTCEvaluation.Tables

variable {α : Type*} [DecidableEq α]

/-- `value_counts` of a column without missing cells. -/
def valueCounts (l : List α) : List (α × ℕ) :=
  sortValues Prod.snd false (l.eraseDups.map fun a => (a, l.count a))

theorem nodup_eraseDups (l : List α) : l.eraseDups.Nodup := by
  induction h : l.length using Nat.strong_induction_on generalizing l with
  | _ n ih =>
      cases l with
      | nil => simp
      | cons a l =>
          have hlt : (l.filter fun b => !b == a).length < n := by
            rw [← h, List.length_cons]
            exact Nat.lt_succ_of_le (List.length_filter_le _ _)
          rw [List.eraseDups_cons, List.nodup_cons]
          exact ⟨by simp, ih _ hlt _ rfl⟩

theorem perm_eraseDups (l : List α) : l.eraseDups.Perm l.dedup := by
  rw [List.perm_ext_iff_of_nodup (nodup_eraseDups l) (List.nodup_dedup l)]
  intro a
  rw [List.mem_eraseDups, List.mem_dedup]

theorem perm_valueCounts (l : List α) :
    (valueCounts l).Perm (l.dedup.map fun a => (a, l.count a)) :=
  (perm_stableSort _ _).trans ((perm_eraseDups l).map _)

theorem mem_valueCounts {l : List α} {a : α} {n : ℕ} :
    (a, n) ∈ valueCounts l ↔ 0 < n ∧ l.count a = n := by
  rw [(perm_valueCounts l).mem_iff, List.mem_map]
  constructor
  · rintro ⟨b, hb, heq⟩
    obtain ⟨rfl, rfl⟩ := Prod.mk.inj heq
    exact ⟨List.count_pos_iff.mpr (List.mem_dedup.mp hb), rfl⟩
  · rintro ⟨hpos, rfl⟩
    exact ⟨a, List.mem_dedup.mpr (List.count_pos_iff.mp hpos), rfl⟩

theorem nodup_valueCounts (l : List α) : ((valueCounts l).map Prod.fst).Nodup := by
  have hkeys : (l.dedup.map fun a => (a, l.count a)).map Prod.fst = l.dedup := by
    rw [List.map_map]
    exact List.map_id _
  rw [((perm_valueCounts l).map Prod.fst).nodup_iff, hkeys]
  exact List.nodup_dedup l

theorem sum_valueCounts (l : List α) : ((valueCounts l).map Prod.snd).sum = l.length := by
  rw [((perm_valueCounts l).map Prod.snd).sum_eq, List.map_map]
  exact List.sum_map_count_dedup_eq_length l

end TTCEvaluation.Tables
