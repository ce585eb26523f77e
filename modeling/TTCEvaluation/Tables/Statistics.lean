import Mathlib.Algebra.BigOperators.Group.List.Basic
import Mathlib.Algebra.Order.Field.Basic
import Mathlib.Data.List.Sort
import Mathlib.Data.Rat.Cast.Order
import Mathlib.Tactic.Linarith
import Mathlib.Tactic.Ring

/-!
# Statistics of a column

The exact mean and median of a list of rationals; both are missing for the empty
list.  One more value moves the mean towards itself.
-/

namespace TTCEvaluation.Tables

def mean (l : List ℚ) : Option ℚ := if l = [] then none else some (l.sum / l.length)

/-- The middle value, or the mean of the two middle values. -/
def median (l : List ℚ) : Option ℚ :=
  let sorted := l.insertionSort (· ≤ ·)
  let middle := l.length / 2
  if l.length % 2 = 1 then sorted[middle]?
  else mean ((sorted.drop (middle - 1)).take 2)

theorem mean_of_ne_nil {l : List ℚ} (hl : l ≠ []) : mean l = some (l.sum / l.length) := if_neg hl

theorem mean_insert {l₁ l₂ : List ℚ} {m : ℚ} (hm : mean (l₁ ++ l₂) = some m) (x : ℚ) :
    mean (l₁ ++ x :: l₂) =
      some (((l₁ ++ l₂).length * m + x) / ((l₁ ++ l₂).length + 1)) := by
  have hl : l₁ ++ l₂ ≠ [] := by
    intro hnil
    rw [hnil, mean, if_pos rfl] at hm
    cases hm
  have hlength : ((l₁ ++ l₂).length : ℚ) ≠ 0 := by
    simpa only [ne_eq, Nat.cast_eq_zero, List.length_eq_zero_iff] using hl
  rw [mean_of_ne_nil hl, Option.some.injEq] at hm
  have hsum : (l₁ ++ x :: l₂).sum = (l₁ ++ l₂).sum + x := by
    simp only [List.sum_append, List.sum_cons]
    ring
  have hcount : (l₁ ++ x :: l₂).length = (l₁ ++ l₂).length + 1 := by
    simp only [List.length_append, List.length_cons]
    omega
  rw [mean_of_ne_nil (by simp), hsum, hcount, ← hm, mul_div_cancel₀ _ hlength, Nat.cast_add,
    Nat.cast_one]

/-- Counting is summing ones. -/
theorem sum_map_boole {α R : Type*} [Semiring R] (p : α → Bool) (l : List α) :
    (l.map fun a => if p a then (1 : R) else 0).sum = l.countP p := by
  induction l with
  | nil => simp
  | cons a l ih =>
      rw [List.map_cons, List.sum_cons, ih, List.countP_cons, Nat.cast_add, add_comm]
      split_ifs <;> simp

/-- An error in each value adds up to at most as many errors in the sum. -/
theorem abs_sum_map_sub_le {α : Type*} {f g : α → ℚ} {ε : ℚ} {l : List α}
    (h : ∀ a ∈ l, |f a - g a| ≤ ε) : |(l.map f).sum - (l.map g).sum| ≤ l.length * ε := by
  induction l with
  | nil => simp
  | cons a l ih =>
      rw [List.forall_mem_cons] at h
      have hsplit : (List.map f (a :: l)).sum - (List.map g (a :: l)).sum =
          f a - g a + ((l.map f).sum - (l.map g).sum) := by
        rw [List.map_cons, List.map_cons, List.sum_cons, List.sum_cons]
        ring
      calc
        _ ≤ |f a - g a| + |(l.map f).sum - (l.map g).sum| := by
          rw [hsplit]
          exact abs_add_le _ _
        _ ≤ ε + l.length * ε := add_le_add h.1 (ih h.2)
        _ = (a :: l).length * ε := by
          rw [List.length_cons]
          push_cast
          ring

/-- The mean is off by no more than the values are. -/
theorem abs_mean_sub_le {α : Type*} {f g : α → ℚ} {ε : ℚ} {l : List α} (hl : l ≠ [])
    (h : ∀ a ∈ l, |f a - g a| ≤ ε) :
    |(l.map f).sum / l.length - (l.map g).sum / l.length| ≤ ε := by
  have hpos : (0 : ℚ) < l.length := by
    rw [Nat.cast_pos]
    exact List.length_pos_iff.mpr hl
  rw [← sub_div, abs_div, abs_of_pos hpos, div_le_iff₀ hpos, mul_comm]
  exact abs_sum_map_sub_le h

/-- Only the mean itself can be inserted without changing the mean. -/
theorem insert_mean_eq_iff {n : ℕ} {m x : ℚ} : (n * m + x) / (n + 1) = m ↔ m = x := by
  have hn : (n : ℚ) + 1 ≠ 0 := by positivity
  rw [div_eq_iff hn]
  constructor
  · intro h
    linarith
  · rintro rfl
    ring

end TTCEvaluation.Tables
