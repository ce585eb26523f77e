import Mathlib.Algebra.BigOperators.Ring.Finset
import Mathlib.Algebra.Order.Ring.Nat

/-!
# Shares of a list

The share of an element is how often it occurs, out of a given total.  Along a
relation that a rank decreases, the shares of all down-sets determine the
shares of the elements.
-/

namespace TTCEvaluation.Shares

variable {α : Type*} [DecidableEq α]

/-- Every element is the same part of `n₁` in the first list as of `n₂` in the second. -/
def SameShares (k₁ k₂ : List α) (n₁ n₂ : ℕ) : Prop := ∀ a, k₁.count a * n₂ = k₂.count a * n₁

variable {k₁ k₂ : List α} {n₁ n₂ : ℕ}

theorem sameShares_of_perm (h : k₁.Perm k₂) (n : ℕ) : SameShares k₁ k₂ n n := by
  intro a
  rw [h.count_eq]

theorem sum_count_eq_countP {k : List α} {s : Finset α} (p : α → Bool) (hk : ∀ a ∈ k, a ∈ s) :
    ∑ a ∈ s with p a, k.count a = k.countP p := by
  have hfilter : ∀ a ∈ (k.filter p : Multiset α), a ∈ s.filter (fun a => p a) := by
    intro a ha
    rw [Multiset.mem_coe, List.mem_filter] at ha
    exact Finset.mem_filter.mpr ⟨hk a ha.1, ha.2⟩
  rw [List.countP_eq_length_filter, ← Multiset.coe_card, ← Multiset.sum_count_eq_card hfilter]
  apply Finset.sum_congr rfl
  intro a ha
  rw [Multiset.coe_count, List.count_filter (Finset.mem_filter.mp ha).2]

/-- Shares add up. -/
theorem countP_mul_eq {p : α → Bool} (h : ∀ a, p a → k₁.count a * n₂ = k₂.count a * n₁) :
    k₁.countP p * n₂ = k₂.countP p * n₁ := by
  have hleft : ∀ a ∈ k₁, a ∈ (k₁ ++ k₂).toFinset := by
    intro a ha
    simp [ha]
  have hright : ∀ a ∈ k₂, a ∈ (k₁ ++ k₂).toFinset := by
    intro a ha
    simp [ha]
  rw [← sum_count_eq_countP p hleft, ← sum_count_eq_countP p hright, Finset.sum_mul,
    Finset.sum_mul]
  apply Finset.sum_congr rfl
  intro a ha
  exact h a (Finset.mem_filter.mp ha).2

section

variable {r : α → α → Bool} (hrefl : ∀ a, r a a) (rank : α → ℕ)
  (hrank : ∀ a b, r a b → a ≠ b → rank a < rank b)

include hrefl in
theorem countP_eq_count_add (k : List α) (b : α) :
    k.countP (r · b) = k.count b + k.countP (fun a => r a b && a ≠ b) := by
  induction k with
  | nil => rfl
  | cons a k ih =>
      rw [List.countP_cons, List.countP_cons, List.count_cons, ih]
      by_cases hab : a = b
      · subst hab
        simp [hrefl, Nat.add_right_comm]
      · simp [hab, Nat.add_assoc]

include hrefl hrank in
/-- Down-sets with the same shares have elements with the same shares. -/
theorem sameShares_iff_countP (hmem : ∀ a, a ∈ k₁ ↔ a ∈ k₂) :
    SameShares k₁ k₂ n₁ n₂ ↔
      ∀ b ∈ k₁, k₁.countP (r · b) * n₂ = k₂.countP (r · b) * n₁ := by
  constructor
  · intro h b _
    exact countP_mul_eq fun a _ => h a
  · intro h b
    induction hn : rank b using Nat.strong_induction_on generalizing b with
    | _ n ih =>
      by_cases hb : b ∈ k₁
      · -- the smaller elements have the same share by induction
        have hsmaller : k₁.countP (fun a => r a b && a ≠ b) * n₂ =
            k₂.countP (fun a => r a b && a ≠ b) * n₁ := by
          apply countP_mul_eq
          intro a ha
          simp only [Bool.and_eq_true, decide_eq_true_eq] at ha
          exact ih (rank a) (hn ▸ hrank a b ha.1 ha.2) a rfl
        have hdown := h b hb
        rw [countP_eq_count_add hrefl, countP_eq_count_add hrefl, add_mul, add_mul,
          hsmaller] at hdown
        exact Nat.add_right_cancel hdown
      · have hb' : b ∉ k₂ := fun hmem' => hb ((hmem b).mpr hmem')
        rw [List.count_eq_zero_of_not_mem hb, List.count_eq_zero_of_not_mem hb', zero_mul,
          zero_mul]

end

end TTCEvaluation.Shares
