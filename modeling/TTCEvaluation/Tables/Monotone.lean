import TTCEvaluation.Tables.Statistics
import Mathlib.Algebra.Order.BigOperators.Group.List
import Mathlib.Data.List.Forall2

/-!
# Larger columns

If no value of a column falls, neither does its mean, its median, its least or
its greatest value: sorting keeps the columns comparable row by row.
-/

namespace TTCEvaluation.Tables

/-! ## Sorting -/

section

variable {α : Type*} [LinearOrder α]

theorem orderedInsert_eq_cons {a : α} {l : List α} (h : (a :: l).Pairwise (· ≤ ·)) :
    l.orderedInsert (· ≤ ·) a = a :: l := by
  cases l with
  | nil => rfl
  | cons b l => exact List.orderedInsert_cons_of_le _ l ((List.pairwise_cons.mp h).1 b (by simp))

theorem forall₂_orderedInsert {s s' : List α} (h : List.Forall₂ (· ≤ ·) s s')
    (hs : s.Pairwise (· ≤ ·)) (hs' : s'.Pairwise (· ≤ ·)) {a b : α} (hab : a ≤ b) :
    List.Forall₂ (· ≤ ·) (s.orderedInsert (· ≤ ·) a) (s'.orderedInsert (· ≤ ·) b) := by
  induction h generalizing a b with
  | nil => exact .cons hab .nil
  | @cons x y xs ys hxy hrest ih =>
      have htail {a b : α} (hab : a ≤ b) :
          List.Forall₂ (· ≤ ·) (xs.orderedInsert (· ≤ ·) a) (ys.orderedInsert (· ≤ ·) b) :=
        ih (List.pairwise_cons.mp hs).2 (List.pairwise_cons.mp hs').2 hab
      by_cases hax : a ≤ x <;> by_cases hby : b ≤ y
      · rw [List.orderedInsert_cons_of_le _ xs hax, List.orderedInsert_cons_of_le _ ys hby]
        exact .cons hab (.cons hxy hrest)
      · -- `y` moves up to `a`, and the inserted `b` stands against `x` or later
        rw [List.orderedInsert_cons_of_le _ xs hax, List.orderedInsert_of_not_le _ ys hby,
          ← orderedInsert_eq_cons hs]
        exact .cons (hax.trans hxy) (htail (hxy.trans (le_of_not_ge hby)))
      · rw [List.orderedInsert_of_not_le _ xs hax, List.orderedInsert_cons_of_le _ ys hby,
          ← orderedInsert_eq_cons hs']
        exact .cons ((le_of_not_ge hax).trans hab) (htail (hab.trans hby))
      · rw [List.orderedInsert_of_not_le _ xs hax, List.orderedInsert_of_not_le _ ys hby]
        exact .cons hxy (htail hab)

/-- Columns that are comparable row by row are so after each of them is sorted. -/
theorem forall₂_insertionSort {l l' : List α} (h : List.Forall₂ (· ≤ ·) l l') :
    List.Forall₂ (· ≤ ·) (l.insertionSort (· ≤ ·)) (l'.insertionSort (· ≤ ·)) := by
  induction h with
  | nil => exact .nil
  | cons hab _ ih =>
      exact forall₂_orderedInsert ih (List.pairwise_insertionSort _ _)
        (List.pairwise_insertionSort _ _) hab

end

/-! ## Rows of comparable columns -/

section

variable {α β : Type*} {R : α → β → Prop} {l : List α} {l' : List β}

theorem forall₂_getElem? (h : List.Forall₂ R l l') (k : ℕ) : Option.Rel R l[k]? l'[k]? := by
  induction h generalizing k with
  | nil => exact .none
  | cons hab _ ih =>
      cases k with
      | zero => exact .some hab
      | succ k => exact ih k

theorem exists_of_mem_left (h : List.Forall₂ R l l') {a : α} (ha : a ∈ l) : ∃ b ∈ l', R a b := by
  induction h with
  | nil => cases ha
  | @cons x y xs ys hxy _ ih =>
      rcases List.mem_cons.mp ha with rfl | ha
      · exact ⟨y, List.mem_cons_self, hxy⟩
      · obtain ⟨b, hb, hab⟩ := ih ha
        exact ⟨b, List.mem_cons_of_mem _ hb, hab⟩

theorem exists_of_mem_right (h : List.Forall₂ R l l') {b : β} (hb : b ∈ l') : ∃ a ∈ l, R a b :=
  exists_of_mem_left h.flip hb

end

/-! ## Statistics -/

variable {l l' : List ℚ}

theorem mean_mono (h : List.Forall₂ (· ≤ ·) l l') : Option.Rel (· ≤ ·) (mean l) (mean l') := by
  cases h with
  | nil => exact .none
  | cons hab hrest =>
      have hcons := List.Forall₂.cons hab hrest
      rw [mean_of_ne_nil (List.cons_ne_nil _ _), mean_of_ne_nil (List.cons_ne_nil _ _),
        hcons.length_eq]
      exact .some (div_le_div_of_nonneg_right hcons.sum_le_sum (Nat.cast_nonneg _))

theorem median_mono (h : List.Forall₂ (· ≤ ·) l l') :
    Option.Rel (· ≤ ·) (median l) (median l') := by
  have hsorted := forall₂_insertionSort h
  unfold median
  rw [← h.length_eq]
  dsimp only
  split_ifs
  · exact forall₂_getElem? hsorted _
  · exact mean_mono (List.forall₂_take _ (List.forall₂_drop _ hsorted))

theorem min_mono (h : List.Forall₂ (· ≤ ·) l l') : Option.Rel (· ≤ ·) l.min? l'.min? := by
  cases h with
  | nil => exact .none
  | @cons a b s s' hab hrest =>
      have hcons := List.Forall₂.cons hab hrest
      obtain ⟨m, hm⟩ := Option.isSome_iff_exists.mp
        (List.isSome_min?_of_ne_nil (List.cons_ne_nil a s))
      obtain ⟨m', hm'⟩ := Option.isSome_iff_exists.mp
        (List.isSome_min?_of_ne_nil (List.cons_ne_nil b s'))
      rw [hm, hm']
      obtain ⟨a, ha, hle⟩ := exists_of_mem_right hcons (List.min?_eq_some_iff.mp hm').1
      exact .some (((List.min?_eq_some_iff.mp hm).2 a ha).trans hle)

theorem max_mono (h : List.Forall₂ (· ≤ ·) l l') : Option.Rel (· ≤ ·) l.max? l'.max? := by
  cases h with
  | nil => exact .none
  | @cons a b s s' hab hrest =>
      have hcons := List.Forall₂.cons hab hrest
      obtain ⟨m, hm⟩ := Option.isSome_iff_exists.mp
        (List.isSome_max?_of_ne_nil (List.cons_ne_nil a s))
      obtain ⟨m', hm'⟩ := Option.isSome_iff_exists.mp
        (List.isSome_max?_of_ne_nil (List.cons_ne_nil b s'))
      rw [hm, hm']
      obtain ⟨b, hb, hle⟩ := exists_of_mem_left hcons (List.max?_eq_some_iff.mp hm).1
      exact .some (hle.trans ((List.max?_eq_some_iff.mp hm').2 b hb))

theorem rel_map {α β : Type*} [Preorder α] [Preorder β] {f : α → β} (hf : Monotone f)
    {x y : Option α} (h : Option.Rel (· ≤ ·) x y) : Option.Rel (· ≤ ·) (x.map f) (y.map f) := by
  cases h with
  | none => exact .none
  | some hle => exact .some (hf hle)

end TTCEvaluation.Tables
