import Mathlib.Algebra.Order.BigOperators.Group.List
import Mathlib.Algebra.Order.Ring.Nat
import Mathlib.Data.List.Nodup
import Mathlib.Tactic.Common

/-!
# Keyed tables

A table is a list of rows.  Where the keys are pairwise distinct, the rows with
a key are the first one or none, whatever the order of the table, and a left
join adds to each row of the left table its one partner.
-/

namespace TTCEvaluation.Tables

variable {α β γ κ : Type*} [DecidableEq κ]

/-- The relational left join: rows and matches in the order of the tables, `none` where there is no
match. -/
def leftJoin (ka : α → κ) (kb : β → κ) (left : List α) (right : List β) : List (α × Option β) :=
  left.flatMap fun a =>
    match right.filter (kb · = ka a) with
    | [] => [(a, none)]
    | matched => matched.map fun b => (a, some b)

/-! ## Looking up a key -/

theorem filter_key_eq {key : α → κ} {l : List α} (hl : (l.map key).Nodup) (k : κ) :
    l.filter (key · = k) = (l.find? (key · = k)).toList := by
  induction l with
  | nil => rfl
  | cons a l ih =>
      rw [List.map_cons, List.nodup_cons] at hl
      by_cases ha : key a = k
      · have hrest : l.filter (key · = k) = [] := by
          refine List.filter_eq_nil_iff.mpr fun b hb hkey => hl.1 ?_
          rw [ha, ← of_decide_eq_true hkey]
          exact List.mem_map_of_mem hb
        rw [List.filter_cons_of_pos (by simpa using ha), List.find?_cons_of_pos (by simpa using ha),
          hrest]
        rfl
      · rw [List.filter_cons_of_neg (by simpa using ha), List.find?_cons_of_neg (by simpa using ha),
          ih hl.2]

theorem find?_key_eq_some_iff {key : α → κ} {l : List α} (hl : (l.map key).Nodup) {k : κ} {a : α} :
    l.find? (key · = k) = some a ↔ a ∈ l ∧ key a = k := by
  have hmem : a ∈ l.filter (key · = k) ↔ a ∈ l ∧ key a = k := by simp
  rw [← hmem, filter_key_eq hl, Option.mem_toList]

theorem leftJoin_eq_map {ka : α → κ} {kb : β → κ} (left : List α) {right : List β}
    (hright : (right.map kb).Nodup) :
    leftJoin ka kb left right = left.map fun a => (a, right.find? (kb · = ka a)) := by
  rw [leftJoin, List.map_eq_flatMap]
  apply List.flatMap_congr
  intro a _
  rw [filter_key_eq hright]
  cases right.find? (kb · = ka a) <;> rfl

/-- Two tables computed from the rows of one table with distinct keys are joined row by row. -/
theorem leftJoin_map_map {key : γ → κ} {base : List γ} (hbase : (base.map key).Nodup) {f : γ → α}
    {g : γ → β} {ka : α → κ} {kb : β → κ} (hf : ∀ x, ka (f x) = key x)
    (hg : ∀ x, kb (g x) = key x) :
    leftJoin ka kb (base.map f) (base.map g) = base.map fun x => (f x, some (g x)) := by
  have hkeys : (base.map g).map kb = base.map key := by
    rw [List.map_map]
    exact List.map_congr_left fun x _ => hg x
  have hright : ((base.map g).map kb).Nodup := hkeys ▸ hbase
  rw [leftJoin_eq_map _ hright, List.map_map]
  apply List.map_congr_left
  intro x hx
  have hfind : (base.map g).find? (kb · = ka (f x)) = some (g x) :=
    (find?_key_eq_some_iff hright).mpr ⟨List.mem_map_of_mem hx, (hg x).trans (hf x).symm⟩
  rw [Function.comp_apply, hfind]

/-- A join only has rows of the left table. -/
theorem mem_of_mem_leftJoin {ka : α → κ} {kb : β → κ} {left : List α} {right : List β}
    {p : α × Option β} (h : p ∈ leftJoin ka kb left right) : p.1 ∈ left := by
  obtain ⟨a, ha, hp⟩ := List.mem_flatMap.mp h
  split at hp
  · rwa [List.mem_singleton.mp hp]
  · obtain ⟨b, -, rfl⟩ := List.mem_map.mp hp
    exact ha

/-- A join has every row of the left table. -/
theorem exists_mem_leftJoin {ka : α → κ} {kb : β → κ} {left : List α} (right : List β) {a : α}
    (ha : a ∈ left) : ∃ b, (a, b) ∈ leftJoin ka kb left right := by
  cases hmatched : right.filter (kb · = ka a) with
  | nil =>
      refine ⟨none, List.mem_flatMap.mpr ⟨a, ha, ?_⟩⟩
      rw [hmatched]
      exact List.mem_singleton_self _
  | cons b rest =>
      refine ⟨some b, List.mem_flatMap.mpr ⟨a, ha, ?_⟩⟩
      rw [hmatched]
      exact List.mem_cons_self

/-- In general each row is joined with all rows of its key. -/
theorem length_leftJoin_map_map {key : γ → κ} (base : List γ) {f : γ → α} {g : γ → β}
    {ka : α → κ} {kb : β → κ} (hf : ∀ x, ka (f x) = key x) (hg : ∀ x, kb (g x) = key x) :
    (leftJoin ka kb (base.map f) (base.map g)).length =
      (base.map fun x => base.countP (key · = key x)).sum := by
  rw [leftJoin, List.length_flatMap, List.map_map]
  congr 1
  apply List.map_congr_left
  intro x hx
  have hmatched : ((base.map g).filter (kb · = ka (f x))).length =
      base.countP (key · = key x) := by
    rw [← List.countP_eq_length_filter, List.countP_map]
    exact List.countP_congr fun y _ => by simp [hf, hg]
  have hpos : 0 < base.countP (key · = key x) :=
    List.countP_pos_iff.mpr ⟨x, hx, decide_eq_true rfl⟩
  rw [Function.comp_apply]
  split
  · rename_i hnil
    rw [hnil, List.length_nil] at hmatched
    omega
  · rw [List.length_map]
    exact hmatched

theorem sum_countP_eq_length_iff {key : α → κ} {l : List α} :
    (l.map fun a => l.countP (key · = key a)).sum = l.length ↔ (l.map key).Nodup := by
  have hones : (l.map fun _ => 1).sum = l.length := by simp
  have hcount (a : α) : l.countP (key · = key a) = (l.map key).count (key a) := by
    rw [List.count_eq_countP, List.countP_map]
    exact List.countP_congr fun b _ => by simp
  simp only [hcount]
  constructor
  · intro hsum
    by_contra hdup
    rw [List.nodup_iff_count_le_one, not_forall] at hdup
    obtain ⟨k, hk⟩ := hdup
    have hmem : k ∈ l.map key := List.count_pos_iff.mp (by omega)
    obtain ⟨a, ha, rfl⟩ := List.mem_map.mp hmem
    have hlt := List.sum_lt_sum (fun _ => 1) (fun a => (l.map key).count (key a))
      (fun b hb => List.count_pos_iff.mpr (List.mem_map_of_mem hb)) ⟨a, ha, by omega⟩
    omega
  · intro hnodup
    rw [← hones]
    congr 1
    exact List.map_congr_left fun a ha =>
      List.count_eq_one_of_mem hnodup (List.mem_map_of_mem ha)

end TTCEvaluation.Tables
