import Mathlib.Data.List.Count
import Mathlib.Data.List.Sort
import Mathlib.Order.OrderDual

/-!
# The first rows of a sorted table

The first rows of a sorted table come before every row left out.  Which of the
rows that tie at the cut are taken is up to the sort, their keys are not.  A
stable sort takes the rows of one key in table order.
-/

namespace TTCEvaluation.Tables

variable {α β : Type*}

/-- A choice of `k` rows of the table, or of all of them, that come before every row left out. -/
structure TopRows [DecidableEq α] (R : α → α → Prop) (k : ℕ) (l top : List α) : Prop where
  length_eq : top.length = min k l.length
  subperm : top.Subperm l
  sorted : top.Pairwise R
  before : ∀ a ∈ top, ∀ b ∈ l.diff top, R a b

theorem append_diff_left [DecidableEq α] (l₁ l₂ : List α) : (l₁ ++ l₂).diff l₁ = l₂ := by
  induction l₁ with
  | nil => rfl
  | cons a l₁ ih => rw [List.cons_append, List.diff_cons, List.erase_cons_head, ih]

theorem mem_filter_diff [DecidableEq α] {p : α → Bool} {l l' : List α} {a : α} (ha : a ∈ l.diff l')
    (hp : p a) : a ∈ (l.filter p).diff l' := by
  rw [← List.count_pos_iff, List.count_diff] at ha ⊢
  rwa [List.count_filter hp]

theorem topRows_take [DecidableEq α] {R : α → α → Prop} {s l : List α} (hperm : s.Perm l)
    (hsorted : s.Pairwise R) (k : ℕ) : TopRows R k l (s.take k) where
  length_eq := by rw [List.length_take, hperm.length_eq]
  subperm := (List.take_sublist k s).subperm.trans hperm.subperm
  sorted := hsorted.sublist (List.take_sublist k s)
  before := by
    intro a ha b hb
    have hrest : (l.diff (s.take k)).Perm (s.drop k) := by
      have hdiff := hperm.symm.diff_right (s.take k)
      have hsplit := append_diff_left (s.take k) (s.drop k)
      rw [List.take_append_drop] at hsplit
      rwa [hsplit] at hdiff
    rw [← List.take_append_drop k s, List.pairwise_append] at hsorted
    exact hsorted.2.2 a ha b (hrest.mem_iff.mp hb)

theorem TopRows.nodup_map [DecidableEq α] {R : α → α → Prop} {k : ℕ} {l top : List α}
    (h : TopRows R k l top) {f : α → β} (hl : (l.map f).Nodup) : (top.map f).Nodup := by
  obtain ⟨top', hperm, hsub⟩ := h.subperm
  exact ((hsub.map f).nodup hl).perm (hperm.map f)

/-- In a larger table a row that was not among the first ones comes among them only by a tie: with
one of those that were, and no longer are. -/
theorem TopRows.mem_or_tie [DecidableEq α] {R : α → α → Prop} {k : ℕ} {l l' top top' : List α}
    (h : TopRows R k l top) (h' : TopRows R k l' top') (hl : l.Nodup) (hl' : l'.Nodup) (hsub : l ⊆ l')
    {a : α} (ha : a ∈ l) (ha' : a ∈ top') : a ∈ top ∨ ∃ b ∈ top, b ∉ top' ∧ R b a ∧ R a b := by
  by_cases hmem : a ∈ top
  · exact Or.inl hmem
  have hout : a ∈ l.diff top := hl.mem_sdiff_iff.mpr ⟨ha, hmem⟩
  have hnodup : (a :: top).Nodup :=
    List.nodup_cons.mpr ⟨hmem, by simpa using h.nodup_map (f := id) (by simpa using hl)⟩
  -- the first rows and `a` are too many
  have hlost : ∃ b ∈ top, b ∉ top' := by
    by_contra hall
    push Not at hall
    have hle : top.length + 1 ≤ top'.length :=
      (List.subperm_of_subset hnodup (List.cons_subset.mpr ⟨ha', hall⟩)).length_le
    have hlt : top.length + 1 ≤ l.length :=
      (List.subperm_of_subset hnodup (List.cons_subset.mpr ⟨ha, h.subperm.subset⟩)).length_le
    have hlength := h.length_eq
    have hlength' := h'.length_eq
    omega
  obtain ⟨b, hb, hnot⟩ := hlost
  have hout' : b ∈ l'.diff top' := hl'.mem_sdiff_iff.mpr ⟨hsub (h.subperm.subset hb), hnot⟩
  exact Or.inr ⟨b, hb, hnot, h.before b hb a hout, h'.before a ha' b hout'⟩

/-- The keys of a sorted table do not depend on the order of the rows before the sort. -/
theorem map_eq_of_sorted {r : β → β → Prop} [Std.Antisymm r] {key : α → β} {s s' : List α}
    (hperm : s.Perm s') (hs : s.Pairwise fun a b => r (key a) (key b))
    (hs' : s'.Pairwise fun a b => r (key a) (key b)) : s.map key = s'.map key :=
  (hperm.map key).eq_of_pairwise' (List.pairwise_map.mpr hs) (List.pairwise_map.mpr hs')

/-! ## Stable sorting -/

section

variable [LinearOrder β]

def stableSort (key : α → β) (l : List α) : List α :=
  l.insertionSort fun a b => key a ≤ key b

/-- `sort_values` by one key; rows with equal keys stay in table order in both directions. -/
def sortValues (key : α → β) (ascending : Bool) (l : List α) : List α :=
  if ascending then stableSort key l else stableSort (fun a => OrderDual.toDual (key a)) l

variable {key : α → β} {k : ℕ} {l s : List α} {a : α}

theorem perm_stableSort (key : α → β) (l : List α) : (stableSort key l).Perm l :=
  List.perm_insertionSort _ l

theorem pairwise_stableSort (key : α → β) (l : List α) :
    (stableSort key l).Pairwise fun a b => key a ≤ key b := by
  have : Std.Total fun a b : α => key a ≤ key b := ⟨fun a b => le_total _ _⟩
  have : IsTrans α fun a b => key a ≤ key b := ⟨fun a b c hab hbc => hab.trans hbc⟩
  exact List.pairwise_insertionSort _ l

theorem exists_stableSort_eq_cons (key : α → β) (hl : l ≠ []) :
    ∃ first rest, stableSort key l = first :: rest ∧ first ∈ l ∧ ∀ b ∈ l, key first ≤ key b := by
  have hperm := perm_stableSort key l
  have hsorted := pairwise_stableSort key l
  cases hs : stableSort key l with
  | nil =>
      rw [hs] at hperm
      exact absurd hperm.nil_eq.symm hl
  | cons first rest =>
      rw [hs] at hperm hsorted
      refine ⟨first, rest, rfl, hperm.mem_iff.mp List.mem_cons_self, fun b hb => ?_⟩
      rcases List.mem_cons.mp (hperm.mem_iff.mpr hb) with rfl | hrest
      · exact le_refl _
      · exact (List.pairwise_cons.mp hsorted).1 b hrest

/-- The rows of one key are not reordered. -/
theorem filter_stableSort (key : α → β) (v : β) (l : List α) :
    (stableSort key l).filter (key · = v) = l.filter (key · = v) := by
  have hequal : (l.filter (key · = v)).Pairwise fun a b => key a ≤ key b := by
    rw [List.pairwise_iff_forall_sublist]
    intro a b hab
    have hkey {c : α} (hc : c ∈ [a, b]) : key c = v := by
      simpa using List.of_mem_filter (hab.subset hc)
    rw [hkey (c := a) (by simp), hkey (c := b) (by simp)]
  have hsub := (List.sublist_insertionSort hequal List.filter_sublist).filter (key · = v)
  rw [List.filter_filter] at hsub
  simp only [Bool.and_self] at hsub
  exact (hsub.eq_of_length ((perm_stableSort key l).filter _).length_eq.symm).symm

/-- A list on which `p` holds up to some place is cut there by `p`. -/
theorem filter_append_filter_not {p : α → Prop} [DecidablePred p]
    (hs : s.Pairwise fun a b => p b → p a) : s.filter p ++ s.filter (¬p ·) = s := by
  induction s with
  | nil => rfl
  | cons a s ih =>
      rw [List.pairwise_cons] at hs
      by_cases ha : p a
      · rw [List.filter_cons_of_pos (by simpa using ha),
          List.filter_cons_of_neg (by simpa using ha), List.cons_append, ih hs.2]
      · have hnone : s.filter p = [] :=
          List.filter_eq_nil_iff.mpr fun b hb hpb => ha (hs.1 b hb (by simpa using hpb))
        have htail := ih hs.2
        rw [hnone, List.nil_append] at htail
        rw [List.filter_cons_of_neg (by simpa using ha), hnone, List.nil_append,
          List.filter_cons_of_pos (by simpa using ha), htail]

/-- A sorted table has the rows before a key, the rows of the key and the rows after it. -/
theorem filter_key_append (hs : s.Pairwise fun a b => key a ≤ key b) (v : β) :
    s.filter (key · < v) ++ (s.filter (key · = v) ++ s.filter (v < key ·)) = s := by
  have hle : (s.filter (¬key · < v)).Pairwise fun a b => key b ≤ v → key a ≤ v :=
    (hs.sublist List.filter_sublist).imp fun hab => hab.trans
  have hequal : (s.filter (¬key · < v)).filter (key · ≤ v) = s.filter (key · = v) := by
    rw [List.filter_filter]
    exact List.filter_congr fun a _ => by simp [le_antisymm_iff]
  have hafter : (s.filter (¬key · < v)).filter (¬key · ≤ v) = s.filter (v < key ·) := by
    rw [List.filter_filter]
    exact List.filter_congr fun a _ => by simpa using le_of_lt
  rw [← hequal, ← hafter, filter_append_filter_not hle]
  exact filter_append_filter_not (hs.imp fun hab => hab.trans_lt)

/-- A row among the first `k` has fewer than `k` rows strictly before it. -/
theorem countP_lt_of_mem_take_stableSort (key : α → β) (ha : a ∈ (stableSort key l).take k) :
    l.countP (key · < key a) < k := by
  by_contra! hk
  rw [← (perm_stableSort key l).countP_eq, List.countP_eq_length_filter] at hk
  rw [← filter_key_append (pairwise_stableSort key l) (key a),
    List.take_append_of_le_length hk] at ha
  have hlt := List.of_mem_filter (List.mem_of_mem_take ha)
  simp at hlt

/-- The first row of a key with fewer than `k` rows strictly before it is among the first `k`. -/
theorem find?_mem_take_stableSort (key : α → β) (ha : a ∈ l)
    (hk : l.countP (key · < key a) < k) :
    ∃ b ∈ (stableSort key l).take k, l.find? (key · = key a) = some b := by
  obtain ⟨b, hb⟩ : ∃ b, l.find? (key · = key a) = some b := by
    rw [← Option.isSome_iff_exists, List.find?_isSome]
    exact ⟨a, ha, by simp⟩
  refine ⟨b, ?_, hb⟩
  rw [← List.head?_filter, ← filter_stableSort, List.head?_eq_some_iff] at hb
  obtain ⟨rest, hrest⟩ := hb
  rw [← (perm_stableSort key l).countP_eq, List.countP_eq_length_filter] at hk
  rw [← filter_key_append (pairwise_stableSort key l) (key a), hrest, List.take_append,
    List.mem_append]
  obtain ⟨m, hm⟩ := Nat.exists_eq_add_of_lt hk
  have htake : k - (List.filter (key · < key a) (stableSort key l)).length = m + 1 := by omega
  rw [htake]
  exact Or.inr List.mem_cons_self

end

end TTCEvaluation.Tables
