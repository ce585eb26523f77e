import TTCEvaluation.Evaluation.Lookup
import TTCEvaluation.Tables.TopRows

/-!
# The highest and the lowest scores

Table 4.4 of stage 15 sorts the results of stage 09 in both directions and takes
five rows of each.  Either half is right by itself, but the two sorts do not
know of each other: a function that ties for a place in both is listed twice.
-/

namespace TTCEvaluation

open Tables

/-- A row of table 4.4. -/
structure TopBottomRow where
  functionId : Text
  functionName : Cell
  bvaScore : ℚ
  ecpScore : ℚ
  ttcScore : ℚ
deriving DecidableEq

def topBottomRow (row : TtcRow) : TopBottomRow where
  functionId := row.functionId
  functionName := row.functionName
  bvaScore := row.bvaScore
  ecpScore := row.ecpScore
  ttcScore := row.ttcScore

def highest (ttc : List TtcRow) : List TtcRow := (sortValues TtcRow.ttcScore false ttc).take 5

def lowest (ttc : List TtcRow) : List TtcRow := (sortValues TtcRow.ttcScore true ttc).take 5

/-- Table 4.4. -/
def topBottom (ttc : List TtcRow) : List TopBottomRow :=
  (highest ttc ++ lowest ttc).map topBottomRow

/-- Ten different functions of the table: five such that no other scores higher, and five such
that no other scores lower. -/
structure IsTopAndBottom (ttc top bottom : List TtcRow) : Prop where
  top_length : top.length = 5
  bottom_length : bottom.length = 5
  top_subset : top ⊆ ttc
  bottom_subset : bottom ⊆ ttc
  nodup : ((top ++ bottom).map TtcRow.functionId).Nodup
  top_highest : ∀ row ∈ ttc, row ∉ top → ∀ t ∈ top, row.ttcScore ≤ t.ttcScore
  bottom_lowest : ∀ row ∈ ttc, row ∉ bottom → ∀ b ∈ bottom, b.ttcScore ≤ row.ttcScore

/-- How many functions score strictly higher. -/
def scoringHigher (ttc : List TtcRow) (row : TtcRow) : ℕ :=
  ttc.countP (row.ttcScore < ·.ttcScore)

/-- How many functions score strictly lower. -/
def scoringLower (ttc : List TtcRow) (row : TtcRow) : ℕ :=
  ttc.countP (·.ttcScore < row.ttcScore)

variable {ttc : List TtcRow} {row : TtcRow}

/-! ## The two halves -/

theorem topRows_highest (ttc : List TtcRow) :
    TopRows (fun a b => b.ttcScore ≤ a.ttcScore) 5 ttc (highest ttc) :=
  let key (row : TtcRow) := OrderDual.toDual row.ttcScore
  topRows_take (perm_stableSort key ttc) (pairwise_stableSort key ttc) 5

theorem topRows_lowest (ttc : List TtcRow) :
    TopRows (fun a b => a.ttcScore ≤ b.ttcScore) 5 ttc (lowest ttc) :=
  topRows_take (perm_stableSort _ ttc) (pairwise_stableSort _ ttc) 5

theorem scoringHigher_lt_of_mem (h : row ∈ highest ttc) : scoringHigher ttc row < 5 :=
  countP_lt_of_mem_take_stableSort (fun r : TtcRow => OrderDual.toDual r.ttcScore) h

theorem scoringLower_lt_of_mem (h : row ∈ lowest ttc) : scoringLower ttc row < 5 :=
  countP_lt_of_mem_take_stableSort TtcRow.ttcScore h

/-- A function with fewer than five above it and fewer than five below it ties for both halves,
and both take the first function of its score. -/
theorem exists_mem_highest_and_lowest (hrow : row ∈ ttc) (hhigher : scoringHigher ttc row < 5)
    (hlower : scoringLower ttc row < 5) : ∃ first, first ∈ highest ttc ∧ first ∈ lowest ttc := by
  obtain ⟨top, htop, hfirst⟩ :=
    find?_mem_take_stableSort (fun r => OrderDual.toDual r.ttcScore) hrow hhigher
  obtain ⟨bottom, hbottom, hfirst'⟩ := find?_mem_take_stableSort TtcRow.ttcScore hrow hlower
  have heq : top = bottom := by
    simp only [OrderDual.toDual_inj] at hfirst
    rw [hfirst, Option.some.injEq] at hfirst'
    exact hfirst'
  exact ⟨top, htop, heq ▸ hbottom⟩

theorem disjoint_halves_iff :
    (highest ttc).Disjoint (lowest ttc) ↔
      ∀ row ∈ ttc, 5 ≤ scoringHigher ttc row ∨ 5 ≤ scoringLower ttc row := by
  constructor
  · intro hdisjoint row hrow
    by_contra! h
    obtain ⟨first, htop, hbottom⟩ := exists_mem_highest_and_lowest hrow h.1 h.2
    exact hdisjoint htop hbottom
  · intro h row htop hbottom
    have hhigher := scoringHigher_lt_of_mem htop
    have hlower := scoringLower_lt_of_mem hbottom
    have := h row ((topRows_highest ttc).subperm.subset htop)
    omega

/-! ## The table -/

theorem functionId_topBottom (ttc : List TtcRow) :
    (topBottom ttc).map TopBottomRow.functionId =
      (highest ttc ++ lowest ttc).map TtcRow.functionId :=
  List.map_map

theorem isTopAndBottom_halves (hid : (ttc.map TtcRow.functionId).Nodup) (hlength : 10 ≤ ttc.length)
    (hdisjoint : (highest ttc).Disjoint (lowest ttc)) :
    IsTopAndBottom ttc (highest ttc) (lowest ttc) := by
  have htop := topRows_highest ttc
  have hbottom := topRows_lowest ttc
  exact
    { top_length := by
        rw [htop.length_eq]
        omega
      bottom_length := by
        rw [hbottom.length_eq]
        omega
      top_subset := htop.subperm.subset
      bottom_subset := hbottom.subperm.subset
      nodup := by
        rw [List.map_append, List.nodup_append']
        refine ⟨htop.nodup_map hid, hbottom.nodup_map hid, fun id hid₁ hid₂ => ?_⟩
        obtain ⟨t, ht, rfl⟩ := List.mem_map.mp hid₁
        obtain ⟨b, hb, hsame⟩ := List.mem_map.mp hid₂
        have heq : b = t := List.inj_on_of_nodup_map hid (hbottom.subperm.subset hb)
          (htop.subperm.subset ht) hsame
        exact hdisjoint ht (heq ▸ hb)
      top_highest := fun row hrow hout t ht =>
        htop.before t ht row (List.mem_diff_of_mem hrow hout)
      bottom_lowest := fun row hrow hout b hb =>
        hbottom.before b hb row (List.mem_diff_of_mem hrow hout) }

theorem IsTopAndBottom.nodup_table {top bottom : List TtcRow} (h : IsTopAndBottom ttc top bottom)
    (htable : topBottom ttc = (top ++ bottom).map topBottomRow) :
    ((topBottom ttc).map TopBottomRow.functionId).Nodup := by
  rw [htable, List.map_map]
  exact h.nodup

/-- Table 4.4 lists ten different functions, five highest and five lowest, exactly if each function
has five scoring strictly higher or five scoring strictly lower. -/
theorem topBottom_correct_iff (hid : (ttc.map TtcRow.functionId).Nodup)
    (hlength : 10 ≤ ttc.length) :
    (∃ top bottom, topBottom ttc = (top ++ bottom).map topBottomRow ∧
        IsTopAndBottom ttc top bottom) ↔
      ∀ row ∈ ttc, 5 ≤ scoringHigher ttc row ∨ 5 ≤ scoringLower ttc row := by
  rw [← disjoint_halves_iff]
  constructor
  · rintro ⟨top, bottom, htable, hcorrect⟩
    have hnodup := hcorrect.nodup_table htable
    rw [functionId_topBottom] at hnodup
    exact List.disjoint_of_nodup_append (List.Nodup.of_map _ hnodup)
  · intro hdisjoint
    exact ⟨highest ttc, lowest ttc, rfl, isTopAndBottom_halves hid hlength hdisjoint⟩

def rankedTable : List TtcRow :=
  (List.range 10).map fun n =>
    { missingTest ⟨itemId n, none, none, none, none, none⟩ with ttcScore := n / 10 }

theorem topBottom_correct_ranked :
    ∃ top bottom, topBottom rankedTable = (top ++ bottom).map topBottomRow ∧
      IsTopAndBottom rankedTable top bottom :=
  (topBottom_correct_iff (by decide +kernel) (by decide +kernel)).mpr (by decide +kernel)

def untestedTruth : List GroundTruthRow :=
  (List.range 10).map fun n => ⟨itemId (n + 1), none, none, none, none, none⟩

/-- Ten functions without a test all score zero, and the table does not list ten of them. -/
theorem topBottom_untested :
    ∃ ttc, scoreTests Arithmetic.exact asciiData (TestDir.ofListing []) untestedTruth = .ok ttc ∧
      10 ≤ ttc.length ∧ (ttc.map TtcRow.functionId).Nodup ∧
      ¬∃ top bottom, topBottom ttc = (top ++ bottom).map topBottomRow ∧
        IsTopAndBottom ttc top bottom := by
  refine ⟨_, rfl, by decide +kernel, by decide +kernel, ?_⟩
  rintro ⟨top, bottom, htable, hcorrect⟩
  have hnodup := hcorrect.nodup_table htable
  revert hnodup
  decide +kernel

end TTCEvaluation
