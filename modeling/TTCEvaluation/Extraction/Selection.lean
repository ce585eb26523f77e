import TTCEvaluation.Extraction.Dataset
import TTCEvaluation.Tables.TopRows

/-!
# What the final selection selects

Stages 02 and 03 together pick the sixty best of the rows that score at least
seven.  Neither the order of the metadata nor the way ties are sorted changes
the scores and lengths of the selection.
-/

namespace TTCEvaluation

open Tables

/-- The pair that stage 02 sorts by. -/
def Candidate.sortKey (c : Candidate) : ℕ × ℕ := (c.selectionScore, c.row.codeLength)

def KeyBefore (p q : ℕ × ℕ) : Prop := q.1 < p.1 ∨ (q.1 = p.1 ∧ p.2 ≤ q.2)

instance : Std.Antisymm KeyBefore where
  antisymm p q hpq hqp := by
    unfold KeyBefore at hpq hqp
    exact Prod.ext (by omega) (by omega)

theorem before_iff_keyBefore {a b : Candidate} : a.Before b ↔ KeyBefore a.sortKey b.sortKey :=
  Iff.rfl

/-- The sixty best rows of the table, or all good ones, each with its score, the best first. -/
structure IsTopSelection (metadata : List MetadataRow) (final : List Candidate) : Prop where
  length_eq : final.length = min 60 (metadata.countP (7 ≤ scoreFunction ·))
  scored : ∀ c ∈ final, c.selectionScore = scoreFunction c.row ∧ 7 ≤ c.selectionScore
  rows : (final.map Candidate.row).Subperm metadata
  ordered : final.Pairwise Candidate.Before
  left_out : ∀ row ∈ metadata.diff (final.map Candidate.row), 7 ≤ scoreFunction row →
    ∀ c ∈ final, c.Before ⟨row, scoreFunction row⟩

variable {order order' : SortValues} {metadata metadata' : List MetadataRow}

theorem perm_rows_selectCandidates (order : SortValues) (metadata : List MetadataRow) :
    ((selectCandidates order metadata).map Candidate.row).Perm
      (metadata.filter (7 ≤ scoreFunction ·)) := by
  have hrows : ((metadata.map fun row => (⟨row, scoreFunction row⟩ : Candidate)).filter
      (7 ≤ ·.selectionScore)).map Candidate.row = metadata.filter (7 ≤ scoreFunction ·) := by
    rw [List.filter_map, List.map_map]
    exact List.map_id _
  rw [← hrows]
  exact (order.perm _).map Candidate.row

theorem perm_selectCandidates (order order' : SortValues) (h : metadata'.Perm metadata) :
    (selectCandidates order' metadata').Perm (selectCandidates order metadata) := by
  have hgood := (h.map fun row => (⟨row, scoreFunction row⟩ : Candidate)).filter
    (7 ≤ ·.selectionScore)
  exact (order'.perm _).trans (hgood.trans (order.perm _).symm)

/-- The rows of the final selection are the first of the good rows. -/
theorem topRows_selectCandidates (order : SortValues) (metadata : List MetadataRow) :
    TopRows (fun a b => Candidate.Before ⟨a, scoreFunction a⟩ ⟨b, scoreFunction b⟩) 60
      (metadata.filter (7 ≤ scoreFunction ·))
      (((selectCandidates order metadata).take 60).map Candidate.row) := by
  rw [List.map_take]
  refine topRows_take (perm_rows_selectCandidates order metadata) ?_ 60
  rw [List.pairwise_map]
  refine (order.sorted _).imp_of_mem fun {a b} ha hb hab => ?_
  have hscore := (selectionScore_of_mem_selectCandidates ha).2.1
  have hscore' := (selectionScore_of_mem_selectCandidates hb).2.1
  rwa [← hscore, ← hscore']

theorem isTopSelection_take (order : SortValues) (metadata : List MetadataRow) :
    IsTopSelection metadata ((selectCandidates order metadata).take 60) := by
  have htop := topRows_selectCandidates order metadata
  have hscored (c) (hc : c ∈ (selectCandidates order metadata).take 60) :=
    selectionScore_of_mem_selectCandidates (List.mem_of_mem_take hc)
  exact
    { length_eq := by simpa [List.countP_eq_length_filter] using htop.length_eq
      scored := fun c hc => (hscored c hc).2
      rows := htop.subperm.trans List.filter_sublist.subperm
      ordered := (order.sorted _).sublist (List.take_sublist 60 _)
      left_out := by
        intro row hrow hgood c hc
        have hbefore := htop.before c.row (List.mem_map_of_mem hc) row
          (mem_filter_diff hrow (by simpa using hgood))
        rwa [← (hscored c hc).2.1] at hbefore }

/-- Stages 02 and 03 select sixty best rows, and the order of the metadata does not change the
scores and lengths that they select. -/
theorem finalSelection_best (order : SortValues) (metadata : List MetadataRow)
    (files : Text → Option Text) :
    IsTopSelection metadata (createFinalDataset (selectCandidates order metadata) files).1 ∧
      ∀ (order' : SortValues) (metadata' : List MetadataRow) (files' : Text → Option Text),
        metadata'.Perm metadata →
          (createFinalDataset (selectCandidates order' metadata') files').1.map
              Candidate.sortKey =
            (createFinalDataset (selectCandidates order metadata) files).1.map
              Candidate.sortKey := by
  refine ⟨isTopSelection_take order metadata, fun order' metadata' files' h => ?_⟩
  have hkeys : (selectCandidates order' metadata').map Candidate.sortKey =
      (selectCandidates order metadata).map Candidate.sortKey :=
    map_eq_of_sorted (perm_selectCandidates order order' h)
      ((order'.sorted _).imp before_iff_keyBefore.mp) ((order.sorted _).imp before_iff_keyBefore.mp)
  change ((selectCandidates order' metadata').take 60).map Candidate.sortKey =
    ((selectCandidates order metadata).take 60).map Candidate.sortKey
  rw [List.map_take, List.map_take, hkeys]

theorem mem_take_selectCandidates_iff {c : Candidate} (hscore : c.selectionScore = scoreFunction c.row) :
    c ∈ (selectCandidates order metadata).take 60 ↔
      c.row ∈ ((selectCandidates order metadata).take 60).map Candidate.row := by
  refine ⟨List.mem_map_of_mem, fun h => ?_⟩
  obtain ⟨d, hd, hrow⟩ := List.mem_map.mp h
  have hscore' := (selectionScore_of_mem_selectCandidates (List.mem_of_mem_take hd)).2.1
  have heq : d = c := by
    cases c
    cases d
    simp_all
  exact heq ▸ hd

/-- With more rows, a row that was not selected is selected only by a tie with one that was and no
longer is. -/
theorem mem_or_displaced (hnodup : metadata.Nodup) (hnodup' : metadata'.Nodup)
    (hsub : metadata ⊆ metadata') {c : Candidate}
    (hc : c ∈ (selectCandidates order' metadata').take 60) (hrow : c.row ∈ metadata) :
    c ∈ (selectCandidates order metadata).take 60 ∨
      ∃ d ∈ (selectCandidates order metadata).take 60,
        d ∉ (selectCandidates order' metadata').take 60 ∧ d.sortKey = c.sortKey := by
  obtain ⟨-, hscore, hgood⟩ := selectionScore_of_mem_selectCandidates (List.mem_of_mem_take hc)
  have hgood' : 7 ≤ scoreFunction c.row := hscore ▸ hgood
  rcases (topRows_selectCandidates order metadata).mem_or_tie
    (topRows_selectCandidates order' metadata') (hnodup.filter _) (hnodup'.filter _)
    (List.filter_subset _ hsub) (List.mem_filter.mpr ⟨hrow, by simpa using hgood'⟩)
    (List.mem_map_of_mem hc) with hmem | ⟨row, hmem, hnot, hbefore, hafter⟩
  · exact Or.inl ((mem_take_selectCandidates_iff hscore).mpr hmem)
  · obtain ⟨d, hd, rfl⟩ := List.mem_map.mp hmem
    have hscore' := (selectionScore_of_mem_selectCandidates (List.mem_of_mem_take hd)).2.1
    refine Or.inr ⟨d, hd, fun hd' => hnot (List.mem_map_of_mem hd'), ?_⟩
    have hkey := Std.Antisymm.antisymm _ _ (before_iff_keyBefore.mp hbefore)
      (before_iff_keyBefore.mp hafter)
    unfold Candidate.sortKey at hkey ⊢
    rwa [hscore, hscore']

end TTCEvaluation
