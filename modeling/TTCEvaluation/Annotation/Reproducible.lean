import TTCEvaluation.Annotation.Preannotation

/-!
# The order in which a set is enumerated

The constants are sorted by value, and a stable sort keeps constants of equal
value in the order in which their set is enumerated.
-/

namespace TTCEvaluation

open Pattern

namespace SetOrder

/-- The elements other than `w` follow it. -/
def startingWith (w : Text) : SetOrder where
  enum l := l.dedup.filter (· = w) ++ l.dedup.filter fun v => !decide (v = w)
  perm _ := List.filter_append_perm _ _

/-- The elements other than `w` precede it. -/
def endingWith (w : Text) : SetOrder where
  enum l := l.dedup.filter (fun v => !decide (v = w)) ++ l.dedup.filter (· = w)
  perm _ := List.perm_append_comm.trans (List.filter_append_perm _ _)

theorem filter_eq_singleton {w : Text} {l : List Text} (h : w ∈ l) :
    l.dedup.filter (· = w) = [w] := by
  rw [List.filter_eq, List.count_eq_one_of_mem l.nodup_dedup (List.mem_dedup.mpr h)]
  rfl

theorem startingWith_enum {w : Text} {l : List Text} (h : w ∈ l) :
    (startingWith w).enum l = w :: l.dedup.filter fun v => !decide (v = w) := by
  simp [startingWith, filter_eq_singleton h]

theorem endingWith_enum {w : Text} {l : List Text} (h : w ∈ l) :
    (endingWith w).enum l = (l.dedup.filter fun v => !decide (v = w)) ++ [w] := by
  simp [endingWith, filter_eq_singleton h]

end SetOrder

variable {U : UnicodeData} {order order' : SetOrder} {code a b : Text}

/-- The matched texts, in the order of the scan. -/
def matchedConstants (U : UnicodeData) (code : Text) : List Text :=
  findAll (constantPattern U).whole code

theorem pairwise_extractNumericConstants :
    (extractNumericConstants U order code).Pairwise fun a b => float U a ≤ float U b := by
  have : Std.Total fun a b : Text => float U a ≤ float U b := ⟨fun a b => le_total _ _⟩
  have : IsTrans Text fun a b => float U a ≤ float U b := ⟨fun a b c hab hbc => hab.trans hbc⟩
  exact List.pairwise_insertionSort _ _

theorem perm_extractNumericConstants :
    (extractNumericConstants U order code).Perm (matchedConstants U code).dedup :=
  (List.perm_insertionSort _ _).trans (order.perm _)

theorem nodup_extractNumericConstants : (extractNumericConstants U order code).Nodup :=
  perm_extractNumericConstants.nodup_iff.mpr (List.nodup_dedup _)

theorem not_pair_sublist_swap {α : Type*} {l : List α} {a b : α} (hl : l.Nodup)
    (hab : List.Sublist [a, b] l) : ¬List.Sublist [b, a] l := by
  intro hba
  obtain ⟨s, t, rfl, ha, hb⟩ := List.cons_sublist_iff.mp hab
  obtain ⟨s', t', heq, hb', ha'⟩ := List.cons_sublist_iff.mp hba
  rw [List.singleton_sublist] at hb ha'
  have hdisjoint := List.disjoint_of_nodup_append hl
  rcases List.append_eq_append_iff.mp heq with ⟨x, -, rfl⟩ | ⟨x, rfl, -⟩
  · exact hdisjoint ha (List.mem_append_right x ha')
  · exact hdisjoint (List.mem_append_left x hb') hb

/-- Of two constants of equal value the one enumerated first stays first. -/
theorem pair_sublist_of_startingWith (ha : a ∈ matchedConstants U code)
    (hb : b ∈ matchedConstants U code) (hne : a ≠ b) (h : float U a = float U b) :
    List.Sublist [a, b] (extractNumericConstants U (.startingWith a) code) := by
  apply List.pair_sublist_insertionSort (r := fun a b => float U a ≤ float U b) h.le
  change List.Sublist [a, b] ((SetOrder.startingWith a).enum (matchedConstants U code))
  rw [SetOrder.startingWith_enum ha, List.cons_sublist_cons, List.singleton_sublist,
    List.mem_filter]
  exact ⟨List.mem_dedup.mpr hb, by simpa using hne.symm⟩

/-- The list of constants and the row do not depend on the order of enumeration exactly when
no two different spellings among the constants have equal value. -/
theorem preannotate_reproducible_iff (U : UnicodeData) (code : Text) (row : AnnotationRow) :
    (∀ order order', extractNumericConstants U order code = extractNumericConstants U order' code ∧
        preannotate U order code row = preannotate U order' code row) ↔
      ∀ a ∈ matchedConstants U code, ∀ b ∈ matchedConstants U code,
        float U a = float U b → a = b := by
  constructor
  · intro h a ha b hb hab
    by_contra hne
    have hfirst := pair_sublist_of_startingWith ha hb hne hab
    have hsecond := pair_sublist_of_startingWith hb ha (Ne.symm hne) hab.symm
    rw [(h (.startingWith b) (.startingWith a)).1] at hsecond
    exact not_pair_sublist_swap nodup_extractNumericConstants hfirst hsecond
  · intro h order order'
    have hlist : extractNumericConstants U order code =
        extractNumericConstants U order' code := by
      refine List.Perm.eq_of_pairwise ?_ pairwise_extractNumericConstants
        pairwise_extractNumericConstants
        (perm_extractNumericConstants.trans perm_extractNumericConstants.symm)
      intro a b ha hb hab hba
      exact h a (mem_extractNumericConstants.mp ha) b (mem_extractNumericConstants.mp hb)
        (hab.antisymm hba)
    exact ⟨hlist, by rw [preannotate, preannotate, hlist]⟩

/-- Two spellings of one number change places with the order of enumeration. -/
theorem constants_of_equal_value_swap :
    ¬∀ (U : UnicodeData) (code : Text) (row : AnnotationRow) (order order' : SetOrder),
      extractNumericConstants U order code = extractNumericConstants U order' code ∧
        preannotate U order code row = preannotate U order' code row := by
  intro h
  have hvalue : float asciiData "1".toList = float asciiData "1.0".toList := by
    unfold float
    congr 1
    decide +kernel
  have hone : "1".toList ∈ matchedConstants asciiData "x == 1 || y == 1.0".toList := by decide
  have hpoint : "1.0".toList ∈ matchedConstants asciiData "x == 1 || y == 1.0".toList := by decide
  have hfirst := pair_sublist_of_startingWith hone hpoint (by decide) hvalue
  have hsecond := pair_sublist_of_startingWith hpoint hone (by decide) hvalue.symm
  rw [(h asciiData _ (templateRow [] none []) (.startingWith "1.0".toList)
    (.startingWith "1".toList)).1] at hsecond
  exact not_pair_sublist_swap nodup_extractNumericConstants hfirst hsecond

end TTCEvaluation
