import TTCEvaluation.Scoring.Rows

/-!
# The layout of a test

Normalisation deletes blanks, underscores and hyphens, and no other white
space.  So blanks never change a score, apart from the final form of a capital
sigma, while a line break inside a value loses it.
-/

namespace TTCEvaluation

open Segments

def withoutSpace (t : Text) : Text := t.filter fun c => !isSpace c

/-- The text with a line break behind every character. -/
def brokenUp (t : Text) : Text := t.flatMap fun c => [c, '\n']

variable {A : Arithmetic} {U : UnicodeData}

/-! ## Deleting before lower-casing -/

theorem filter_lowerChar (c : Char) :
    (U.lowerChar c).filter isKept = if isKept c then U.lowerChar c else [] := by
  have hdeleted {d : Char} (hd : isKept d = false) : isAscii d ∧ ¬d.isAlpha ∧ d.toLower = d := by
    simp only [isKept, Bool.and_eq_false_iff, decide_eq_false_iff_not, not_not] at hd
    rcases hd with (rfl | rfl) | rfl <;> decide
  split_ifs with hc
  · rw [List.filter_eq_self]
    intro d hd
    by_contra hkept
    obtain ⟨hascii, halpha, -⟩ := hdeleted (by simpa using hkept)
    exact hkept (UnicodeData.eq_of_mem_lowerChar hascii halpha hd ▸ hc)
  · obtain ⟨hascii, -, hlower⟩ := hdeleted (by simpa using hc)
    rw [U.lower_ascii c hascii, hlower]
    simpa using hc

theorem normalize_eq_flatMap {t : Text} (hsigma : 'Σ' ∉ t) :
    normalize U t = (t.filter isKept).flatMap U.lowerChar := by
  rw [normalize_eq_filter, UnicodeData.lower_of_no_sigma hsigma]
  clear hsigma
  induction t with
  | nil => rfl
  | cons c t ih =>
      rw [List.flatMap_cons, List.filter_append, ih, filter_lowerChar, List.filter_cons]
      split_ifs <;> simp

theorem normalize_congr {t t' : Text} (hsigma : 'Σ' ∉ t)
    (h : t.filter isKept = t'.filter isKept) : normalize U t = normalize U t' := by
  have hsigma' : 'Σ' ∉ t' := by
    intro hmem
    have hfilter : 'Σ' ∈ t'.filter isKept := List.mem_filter.mpr ⟨hmem, by decide⟩
    rw [← h] at hfilter
    exact hsigma (List.mem_of_mem_filter hfilter)
  rw [normalize_eq_flatMap hsigma, normalize_eq_flatMap hsigma', h]

/-! ## Texts with the same normal form -/

theorem containsValue_congr {t t' : Text} (h : normalize U t = normalize U t') :
    containsValue U t = containsValue U t' := by
  funext v
  simp only [containsValue, h]

theorem scoreExpectedValues_congr {t t' : Text} (h : normalize U t = normalize U t')
    (cell : Cell) : scoreExpectedValues A U t cell = scoreExpectedValues A U t' cell := by
  simp only [scoreExpectedValues, containsValue_congr h]

theorem testScores_congr {t t' : Text} (h : normalize U t = normalize U t')
    (row : GroundTruthRow) : testScores A U row t = testScores A U row t' := by
  simp only [testScores, techniqueScore, scoreExpectedValues_congr h]

/-- Blanks, underscores and hyphens of a test never change its scores. -/
theorem scores_of_respaced (A : Arithmetic) (U : UnicodeData) {t t' : Text} (hsigma : 'Σ' ∉ t)
    (h : t.filter isKept = t'.filter isKept) :
    (∀ cell, scoreExpectedValues A U t cell = scoreExpectedValues A U t' cell) ∧
      ∀ row, testScores A U row t = testScores A U row t' := by
  have hnormal := normalize_congr (U := U) hsigma h
  exact ⟨scoreExpectedValues_congr hnormal, testScores_congr hnormal⟩

theorem scores_of_respaced_sample :
    scoreExpectedValues .binary64 asciiData "f( 1 )".toList (some "1,2".toList) =
      scoreExpectedValues .binary64 asciiData "f(1)".toList (some "1,2".toList) :=
  (scores_of_respaced .binary64 asciiData (by decide) (by decide)).1 _

/-! ## Line breaks -/

theorem infix_broken {f : Char → Text} {w t : Text} (hne : w ≠ []) (hw : '\n' ∉ w)
    (h : w <:+: t.flatMap fun c => f c ++ ['\n']) : ∃ c ∈ t, w <:+: f c := by
  induction t with
  | nil =>
      rw [List.flatMap_nil, List.infix_nil] at h
      exact (hne h).elim
  | cons c t ih =>
      rw [List.flatMap_cons, List.append_assoc, List.singleton_append,
        infix_append_cons_iff hw] at h
      rcases h with h | h
      · exact ⟨c, List.mem_cons_self, h⟩
      · obtain ⟨d, hd, hinfix⟩ := ih h
        exact ⟨d, List.mem_cons_of_mem c hd, hinfix⟩

theorem normalize_brokenUp {t : Text} (hsigma : 'Σ' ∉ t) :
    normalize U (brokenUp t) =
      t.flatMap fun c => (if isKept c then U.lowerChar c else []) ++ ['\n'] := by
  have hbroken : 'Σ' ∉ brokenUp t := by
    simp only [brokenUp, List.mem_flatMap, not_exists, not_and]
    intro c hc hmem
    simp only [List.mem_cons, List.not_mem_nil, or_false] at hmem
    rcases hmem with rfl | hmem
    · exact hsigma hc
    · exact absurd hmem (by decide)
  have hnewline : U.lowerChar '\n' = ['\n'] := U.lower_ascii '\n' (by decide)
  have hkept : isKept '\n' := by decide
  rw [normalize_eq_flatMap hbroken, brokenUp]
  clear hsigma hbroken
  induction t with
  | nil => rfl
  | cons c t ih =>
      rw [List.flatMap_cons, List.filter_append, List.flatMap_append, ih, List.flatMap_cons]
      by_cases hc : isKept c
      · simp [hc, hkept, hnewline]
      · simp [hc, hkept, hnewline]

theorem length_lowerChar_lt {t : Text} {c : Char} (hc : c ∈ t) (htwo : 2 ≤ t.length) :
    (U.lowerChar c).length < (t.flatMap U.lowerChar).length := by
  obtain ⟨s, r, rfl⟩ := List.append_of_mem hc
  have hpos {x : Text} (hx : x ≠ []) : 0 < (x.flatMap U.lowerChar).length := by
    obtain ⟨d, x, rfl⟩ := List.exists_cons_of_ne_nil hx
    have hd := List.length_pos_iff.mpr (U.lower_ne_nil d)
    rw [List.flatMap_cons, List.length_append]
    omega
  rw [List.length_append, List.length_cons] at htwo
  rw [List.flatMap_append, List.flatMap_cons, List.length_append, List.length_append]
  by_cases hs : s = []
  · have hr := hpos (x := r) (by rintro rfl; simp [hs] at htwo)
    omega
  · have hs := hpos hs
    omega

/-- A value of two characters is lost when its quotation is broken up into lines. -/
theorem containsValue_brokenUp {v : Text} (hne : v ≠ []) (hstrip : strip v = v)
    (hna : U.upper v ∉ notAvailable) (hsigma : 'Σ' ∉ v) (hline : '\n' ∉ v)
    (htwo : 2 ≤ (v.filter isKept).length) :
    containsValue U v v ∧ ¬containsValue U (brokenUp v) v := by
  rw [containsValue_iff hne hstrip, containsValue_iff hne hstrip]
  refine ⟨⟨hna, List.infix_refl _⟩, ?_⟩
  rintro ⟨-, hinfix⟩
  have hnormal := normalize_eq_flatMap (U := U) hsigma
  have hnonempty : normalize U v ≠ [] := by
    obtain ⟨c, hc⟩ := List.exists_mem_of_length_pos (show 0 < (v.filter isKept).length by omega)
    have hlt := length_lowerChar_lt (U := U) hc htwo
    rw [hnormal, ← List.length_pos_iff]
    omega
  rw [normalize_brokenUp hsigma] at hinfix
  obtain ⟨c, hc, hinfix⟩ := infix_broken hnonempty (newline_not_mem_normalize hline) hinfix
  split_ifs at hinfix with hkept
  · -- the normal form is longer than that of any of its characters
    have hle := hinfix.length_le
    rw [hnormal] at hle
    have hlt := length_lowerChar_lt (U := U) (List.mem_filter.mpr ⟨hc, hkept⟩) htwo
    omega
  · exact hnonempty (List.infix_nil.mp hinfix)

/-- A line break loses the value that a test in one line covers, and a blank can change the form of
a sigma. -/
theorem white_space_changes_score :
    (withoutSpace "x=\n1".toList = withoutSpace "x=1".toList ∧
      scoreExpectedValues .exact asciiData "x=1".toList (some "x=1".toList) = (1, 1, 1) ∧
      scoreExpectedValues .exact asciiData "x=\n1".toList (some "x=1".toList) = (0, 0, 1)) ∧
    (withoutSpace "aΣ b".toList = withoutSpace "aΣb".toList ∧
      scoreExpectedValues .exact asciiData "aΣb".toList (some "aσb".toList) = (1, 1, 1) ∧
      scoreExpectedValues .exact asciiData "aΣ b".toList (some "aσb".toList) = (0, 0, 1)) := by
  decide +kernel

end TTCEvaluation
