import TTCEvaluation.Scoring.Values

/-!
# Crediting integer values

An integer value is credited when its digits occur in the test text with
nothing but blanks, underscores and hyphens between neighbours.  The sign of
the value and the characters around the occurrence play no part.
-/

namespace TTCEvaluation

open Segments UnicodeData

/-- A decimal integer as an expected value: an optional `-` and ASCII digits. -/
structure IntegerValue where
  negative : Bool
  digits : Text
  digits_ne_nil : digits ≠ []
  digits_ascii : ∀ c ∈ digits, isAsciiDigit c

namespace IntegerValue

def sign (v : IntegerValue) : Text := if v.negative then ['-'] else []

def text (v : IntegerValue) : Text := v.sign ++ v.digits

end IntegerValue

/-- `v` stands in `t` as a whole integer literal. -/
def OccursWhole (t : Text) (v : IntegerValue) : Prop :=
  ∃ before blanks after, t = before ++ v.sign ++ blanks ++ v.digits ++ after ∧
    (∀ c ∈ blanks, c = ' ') ∧
    (∀ c ∈ (before ++ v.sign ++ blanks).getLast?, ¬isWordChar c) ∧
    ∀ c ∈ after.head?, ¬isAsciiDigit c

/-- A stretch of `t` reads as the digits of `v` once blanks, underscores and hyphens are
deleted. -/
def ReadsDigits (t : Text) (v : IntegerValue) : Prop := ∃ m, m <:+: t ∧ m.filter isKept = v.digits

variable {U : UnicodeData}

theorem isKept_of_isAsciiDigit {c : Char} (h : isAsciiDigit c) : isKept c :=
  ascii_cases (P := fun c => isAsciiDigit c → isKept c) (by decide) (isAscii_of_isAsciiDigit h) h

/-- Kept characters other than digits: they interrupt a stretch of digits. -/
def isInterruption (c : Char) : Bool := isKept c && !isAsciiDigit c

theorem lowerBetween_of_uninterrupted {b t a : Text} (h : ∀ c ∈ t, isInterruption c = false) :
    U.lowerBetween b t a = t := by
  induction t generalizing b with
  | nil => rfl
  | cons c t ih =>
      have hc := h c List.mem_cons_self
      have hascii : isAscii c := by
        by_cases hd : isAsciiDigit c
        · exact isAscii_of_isAsciiDigit hd
        · have hdel : c = ' ' ∨ c = '_' ∨ c = '-' := by
            simpa [isInterruption, isKept, hd, or_iff_not_imp_left] using hc
          rcases hdel with rfl | rfl | rfl <;> rfl
      have hlow : c.toLower = c := by
        revert hc
        exact ascii_cases (P := fun c => isInterruption c = false → c.toLower = c) (by decide)
          hascii
      have hsigma : c ≠ 'Σ' := by
        rintro rfl
        exact absurd hascii (by decide)
      rw [lowerBetween, lowerAt, if_neg hsigma, U.lower_ascii c hascii, hlow,
        ih fun x hx => h x (List.mem_cons_of_mem _ hx), List.singleton_append]

theorem isInterruption_of_not_isAscii {c : Char} (h : ¬isAscii c) : isInterruption c := by
  have hdigit : isAsciiDigit c = false := by
    by_contra hd
    exact h (isAscii_of_isAsciiDigit (by simpa using hd))
  have hkept : isKept c := by
    by_contra hdel
    have hc : c = ' ' ∨ c = '_' ∨ c = '-' := by
      simpa [isKept, or_iff_not_imp_left] using hdel
    rcases hc with rfl | rfl | rfl <;> exact h rfl
  rw [isInterruption, hkept, hdigit]
  rfl

/-- Lower-casing turns interruptions into interruptions. -/
theorem isInterruption_of_mem_lowerAt {c d : Char} (hc : isInterruption c) {b a : Text}
    (h : d ∈ U.lowerAt b a c) : isInterruption d := by
  by_cases hd : isAscii d
  · unfold lowerAt at h
    split_ifs at h
    · rw [List.mem_singleton.mp h]
      decide
    · rw [List.mem_singleton.mp h]
      decide
    · by_cases hascii : isAscii c
      · rw [U.lower_ascii c hascii, List.mem_singleton] at h
        subst h
        revert hc
        exact ascii_cases (P := fun c => isInterruption c → isInterruption c.toLower) (by decide)
          hascii
      · have halpha := U.lower_foreign c hascii d h hd
        revert halpha
        exact ascii_cases (P := fun d => d.isAlpha → isInterruption d) (by decide) hd
  · exact isInterruption_of_not_isAscii hd

theorem lowerAt_ne_nil (b a : Text) (c : Char) : U.lowerAt b a c ≠ [] := by
  unfold lowerAt
  split_ifs
  · simp
  · simp
  · exact U.lower_ne_nil c

theorem lowerAt_of_interruption {c : Char} (hc : isInterruption c) (b a : Text) :
    (U.lowerAt b a c).filter isKept ≠ [] ∧
      ∀ d ∈ (U.lowerAt b a c).filter isKept, ¬isAsciiDigit d := by
  have hpiece : ∀ d ∈ U.lowerAt b a c, isKept d = true ∧ isAsciiDigit d = false := by
    intro d hd
    simpa [isInterruption] using isInterruption_of_mem_lowerAt hc hd
  have hfilter : (U.lowerAt b a c).filter isKept = U.lowerAt b a c := by
    rw [List.filter_eq_self]
    exact fun d hd => (hpiece d hd).1
  rw [hfilter]
  exact ⟨lowerAt_ne_nil b a c, fun d hd => by simp [(hpiece d hd).2]⟩

theorem infix_across_iff {w s k t : Text} (hw : w ≠ []) (hk : k ≠ []) (hdisj : ∀ d ∈ k, d ∉ w) :
    w <:+: s ++ k ++ t ↔ w <:+: s ∨ w <:+: t := by
  induction k generalizing s with
  | nil => exact (hk rfl).elim
  | cons d k ih =>
      have hd : d ∉ w := hdisj d List.mem_cons_self
      rw [List.append_assoc, List.cons_append, infix_append_cons_iff hd]
      cases k with
      | nil => simp
      | cons e k =>
          have htail := ih (s := []) (by simp) fun x hx => hdisj x (List.mem_cons_of_mem _ hx)
          rw [List.nil_append] at htail
          rw [htail]
          simp [List.infix_nil, hw]

theorem digits_infix_lowerBetween_iff (v : IntegerValue) (b t a : Text) :
    v.digits <:+: (U.lowerBetween b t a).filter isKept ↔ ReadsDigits t v := by
  induction t using separator_induction (p := isInterruption) generalizing b with
  | plain t ht =>
      rw [lowerBetween_of_uninterrupted ht]
      exact infix_filter_iff
  | step s c t hs hc ih =>
      have hsplit : U.lowerBetween b (s ++ c :: t) a = U.lowerBetween b s (c :: t ++ a) ++
          U.lowerAt (s.reverse ++ b) (t ++ a) c ++
            U.lowerBetween (c :: (s.reverse ++ b)) t a := by
        rw [lowerBetween_append, lowerBetween, List.append_assoc]
      obtain ⟨hne, hfree⟩ := lowerAt_of_interruption (U := U) hc (s.reverse ++ b) (t ++ a)
      have hdisj : ∀ d ∈ (U.lowerAt (s.reverse ++ b) (t ++ a) c).filter isKept, d ∉ v.digits :=
        fun d hd hmem => hfree d hd (v.digits_ascii d hmem)
      rw [hsplit, List.filter_append, List.filter_append,
        infix_across_iff v.digits_ne_nil hne hdisj, ih, lowerBetween_of_uninterrupted hs]
      -- a stretch of digits avoids the interruption as well
      simp only [isInterruption, Bool.and_eq_true, Bool.not_eq_true'] at hc
      have havoid {m : Text} (hm : m.filter isKept = v.digits) : c ∉ m := by
        intro hcm
        have hcv : c ∈ v.digits := hm ▸ List.mem_filter.mpr ⟨hcm, hc.1⟩
        simp [v.digits_ascii c hcv] at hc
      rw [infix_filter_iff]
      constructor
      · rintro (⟨m, hms, hm⟩ | ⟨m, hmt, hm⟩)
        · exact ⟨m, (infix_append_cons_iff (havoid hm)).mpr (Or.inl hms), hm⟩
        · exact ⟨m, (infix_append_cons_iff (havoid hm)).mpr (Or.inr hmt), hm⟩
      · rintro ⟨m, hmst, hm⟩
        rcases (infix_append_cons_iff (havoid hm)).mp hmst with hms | hmt
        · exact Or.inl ⟨m, hms, hm⟩
        · exact Or.inr ⟨m, hmt, hm⟩

namespace IntegerValue

variable (v : IntegerValue)

theorem mem_text {c : Char} (h : c ∈ v.text) : c = '-' ∨ isAsciiDigit c := by
  rw [text, List.mem_append] at h
  rcases h with h | h
  · unfold sign at h
    split_ifs at h
    · exact Or.inl (by simpa using h)
    · simp at h
  · exact Or.inr (v.digits_ascii c h)

theorem text_ne_nil : v.text ≠ [] := by
  simp [text, v.digits_ne_nil]

theorem strip_text : strip v.text = v.text := by
  apply trim_eq_self_of_forall
  intro c hc
  rcases v.mem_text hc with rfl | hd
  · decide
  · exact ascii_cases (P := fun c => isAsciiDigit c → isSpace c = false) (by decide)
      (isAscii_of_isAsciiDigit hd) hd

theorem upper_text_available : U.upper v.text ∉ notAvailable := by
  obtain ⟨c, hc⟩ := List.exists_mem_of_ne_nil _ v.digits_ne_nil
  have hd := v.digits_ascii c hc
  have hup : c ∈ U.upper v.text := by
    refine mem_upper_of_mem (isAscii_of_isAsciiDigit hd) ?_ (List.mem_append_right _ hc)
    exact ascii_cases (P := fun c => isAsciiDigit c → c.toUpper = c) (by decide)
      (isAscii_of_isAsciiDigit hd) hd
  intro hna
  simp only [notAvailable, List.mem_cons, List.not_mem_nil, or_false] at hna
  rcases hna with hna | hna <;> rw [hna] at hup <;>
    simp only [String.reduceToList, List.mem_cons, List.not_mem_nil, or_false] at hup <;>
    rcases hup with rfl | rfl | rfl <;> exact absurd hd (by decide)

theorem normalize_text : normalize U v.text = v.digits := by
  have hplain : ∀ c ∈ v.text, isInterruption c = false := by
    intro c hc
    rcases v.mem_text hc with rfl | hd
    · decide
    · simp [isInterruption, hd]
  have hsign : v.sign.filter isKept = [] := by
    unfold sign
    split_ifs <;> decide
  have hdigits : v.digits.filter isKept = v.digits := by
    rw [List.filter_eq_self]
    exact fun c hc => isKept_of_isAsciiDigit (v.digits_ascii c hc)
  rw [normalize_eq_filter, lower, lowerBetween_of_uninterrupted hplain, text, List.filter_append,
    hsign, hdigits, List.nil_append]

end IntegerValue

theorem containsValue_text_iff (t : Text) (v : IntegerValue) :
    containsValue U t v.text ↔ ReadsDigits t v := by
  rw [containsValue_iff v.text_ne_nil v.strip_text, v.normalize_text, normalize_eq_filter, lower,
    digits_infix_lowerBetween_iff]
  exact and_iff_right v.upper_text_available

theorem readsDigits_of_occursWhole {t : Text} {v : IntegerValue} (h : OccursWhole t v) :
    ReadsDigits t v := by
  obtain ⟨before, blanks, after, rfl, -, -, -⟩ := h
  refine ⟨v.digits, ⟨before ++ v.sign ++ blanks, after, rfl⟩, ?_⟩
  rw [List.filter_eq_self]
  exact fun c hc => isKept_of_isAsciiDigit (v.digits_ascii c hc)

/-- Integer values are credited by their digits alone; in particular every whole occurrence
is credited. -/
theorem containsValue_integer (U : UnicodeData) (t : Text) (v : IntegerValue) :
    (containsValue U t v.text ↔ ReadsDigits t v) ∧ (OccursWhole t v → containsValue U t v.text) :=
  ⟨containsValue_text_iff t v,
    fun h => (containsValue_text_iff t v).mpr (readsDigits_of_occursWhole h)⟩

def zeroValue : IntegerValue := ⟨false, ['0'], by decide, forall_mem_of_all (by decide)⟩

def minusOneValue : IntegerValue := ⟨true, ['1'], by decide, forall_mem_of_all (by decide)⟩

theorem not_occursWhole_ten_zero : ¬OccursWhole "10".toList zeroValue := by
  rintro ⟨before, blanks, after, ht, hblanks, hbefore, -⟩
  simp only [IntegerValue.sign, zeroValue, String.reduceToList, List.append_assoc,
    Bool.false_eq_true, if_false, List.nil_append] at ht hbefore
  rcases before with _ | ⟨x, _ | ⟨y, before⟩⟩
  · rcases blanks with _ | ⟨z, blanks⟩
    · simp at ht
    · obtain ⟨rfl, -⟩ := List.cons.inj ht
      exact absurd (hblanks _ List.mem_cons_self) (by decide)
  · obtain ⟨rfl, htail⟩ := List.cons.inj ht
    rcases blanks with _ | ⟨z, blanks⟩
    · exact hbefore '1' rfl (by decide)
    · obtain ⟨rfl, -⟩ := List.cons.inj htail
      exact absurd (hblanks _ List.mem_cons_self) (by decide)
  · simp at ht

theorem not_occursWhole_one_minusOne : ¬OccursWhole "1".toList minusOneValue := by
  rintro ⟨before, blanks, after, ht, -, -, -⟩
  have hminus : '-' ∈ "1".toList := by
    rw [ht]
    simp [IntegerValue.sign, minusOneValue]
  exact absurd hminus (by decide)

/-- The literal `10` credits the value `0`, and a bare `1` credits the value `-1`. -/
theorem containsValue_integer_not_whole :
    (¬∀ (U : UnicodeData) (t : Text) (v : IntegerValue),
      containsValue U t v.text ↔ OccursWhole t v) ∧
    (containsValue asciiData "10".toList zeroValue.text ∧ ¬OccursWhole "10".toList zeroValue) ∧
    (containsValue asciiData "1".toList minusOneValue.text ∧
      ¬OccursWhole "1".toList minusOneValue) := by
  have hzero : containsValue asciiData "10".toList zeroValue.text := by decide
  have hone : containsValue asciiData "1".toList minusOneValue.text := by decide
  exact ⟨fun h => not_occursWhole_ten_zero ((h _ _ _).mp hzero),
    ⟨hzero, not_occursWhole_ten_zero⟩, hone, not_occursWhole_one_minusOne⟩

end TTCEvaluation
