import TTCEvaluation.Arithmetic.Rounding
import TTCEvaluation.Text.Strings

/-!
# Matching expected values against a test

The expected-values cell is cut at `;` and `,`; a value is credited when its
normal form (lower case, without blanks, underscores and hyphens) occurs in
the normal form of the whole test text.
-/

namespace TTCEvaluation

open Segments

/-- `str.replace(c, "")` for a single character. -/
def deleteChar (c : Char) (t : Text) : Text := t.filter (· ≠ c)

def isSeparator (c : Char) : Bool := c = ';' || c = ','

def notAvailable : List Text := ["N/A".toList, "NA".toList]

section

variable (A : Arithmetic) (U : UnicodeData)

def splitValues : Cell → List Text
  | none => []
  | some text =>
      if U.upper (strip text) ∈ [] :: notAvailable then []
      else ((text.splitOnP isSeparator).filter fun p => strip p ≠ []).map strip

def normalize (text : Text) : Text :=
  deleteChar '-' (deleteChar '_' (deleteChar ' ' (U.lower text)))

def containsValue (testCode value : Text) : Bool :=
  if value = [] then false
  else
    let value := strip value
    if U.upper value ∈ notAvailable then false
    else normalize U value <:+: normalize U testCode

/-- The mark for a missing value, in any case. -/
def isNotAvailable (value : Text) : Bool := U.upper value ∈ notAvailable

/-- The score, the number of matched values and the number of values. -/
def scoreExpectedValues (testCode : Text) (expectedValues : Cell) : ℚ × ℕ × ℕ :=
  let values := splitValues U expectedValues
  if values = [] then (0, 0, 0)
  else
    let matched := values.countP (containsValue U testCode)
    (A.div matched values.length, matched, values.length)

end

variable {A : Arithmetic} {U : UnicodeData}

/-! ## Normal forms -/

def isKept (c : Char) : Bool := c ≠ ' ' && c ≠ '_' && c ≠ '-'

theorem normalize_eq_filter (t : Text) : normalize U t = (U.lower t).filter isKept := by
  simp only [normalize, deleteChar, List.filter_filter]
  apply List.filter_congr
  intro c _
  simp [isKept, Bool.and_comm]

theorem normalize_infix_of_delimitedIn {w l : Text} (h : DelimitedIn endsCaseContext w l) :
    normalize U w <:+: normalize U l := by
  rw [normalize_eq_filter, normalize_eq_filter]
  exact (UnicodeData.lower_infix_of_delimitedIn h).filter _

theorem normalize_infix_of_no_sigma {w l : Text} (hw : 'Σ' ∉ w) (h : w <:+: l) :
    normalize U w <:+: normalize U l := by
  rw [normalize_eq_filter, normalize_eq_filter]
  exact (UnicodeData.lower_infix_of_no_sigma hw h).filter _

theorem normalize_append_newline (s t : Text) :
    normalize U (s ++ '\n' :: t) = normalize U s ++ '\n' :: normalize U t := by
  have hnl : U.lower ['\n'] = ['\n'] := by
    rw [UnicodeData.lower_of_no_sigma (by decide), List.flatMap_singleton,
      U.lower_ascii _ (by decide)]
    rfl
  have hkept : isKept '\n' := by decide
  simp only [normalize_eq_filter, UnicodeData.lower_append_cons (c := '\n') (by decide), hnl,
    List.filter_append, List.filter_cons_of_pos hkept, List.append_assoc, List.singleton_append]

theorem newline_not_mem_normalize {t : Text} (h : '\n' ∉ t) : '\n' ∉ normalize U t := by
  intro hmem
  rw [normalize_eq_filter, List.mem_filter] at hmem
  exact h (UnicodeData.mem_of_mem_lower (by decide) (by decide) hmem.1)

/-! ## Splitting a cell -/

def pieces (text : Text) : List Text :=
  ((text.splitOnP isSeparator).filter fun p => strip p ≠ []).map strip

theorem splitValues_of_available {text : Text} (h : U.upper (strip text) ∉ [] :: notAvailable) :
    splitValues U (some text) = pieces text := by
  rw [splitValues, if_neg h, pieces]

@[simp] theorem pieces_nil : pieces [] = [] := by decide

theorem pieces_append_cons {c : Char} (hc : isSeparator c) (s t : Text) :
    pieces (s ++ c :: t) = pieces s ++ pieces t := by
  rw [pieces, List.splitOnP_append_cons s t hc, List.filter_append, List.map_append, pieces, pieces]

theorem not_isSeparator_of_isSpace {c : Char} (hc : isSpace c) : isSeparator c = false := by
  rw [isSeparator, Bool.or_eq_false_iff, decide_eq_false_iff_not, decide_eq_false_iff_not]
  constructor <;> rintro rfl <;> exact absurd hc (by decide)

theorem strip_cons_of_isSpace {c : Char} (hc : isSpace c) (t : Text) : strip (c :: t) = strip t :=
  trim_append_left (s := [c]) (by simpa using hc)

theorem pieces_cons_of_isSpace {c : Char} (hc : isSpace c) (t : Text) :
    pieces (c :: t) = pieces t := by
  have hsep := not_isSeparator_of_isSpace hc
  obtain ⟨p, ps, hps⟩ := List.exists_cons_of_ne_nil (List.splitOnP_ne_nil isSeparator t)
  rw [pieces, pieces, List.splitOnP_cons_eq_if_modifyHead, if_neg (by simp [hsep]), hps,
    List.modifyHead_cons, List.filter_cons, List.filter_cons, strip_cons_of_isSpace hc]
  split_ifs <;> simp [strip_cons_of_isSpace hc]

theorem pieces_append_of_blank {s : Text} (hs : ∀ c ∈ s, isSpace c) (t : Text) :
    pieces (s ++ t) = pieces t := by
  induction s with
  | nil => rfl
  | cons c s ih =>
      rw [List.cons_append, pieces_cons_of_isSpace (hs c List.mem_cons_self),
        ih fun x hx => hs x (List.mem_cons_of_mem _ hx)]

theorem pieces_of_plain {v : Text} (hne : v ≠ []) (hstrip : strip v = v)
    (hsep : ∀ c ∈ v, isSeparator c = false) : pieces v = [v] := by
  simp [pieces, List.splitOnP_eq_singleton hsep, hstrip, hne]

theorem pieces_intercalate {c : Char} {blanks : Text} (hc : isSeparator c)
    (hblanks : ∀ b ∈ blanks, isSpace b) (values : List Text) :
    pieces ((c :: blanks).intercalate values) = values.flatMap pieces := by
  induction values with
  | nil => simp
  | cons v values ih =>
      cases values with
      | nil => simp
      | cons w values =>
          rw [List.intercalate_cons_cons, List.append_assoc, List.cons_append,
            pieces_append_cons hc, pieces_append_of_blank hblanks, ih, List.flatMap_cons,
            List.flatMap_cons, List.flatMap_cons]

theorem available_of_mem_separator {text : Text} {c : Char} (hc : isSeparator c) (h : c ∈ text) :
    U.upper (strip text) ∉ [] :: notAvailable := by
  have hsep : c = ';' ∨ c = ',' := by simpa [isSeparator] using hc
  have hup : c ∈ U.upper (strip text) := by
    refine UnicodeData.mem_upper_of_mem ?_ ?_ (mem_trim_of_mem h ?_) <;>
      rcases hsep with rfl | rfl <;> decide
  intro hna
  simp only [notAvailable, List.mem_cons, List.not_mem_nil, or_false] at hna
  rcases hna with hna | hna | hna <;> rw [hna] at hup <;> rcases hsep with rfl | rfl <;>
    exact absurd hup (by decide)

theorem mem_pieces_iff {text v : Text} :
    v ∈ pieces text ↔ v ≠ [] ∧ ∃ p ∈ text.splitOnP isSeparator, strip p = v := by
  simp only [pieces, List.mem_map, List.mem_filter, decide_eq_true_eq]
  constructor
  · rintro ⟨p, ⟨hp, hne⟩, rfl⟩
    exact ⟨hne, p, hp, rfl⟩
  · rintro ⟨hne, p, hp, rfl⟩
    exact ⟨p, ⟨hp, hne⟩, rfl⟩

theorem mem_pieces_of_mem_splitValues {text v : Text} (h : v ∈ splitValues U (some text)) :
    v ∈ pieces text := by
  rw [splitValues] at h
  split_ifs at h
  · simp at h
  · exact h

section

variable {text v : Text} (h : v ∈ splitValues U (some text))

include h

theorem ne_nil_of_mem_splitValues : v ≠ [] :=
  (mem_pieces_iff.mp (mem_pieces_of_mem_splitValues h)).1

theorem strip_of_mem_splitValues : strip v = v := by
  obtain ⟨_, p, _, rfl⟩ := mem_pieces_iff.mp (mem_pieces_of_mem_splitValues h)
  exact strip_strip p

theorem not_separator_of_mem_splitValues : ∀ c ∈ v, isSeparator c = false := by
  obtain ⟨_, p, hp, rfl⟩ := mem_pieces_iff.mp (mem_pieces_of_mem_splitValues h)
  exact fun c hc => not_sep_of_mem_splitOnP hp c (mem_of_mem_trim hc)

theorem delimitedIn_of_mem_splitValues : DelimitedIn endsCaseContext v text := by
  obtain ⟨_, p, hp, rfl⟩ := mem_pieces_iff.mp (mem_pieces_of_mem_splitValues h)
  have hpiece : DelimitedIn endsCaseContext p text :=
    (delimitedIn_of_mem_splitOnP hp).mono fun c hc => by
      simp only [isSeparator, Bool.or_eq_true, decide_eq_true_eq] at hc
      rcases hc with rfl | rfl <;> decide
  have hstrip : DelimitedIn endsCaseContext (strip p) p :=
    (delimitedIn_trim isSpace p).mono fun c hc => by simp [endsCaseContext, hc]
  exact hstrip.trans hpiece

end

/-! ## Crediting a value -/

theorem containsValue_iff {t v : Text} (hne : v ≠ []) (hstrip : strip v = v) :
    containsValue U t v ↔ U.upper v ∉ notAvailable ∧ normalize U v <:+: normalize U t := by
  simp only [containsValue, if_neg hne, hstrip]
  split_ifs with hna
  · simp [hna]
  · simp [hna]

theorem scoreExpectedValues_of_nil {t : Text} {cell : Cell} (h : splitValues U cell = []) :
    scoreExpectedValues A U t cell = (0, 0, 0) := by
  simp [scoreExpectedValues, h]

theorem scoreExpectedValues_total (t : Text) (cell : Cell) :
    (scoreExpectedValues A U t cell).2.2 = (splitValues U cell).length := by
  by_cases h : splitValues U cell = []
  · simp [scoreExpectedValues, h]
  · simp [scoreExpectedValues, h]

theorem scoreExpectedValues_matched (t : Text) (cell : Cell) :
    (scoreExpectedValues A U t cell).2.1 = (splitValues U cell).countP (containsValue U t) := by
  by_cases h : splitValues U cell = []
  · simp [scoreExpectedValues, h]
  · simp [scoreExpectedValues, h]

theorem scoreExpectedValues_score (t : Text) (cell : Cell) :
    (scoreExpectedValues A U t cell).1 =
      A.div ((splitValues U cell).countP (containsValue U t)) (splitValues U cell).length := by
  by_cases h : splitValues U cell = []
  · simp [scoreExpectedValues, h, Arithmetic.div]
  · simp [scoreExpectedValues, h]

theorem scoreExpectedValues_of_all {t : Text} {cell : Cell} (hne : splitValues U cell ≠ [])
    (hall : ∀ v ∈ splitValues U cell, containsValue U t v) :
    scoreExpectedValues A U t cell =
      (1, (splitValues U cell).length, (splitValues U cell).length) := by
  have hcount := List.countP_eq_length.mpr hall
  have hlen : ((splitValues U cell).length : ℚ) ≠ 0 := by
    simpa using hne
  simp only [scoreExpectedValues, if_neg hne, hcount, A.div_same hlen]

end TTCEvaluation
