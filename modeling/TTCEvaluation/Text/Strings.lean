import TTCEvaluation.Text.Segments
import Mathlib.Data.Nat.Notation
import Mathlib.Tactic.Common

/-!
# Strings and case mapping

Texts are lists of code points.  The character database is a structure whose
fields carry the facts about it that do not change between its versions;
lower-casing follows the full mapping with the final-sigma rule, so it is not
a homomorphism.  It still is one around white space, `,` and `;`, and on texts
without a capital sigma.
-/

namespace TTCEvaluation

open Segments

abbrev Text := List Char

/-- A table cell as `read_csv` returns it: missing, or a value with its `str()`. -/
abbrev Cell := Option Text

/-- White space: what `str.strip` removes and `\s` matches. -/
def isSpace (c : Char) : Bool :=
  let n := c.toNat
  (9 ≤ n && n ≤ 13) || (28 ≤ n && n ≤ 32) || n = 0x85 || n = 0xA0 || n = 0x1680 ||
    (0x2000 ≤ n && n ≤ 0x200A) || n = 0x2028 || n = 0x2029 || n = 0x202F || n = 0x205F ||
    n = 0x3000

def isAscii (c : Char) : Bool := c.toNat < 128

def isAsciiDigit (c : Char) : Bool := 48 ≤ c.toNat && c.toNat ≤ 57

/-- `[a-zA-Z_]`. -/
def isNameStart (c : Char) : Bool := c.isAlpha || c = '_'

/-- `[a-zA-Z0-9_]`. -/
def isWordChar (c : Char) : Bool := c.isAlphanum || c = '_'

/-- `str.strip()`. -/
def strip (t : Text) : Text := trim isSpace t

/-- White space, `,` and `;`: the characters that end a case context. -/
def endsCaseContext (c : Char) : Bool := isSpace c || c = ',' || c = ';'

/-- Reading a file as text turns `\r\n` and `\r` into a line feed. -/
def universalNewlines : Text → Text
  | [] => []
  | '\r' :: '\n' :: rest => '\n' :: universalNewlines rest
  | c :: rest => (if c = '\r' then '\n' else c) :: universalNewlines rest

/-- A decidable property of the characters of a text is checked on the text. -/
theorem forall_mem_of_all {P : Char → Prop} [DecidablePred P] {t : Text}
    (h : t.all (fun c => P c) = true) : ∀ c ∈ t, P c := by
  simpa using h

/-- A decidable property of ASCII characters is checked on the 128 codes. -/
theorem ascii_cases {P : Char → Prop} (h : ∀ n < 128, P (Char.ofNat n)) {c : Char}
    (hc : isAscii c) : P c := by
  have hn := h c.toNat (by simpa [isAscii] using hc)
  rwa [Char.ofNat_toNat] at hn

theorem isAscii_of_isAlpha {c : Char} (h : c.isAlpha) : isAscii c := by
  unfold Char.isAlpha Char.isUpper Char.isLower at h
  simp only [Bool.or_eq_true, decide_eq_true_eq, Bool.and_eq_true, ge_iff_le,
    UInt32.le_iff_toNat_le] at h
  have hz : 'z'.val.toNat = 122 := rfl
  have hZ : 'Z'.val.toNat = 90 := rfl
  simp only [isAscii, decide_eq_true_eq, Char.toNat]
  omega

theorem isAscii_of_isAsciiDigit {c : Char} (h : isAsciiDigit c) : isAscii c := by
  simp only [isAsciiDigit, Bool.and_eq_true, decide_eq_true_eq] at h
  simp only [isAscii, decide_eq_true_eq]
  omega

theorem isAsciiDigit_of_isDigit {c : Char} (h : c.isDigit) : isAsciiDigit c := by
  unfold Char.isDigit at h
  simp only [Bool.and_eq_true, decide_eq_true_eq, ge_iff_le, UInt32.le_iff_toNat_le] at h
  have hzero : '0'.val.toNat = 48 := rfl
  have hnine : '9'.val.toNat = 57 := rfl
  simp only [isAsciiDigit, Bool.and_eq_true, decide_eq_true_eq, Char.toNat]
  omega

theorem isAscii_of_isWordChar {c : Char} (h : isWordChar c) : isAscii c := by
  unfold isWordChar Char.isAlphanum at h
  simp only [Bool.or_eq_true, decide_eq_true_eq] at h
  rcases h with (h | h) | rfl
  · exact isAscii_of_isAlpha h
  · exact isAscii_of_isAsciiDigit (isAsciiDigit_of_isDigit h)
  · decide

theorem toLower_of_not_isAscii {c : Char} (h : ¬isAscii c) : c.toLower = c := by
  have hup : ¬c.isUpper := by
    intro hc
    apply h
    apply isAscii_of_isAlpha
    unfold Char.isAlpha
    rw [hc, Bool.true_or]
  unfold Char.isUpper at hup
  unfold Char.toLower
  rw [dif_neg]
  simpa using hup

/-- The part of the Unicode character database that string methods and `\d` read. -/
structure UnicodeData where
  lowerChar : Char → Text
  upperChar : Char → Text
  cased : Char → Bool
  caseIgnorable : Char → Bool
  decimal : Char → Option ℕ
  lower_ascii : ∀ c, isAscii c → lowerChar c = [c.toLower]
  lower_ne_nil : ∀ c, lowerChar c ≠ []
  /-- The only ASCII characters to come out of foreign ones are letters (`k` from the Kelvin
  sign). -/
  lower_foreign : ∀ c, ¬isAscii c → ∀ d ∈ lowerChar c, isAscii d → d.isAlpha
  upper_ascii : ∀ c, isAscii c → upperChar c = [c.toUpper]
  upper_ne_nil : ∀ c, upperChar c ≠ []
  uncased_separator : ∀ c, endsCaseContext c → cased c = false ∧ caseIgnorable c = false
  decimal_ascii : ∀ c, isAscii c →
    decimal c = if isAsciiDigit c then some (c.toNat - 48) else none
  decimal_lt_ten : ∀ c, ∀ d ∈ decimal c, d < 10
  decimal_uncased : ∀ c, (decimal c).isSome →
    lowerChar c = [c] ∧ upperChar c = [c] ∧ c ≠ 'Σ' ∧ isSpace c = false

def asciiData : UnicodeData where
  lowerChar c := [c.toLower]
  upperChar c := [c.toUpper]
  cased c := c.isAlpha
  caseIgnorable c := c ∈ ['\'', '.', ':', '^', '`']
  decimal c := if isAsciiDigit c then some (c.toNat - 48) else none
  lower_ascii _ _ := rfl
  lower_ne_nil _ := by simp
  lower_foreign c hc d hd hascii := by
    rw [toLower_of_not_isAscii hc, List.mem_singleton] at hd
    exact (hc (hd ▸ hascii)).elim
  upper_ascii _ _ := rfl
  upper_ne_nil _ := by simp
  uncased_separator c hc := by
    by_cases hascii : isAscii c
    · revert hc
      exact ascii_cases (P := fun c => endsCaseContext c →
        c.isAlpha = false ∧ decide (c ∈ ['\'', '.', ':', '^', '`']) = false) (by decide) hascii
    · refine ⟨?_, ?_⟩
      · by_contra halpha
        exact hascii (isAscii_of_isAlpha (by simpa using halpha))
      · by_contra hign
        simp only [List.mem_cons, List.not_mem_nil, or_false, Bool.not_eq_false,
          decide_eq_true_eq] at hign
        rcases hign with rfl | rfl | rfl | rfl | rfl <;> exact hascii rfl
  decimal_ascii _ _ := rfl
  decimal_lt_ten c d hd := by
    rw [Option.mem_def, Option.ite_none_right_eq_some, Option.some.injEq] at hd
    obtain ⟨hdigit, rfl⟩ := hd
    simp only [isAsciiDigit, Bool.and_eq_true, decide_eq_true_eq] at hdigit
    omega
  decimal_uncased c hc := by
    have hdigit : isAsciiDigit c := by
      by_contra hd
      simp [hd] at hc
    have hascii : isAscii c := isAscii_of_isAsciiDigit hdigit
    revert hdigit
    exact ascii_cases (P := fun c => isAsciiDigit c → [c.toLower] = [c] ∧ [c.toUpper] = [c] ∧
      c ≠ 'Σ' ∧ isSpace c = false) (by decide) hascii

namespace UnicodeData

variable (U : UnicodeData)

/-- `\d`. -/
def isDecimal (c : Char) : Bool := (U.decimal c).isSome

/-- Whether the context, read away from the letter, shows a cased character first. -/
def seesCased (context : Text) : Bool :=
  match context.dropWhile U.caseIgnorable with
  | [] => false
  | c :: _ => U.cased c

/-- One character of `str.lower()`, `before` being reversed: a capital sigma is final after
a cased character and not before one. -/
def lowerAt (before after : Text) (c : Char) : Text :=
  if c = 'Σ' then
    if U.seesCased before && !U.seesCased after then ['ς'] else ['σ']
  else U.lowerChar c

def lowerBetween (before : Text) : Text → Text → Text
  | [], _ => []
  | c :: rest, after => U.lowerAt before (rest ++ after) c ++ lowerBetween (c :: before) rest after

/-- `str.lower()`. -/
def lower (t : Text) : Text := U.lowerBetween [] t []

/-- `str.upper()`. -/
def upper (t : Text) : Text := t.flatMap U.upperChar

/-! ## Case contexts -/

variable {U}

theorem seesCased_append_congr {s t t' : Text} (h : U.seesCased t = U.seesCased t') :
    U.seesCased (s ++ t) = U.seesCased (s ++ t') := by
  simp only [seesCased, List.dropWhile_append]
  cases hs : s.dropWhile U.caseIgnorable with
  | nil => simpa [seesCased] using h
  | cons c s => simp

theorem seesCased_cons_congr (c : Char) {t t' : Text} (h : U.seesCased t = U.seesCased t') :
    U.seesCased (c :: t) = U.seesCased (c :: t') :=
  seesCased_append_congr (s := [c]) h

theorem seesCased_of_ends {t : Text} (h : ∀ c ∈ t.head?, endsCaseContext c) :
    U.seesCased t = false := by
  cases t with
  | nil => rfl
  | cons c t =>
      obtain ⟨hcased, hign⟩ := U.uncased_separator c (h c rfl)
      simp [seesCased, hcased, hign]

@[simp] theorem lowerBetween_nil (b a : Text) : U.lowerBetween b [] a = [] := rfl

theorem lowerBetween_append (b s t a : Text) :
    U.lowerBetween b (s ++ t) a =
      U.lowerBetween b s (t ++ a) ++ U.lowerBetween (s.reverse ++ b) t a := by
  induction s generalizing b with
  | nil => rfl
  | cons c s ih => simp [lowerBetween, ih, List.append_assoc]

theorem lowerBetween_congr {b b' a a' : Text} (s : Text) (hb : U.seesCased b = U.seesCased b')
    (ha : U.seesCased a = U.seesCased a') :
    U.lowerBetween b s a = U.lowerBetween b' s a' := by
  induction s generalizing b b' with
  | nil => rfl
  | cons c s ih =>
      have hat : U.lowerAt b (s ++ a) c = U.lowerAt b' (s ++ a') c := by
        simp only [lowerAt, hb, seesCased_append_congr ha]
      rw [lowerBetween, lowerBetween, hat, ih (seesCased_cons_congr c hb)]

theorem lowerBetween_of_no_sigma {w : Text} (hw : 'Σ' ∉ w) (b a : Text) :
    U.lowerBetween b w a = w.flatMap U.lowerChar := by
  induction w generalizing b with
  | nil => rfl
  | cons c w ih =>
      rw [List.mem_cons, not_or] at hw
      obtain ⟨hc, hw⟩ := hw
      rw [lowerBetween, lowerAt, if_neg (Ne.symm hc), ih hw, List.flatMap_cons]

/-! ## Lower-casing is local -/

theorem lower_of_no_sigma {w : Text} (hw : 'Σ' ∉ w) : U.lower w = w.flatMap U.lowerChar :=
  lowerBetween_of_no_sigma hw [] []

theorem lower_of_ascii {w : Text} (hw : ∀ c ∈ w, isAscii c) : U.lower w = w.map Char.toLower := by
  have hsigma : 'Σ' ∉ w := fun h => absurd (hw _ h) (by decide)
  rw [lower_of_no_sigma hsigma, List.map_eq_flatMap]
  exact List.flatMap_congr fun c hc => U.lower_ascii c (hw c hc)

theorem lower_split (s w t : Text) :
    U.lower (s ++ w ++ t) = U.lowerBetween [] s (w ++ t) ++ U.lowerBetween s.reverse w t ++
      U.lowerBetween (w.reverse ++ s.reverse) t [] := by
  simp [lower, lowerBetween_append]

/-- Between case-context ends a segment is lower-cased as if it stood alone. -/
theorem lower_infix_of_delimitedIn {w l : Text} (h : DelimitedIn endsCaseContext w l) :
    U.lower w <:+: U.lower l := by
  obtain ⟨s, t, rfl, hs, ht⟩ := h
  have hw : U.lower w = U.lowerBetween s.reverse w t := by
    apply lowerBetween_congr
    · exact (seesCased_of_ends (t := s.reverse) (by simpa using hs)).symm
    · exact (seesCased_of_ends ht).symm
  rw [lower_split, hw]
  exact List.infix_append _ _ _

theorem lower_infix_of_no_sigma {w l : Text} (hw : 'Σ' ∉ w) (h : w <:+: l) :
    U.lower w <:+: U.lower l := by
  obtain ⟨s, t, rfl⟩ := h
  rw [lower_split, lower_of_no_sigma hw, ← lowerBetween_of_no_sigma hw s.reverse t]
  exact List.infix_append _ _ _

/-- A separator splits the lower-casing of a text. -/
theorem lower_append_cons {c : Char} (hc : endsCaseContext c) (s t : Text) :
    U.lower (s ++ c :: t) = U.lower s ++ U.lower [c] ++ U.lower t := by
  have hsees (x : Text) : U.seesCased (c :: x) = false := seesCased_of_ends (by simpa using hc)
  have hs : U.lowerBetween [] s (c :: t) = U.lower s :=
    lowerBetween_congr s rfl ((hsees t).trans rfl)
  have ht : U.lowerBetween (c :: s.reverse) t [] = U.lower t :=
    lowerBetween_congr t ((hsees _).trans rfl) rfl
  have hsigma : 'Σ' ∉ [c] := by
    rw [List.mem_singleton]
    rintro rfl
    exact absurd hc (by decide)
  have hmid (b a : Text) : U.lowerBetween b [c] a = U.lower [c] := by
    rw [lower_of_no_sigma hsigma, lowerBetween_of_no_sigma hsigma]
  have hsplit := U.lower_split s [c] t
  simpa only [List.append_assoc, List.singleton_append, hmid, hs, ht, List.reverse_singleton]
    using hsplit

/-! ## What lower-casing does to single characters -/

theorem mem_lowerBetween {b s a : Text} {d : Char} (h : d ∈ U.lowerBetween b s a) :
    d = 'ς' ∨ d = 'σ' ∨ ∃ c ∈ s, d ∈ U.lowerChar c := by
  induction s generalizing b with
  | nil => simp at h
  | cons c s ih =>
      rw [lowerBetween, List.mem_append] at h
      rcases h with h | h
      · unfold lowerAt at h
        split_ifs at h
        · exact Or.inl (by simpa using h)
        · exact Or.inr (Or.inl (by simpa using h))
        · exact Or.inr (Or.inr ⟨c, List.mem_cons_self, h⟩)
      · rcases ih h with h | h | ⟨x, hx, hd⟩
        · exact Or.inl h
        · exact Or.inr (Or.inl h)
        · exact Or.inr (Or.inr ⟨x, List.mem_cons_of_mem _ hx, hd⟩)

/-- An ASCII character outside the alphabet is lower-cased from itself alone. -/
theorem eq_of_mem_lowerChar {c d : Char} (hd : isAscii d) (halpha : ¬d.isAlpha)
    (h : d ∈ U.lowerChar c) : c = d := by
  by_cases hc : isAscii c
  · rw [U.lower_ascii c hc, List.mem_singleton] at h
    subst h
    revert halpha
    exact ascii_cases (P := fun c => ¬c.toLower.isAlpha → c = c.toLower) (by decide) hc
  · exact (halpha (U.lower_foreign c hc d h hd)).elim

theorem mem_of_mem_lower {t : Text} {d : Char} (hd : isAscii d) (halpha : ¬d.isAlpha)
    (h : d ∈ U.lower t) : d ∈ t := by
  rcases mem_lowerBetween h with rfl | rfl | ⟨c, hc, hdc⟩
  · exact absurd hd (by decide)
  · exact absurd hd (by decide)
  · exact eq_of_mem_lowerChar hd halpha hdc ▸ hc

/-! ## Stripping and upper-casing -/

theorem mem_upper_of_mem {t : Text} {c : Char} (hc : isAscii c) (hup : c.toUpper = c)
    (h : c ∈ t) : c ∈ U.upper t := by
  refine List.mem_flatMap.mpr ⟨c, h, ?_⟩
  rw [U.upper_ascii c hc, hup]
  exact List.mem_singleton_self c

theorem upper_eq_nil_iff {t : Text} : U.upper t = [] ↔ t = [] := by
  cases t with
  | nil => simp [upper]
  | cons c t => simp [upper, U.upper_ne_nil]

end UnicodeData

@[simp] theorem strip_strip (t : Text) : strip (strip t) = strip t := trim_trim t

/-! ## Reading line ends -/

theorem universalNewlines_of_notMem {t : Text} (h : '\r' ∉ t) : universalNewlines t = t := by
  induction t with
  | nil => rfl
  | cons c t ih =>
      rw [List.mem_cons, not_or] at h
      obtain ⟨hc, ht⟩ := h
      rw [universalNewlines, ih ht, if_neg (Ne.symm hc)]
      rintro _ rfl
      exact absurd rfl hc

theorem universalNewlines_cons {c : Char} {t : Text} (h : c = '\r' → t.head? ≠ some '\n') :
    universalNewlines (c :: t) = (if c = '\r' then '\n' else c) :: universalNewlines t := by
  rw [universalNewlines]
  rintro rest rfl rfl
  exact h rfl rfl

theorem universalNewlines_append {s t : Text}
    (h : s.getLast? = some '\r' → t.head? ≠ some '\n') :
    universalNewlines (s ++ t) = universalNewlines s ++ universalNewlines t := by
  induction s using universalNewlines.induct with
  | case1 => rfl
  | case2 rest ih =>
      have hrest : rest.getLast? = some '\r' → t.head? ≠ some '\n' := by
        intro hlast
        apply h
        rw [List.getLast?_cons_cons, List.getLast?_cons, hlast]
        rfl
      change '\n' :: universalNewlines (rest ++ t) = '\n' :: universalNewlines rest ++ _
      rw [ih hrest]
      rfl
  | case3 c rest hpair ih =>
      have hrest : rest.getLast? = some '\r' → t.head? ≠ some '\n' := by
        intro hlast
        apply h
        rw [List.getLast?_cons, hlast]
        rfl
      have hplain : c = '\r' → rest.head? ≠ some '\n' := by
        rintro rfl hhead
        obtain ⟨rest', rfl⟩ := List.head?_eq_some_iff.mp hhead
        exact hpair rest' rfl rfl
      have hjoined : c = '\r' → (rest ++ t).head? ≠ some '\n' := by
        rintro rfl
        cases rest with
        | nil => exact h rfl
        | cons d rest => exact hplain rfl
      rw [List.cons_append, universalNewlines_cons hjoined, universalNewlines_cons hplain, ih hrest]
      rfl

theorem universalNewlines_eq_nil {t : Text} (h : universalNewlines t = []) : t = [] := by
  unfold universalNewlines at h
  split at h
  · rfl
  · cases h
  · cases h

theorem carriageReturn_notMem (t : Text) : '\r' ∉ universalNewlines t := by
  induction t using universalNewlines.induct with
  | case1 => exact List.not_mem_nil
  | case2 rest ih =>
      rw [universalNewlines, List.mem_cons, not_or]
      exact ⟨by decide, ih⟩
  | case3 c rest hpair ih =>
      rw [universalNewlines, List.mem_cons, not_or]
      · refine ⟨?_, ih⟩
        split_ifs with hc
        · decide
        · exact Ne.symm hc
      · exact hpair

theorem newline_or_mem_ends (t : Text) :
    (∀ c ∈ (universalNewlines t).head?, c = '\n' ∨ c ∈ t.head?) ∧
      ∀ c ∈ (universalNewlines t).getLast?, c = '\n' ∨ c ∈ t.getLast? := by
  induction t using universalNewlines.induct with
  | case1 => exact ⟨nofun, nofun⟩
  | case2 rest ih =>
      refine ⟨fun c hc => Or.inl (Option.some.inj hc).symm, fun c hc => ?_⟩
      rw [universalNewlines, List.getLast?_cons] at hc
      rw [List.getLast?_cons_cons, List.getLast?_cons]
      cases hlast : (universalNewlines rest).getLast? with
      | none =>
          rw [hlast] at hc
          exact Or.inl (Option.some.inj hc).symm
      | some d =>
          rw [hlast] at hc
          obtain rfl : d = c := Option.some.inj hc
          refine (ih.2 d hlast).imp_right fun hmem => ?_
          rw [Option.mem_def.mp hmem]
          rfl
  | case3 c rest hpair ih =>
      have hplain : c = '\r' → rest.head? ≠ some '\n' := by
        rintro rfl hhead
        obtain ⟨rest', rfl⟩ := List.head?_eq_some_iff.mp hhead
        exact hpair rest' rfl rfl
      have hfirst : (if c = '\r' then '\n' else c) = '\n' ∨ (if c = '\r' then '\n' else c) = c := by
        split_ifs <;> simp
      rw [universalNewlines_cons hplain]
      constructor
      · intro d hd
        rw [← Option.some.inj hd]
        exact hfirst.imp_right fun heq => congrArg some heq.symm
      · intro d hd
        rw [List.getLast?_cons] at hd ⊢
        cases hlast : (universalNewlines rest).getLast? with
        | none =>
            rw [hlast] at hd
            obtain rfl := universalNewlines_eq_nil (List.getLast?_eq_none_iff.mp hlast)
            rw [← Option.some.inj hd]
            exact hfirst.imp_right fun heq => congrArg some heq.symm
        | some e =>
            rw [hlast] at hd
            obtain rfl : e = d := Option.some.inj hd
            refine (ih.2 e hlast).imp_right fun hmem => ?_
            rw [Option.mem_def.mp hmem]
            rfl

/-- A delimited text that is read as it is stays delimited. -/
theorem delimitedIn_universalNewlines {w l : Text} (hne : w ≠ []) (hreturn : '\r' ∉ w)
    (hhead : w.head? ≠ some '\n') (h : DelimitedIn endsCaseContext w l) :
    DelimitedIn endsCaseContext w (universalNewlines l) := by
  obtain ⟨s, t, rfl, hs, ht⟩ := h
  have hlast : w.getLast? = some '\r' → t.head? ≠ some '\n' := fun hw =>
    absurd (List.mem_of_getLast? hw) hreturn
  have hstart : s.getLast? = some '\r' → (w ++ t).head? ≠ some '\n' := by
    intro _
    rwa [List.head?_append_of_ne_nil _ hne]
  rw [List.append_assoc, universalNewlines_append hstart, universalNewlines_append hlast,
    universalNewlines_of_notMem hreturn, ← List.append_assoc]
  refine ⟨_, _, rfl, fun c hc => ?_, fun c hc => ?_⟩
  · rcases (newline_or_mem_ends s).2 c hc with rfl | hmem
    · decide
    · exact hs c hmem
  · rcases (newline_or_mem_ends t).1 c hc with rfl | hmem
    · decide
    · exact ht c hmem

end TTCEvaluation
