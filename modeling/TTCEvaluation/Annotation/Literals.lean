import TTCEvaluation.Annotation.Constants
import TTCEvaluation.Text.Scanning

/-!
# Literals and the scan for constants

At every place it visits the scan takes the longest literal, with a sign in
front of it if there is one.  A match has its sign at its first place, so no
match goes over a place where a literal starts.
-/

namespace TTCEvaluation

open Pattern

section

variable (U : UnicodeData)

/-- `\d+(\.\d+)?`. -/
inductive Literal : Text → Prop
  | whole {ds : Text} : ds ≠ [] → (∀ c ∈ ds, U.isDecimal c) → Literal ds
  | fraction {ds fs : Text} : ds ≠ [] → (∀ c ∈ ds, U.isDecimal c) → fs ≠ [] →
      (∀ c ∈ fs, U.isDecimal c) → Literal (ds ++ '.' :: fs)

/-- The longest literal with which a text begins. -/
def LongestLiteral (w t : Text) : Prop :=
  Literal U w ∧ w <+: t ∧ ∀ w', Literal U w' → w' <+: t → w'.length ≤ w.length

def startsWithDigit (t : Text) : Bool := t.head?.any U.isDecimal

def literalAt (t : Text) : Text :=
  match t.dropWhile U.isDecimal with
  | '.' :: rest =>
      if startsWithDigit U rest then
        t.takeWhile U.isDecimal ++ '.' :: rest.takeWhile U.isDecimal
      else t.takeWhile U.isDecimal
  | _ => t.takeWhile U.isDecimal

/-- The constant that the scan takes between `prev` and `t`. -/
def constantAt (prev : Option Char) (t : Text) : Option Text :=
  if prev.any isNameStart then none
  else if t.head? = some '-' then
    if startsWithDigit U t.tail then some ('-' :: literalAt U t.tail) else none
  else if startsWithDigit U t then some (literalAt U t) else none

end

variable {U : UnicodeData}

/-! ## The longest literal -/

theorem isDecimal_dot : U.isDecimal '.' = false := by
  rw [UnicodeData.isDecimal, U.decimal_ascii '.' (by decide)]
  rfl

theorem isDecimal_minus : U.isDecimal '-' = false := by
  rw [UnicodeData.isDecimal, U.decimal_ascii '-' (by decide)]
  rfl

theorem not_isDecimal_of_isNameStart {c : Char} (h : isNameStart c) : U.isDecimal c = false := by
  have hascii : isAscii c := by
    simp only [isNameStart, Bool.or_eq_true, decide_eq_true_eq] at h
    rcases h with h | rfl
    · exact isAscii_of_isAlpha h
    · decide
  rw [UnicodeData.isDecimal, U.decimal_ascii c hascii]
  have hdigit : isAsciiDigit c = false := by
    revert h
    exact ascii_cases (P := fun c => isNameStart c → isAsciiDigit c = false) (by decide) hascii
  simp [hdigit]

theorem takeWhile_ne_nil {t : Text} (h : startsWithDigit U t) : t.takeWhile U.isDecimal ≠ [] := by
  cases t with
  | nil => simp [startsWithDigit] at h
  | cons c t =>
      have hc : U.isDecimal c := by simpa [startsWithDigit] using h
      simp [hc]

theorem startsWithDigit_append {ds t : Text} (hne : ds ≠ []) (hds : ∀ c ∈ ds, U.isDecimal c) :
    startsWithDigit U (ds ++ t) := by
  cases ds with
  | nil => exact (hne rfl).elim
  | cons c ds => simpa [startsWithDigit] using hds c List.mem_cons_self

theorem literalAt_of_fraction {ds t : Text} (hds : ∀ c ∈ ds, U.isDecimal c)
    (ht : startsWithDigit U t) :
    literalAt U (ds ++ '.' :: t) = ds ++ '.' :: t.takeWhile U.isDecimal := by
  have hdrop : (ds ++ '.' :: t).dropWhile U.isDecimal = '.' :: t := by
    rw [List.dropWhile_append_of_pos hds, List.dropWhile_cons_of_neg (by simp [isDecimal_dot])]
  have htake : (ds ++ '.' :: t).takeWhile U.isDecimal = ds := by
    rw [List.takeWhile_append_of_pos hds, List.takeWhile_cons_of_neg (by simp [isDecimal_dot]),
      List.append_nil]
  simp [literalAt, hdrop, htake, ht]

/-- The three shapes of the text behind its first digits. -/
theorem literalAt_cases (t : Text) :
    (literalAt U t = t.takeWhile U.isDecimal ∧
        ∀ rest, t.dropWhile U.isDecimal = '.' :: rest → startsWithDigit U rest = false) ∨
      ∃ rest, t.dropWhile U.isDecimal = '.' :: rest ∧ startsWithDigit U rest ∧
        literalAt U t = t.takeWhile U.isDecimal ++ '.' :: rest.takeWhile U.isDecimal := by
  unfold literalAt
  split
  · next rest hdrop =>
      by_cases hrest : startsWithDigit U rest
      · exact Or.inr ⟨rest, hdrop, hrest, if_pos hrest⟩
      · refine Or.inl ⟨if_neg hrest, ?_⟩
        intro rest' h
        rw [hdrop] at h
        obtain rfl := (List.cons.inj h).2
        simpa using hrest
  · next hdrop => exact Or.inl ⟨rfl, fun rest h => (hdrop rest h).elim⟩

theorem literal_literalAt {t : Text} (h : startsWithDigit U t) : Literal U (literalAt U t) := by
  have hdigits : ∀ c ∈ t.takeWhile U.isDecimal, U.isDecimal c := fun c hc =>
    List.mem_takeWhile_imp hc
  rcases literalAt_cases (U := U) t with ⟨hlit, -⟩ | ⟨rest, -, hrest, hlit⟩
  · rw [hlit]
    exact .whole (takeWhile_ne_nil h) hdigits
  · rw [hlit]
    exact .fraction (takeWhile_ne_nil h) hdigits (takeWhile_ne_nil hrest) fun c hc =>
      List.mem_takeWhile_imp hc

/-- Behind the longest literal there is no further digit. -/
theorem exists_rest_of_literalAt (t : Text) :
    ∃ rest, t = literalAt U t ++ rest ∧ startsWithDigit U rest = false := by
  have hstop (t : Text) : startsWithDigit U (t.dropWhile U.isDecimal) = false := by
    cases hdrop : t.dropWhile U.isDecimal with
    | nil => rfl
    | cons c rest =>
        have hc := List.head_dropWhile_not (p := U.isDecimal) (l := t) (by simp [hdrop])
        simpa [startsWithDigit, hdrop] using hc
  rcases literalAt_cases (U := U) t with ⟨hlit, -⟩ | ⟨rest, hdrop, -, hlit⟩
  · exact ⟨t.dropWhile U.isDecimal, by rw [hlit, List.takeWhile_append_dropWhile], hstop t⟩
  · refine ⟨rest.dropWhile U.isDecimal, ?_, hstop rest⟩
    rw [hlit, List.append_assoc, List.cons_append, List.takeWhile_append_dropWhile, ← hdrop,
      List.takeWhile_append_dropWhile]

theorem length_le_literalAt {w t : Text} (hw : Literal U w) (h : w <+: t) :
    w.length ≤ (literalAt U t).length := by
  obtain ⟨r, rfl⟩ := h
  cases hw with
  | whole hne hds =>
      have htake : w.length ≤ ((w ++ r).takeWhile U.isDecimal).length := by
        rw [List.takeWhile_append_of_pos hds, List.length_append]
        omega
      rcases literalAt_cases (U := U) (w ++ r) with ⟨hlit, -⟩ | ⟨rest, -, -, hlit⟩
      · rwa [hlit]
      · rw [hlit, List.length_append]
        omega
  | @fraction ds fs hne hds hfs hdigits =>
      rw [List.append_assoc, List.cons_append,
        literalAt_of_fraction hds (startsWithDigit_append hfs hdigits),
        List.takeWhile_append_of_pos hdigits]
      simp

theorem longestLiteral_iff {w t : Text} (h : startsWithDigit U t) :
    LongestLiteral U w t ↔ w = literalAt U t := by
  obtain ⟨rest, hrest, -⟩ := exists_rest_of_literalAt (U := U) t
  have hpre : literalAt U t <+: t := ⟨rest, hrest.symm⟩
  constructor
  · rintro ⟨hlit, hw, hmax⟩
    have hlen := (length_le_literalAt hlit hw).antisymm (hmax _ (literal_literalAt h) hpre)
    exact (List.prefix_of_prefix_length_le hw hpre hlen.le).eq_of_length hlen
  · rintro rfl
    exact ⟨literal_literalAt h, hpre, fun w' hw' hpre' => length_le_literalAt hw' hpre'⟩

/-! ## One step of the scan -/

theorem map_fst_first_literal (prev : Option Char) (t : Text) :
    ((seq (plus U.isDecimal) (opt (seq (char '.') (plus U.isDecimal)))).first prev t).map
        Prod.fst = if startsWithDigit U t then some (literalAt U t) else none := by
  rw [first_seq_of_total (ends_opt_ne_nil _), first_plus, startsWithDigit]
  by_cases h : t.head?.any U.isDecimal
  · rw [if_pos h, if_pos h, Option.bind_some, Option.map_map, first_opt, first_seq_char, first_plus]
    rcases literalAt_cases (U := U) t with ⟨hlit, hstop⟩ | ⟨rest, hdrop, hrest, hlit⟩
    · rw [hlit]
      by_cases hdot : (t.dropWhile U.isDecimal).head? = some '.'
      · obtain ⟨rest, hdrop⟩ := List.head?_eq_some_iff.mp hdot
        have hrest := hstop rest hdrop
        rw [startsWithDigit] at hrest
        simp [hdrop, hrest]
      · simp [hdot]
    · rw [startsWithDigit] at hrest
      simp [hdrop, hrest, hlit]
  · rw [if_neg h, if_neg h]
    rfl

theorem whole_constantPattern (prev : Option Char) (t : Text) :
    (constantPattern U).whole prev t = (constantAt U prev t).map fun w => (w, w) := by
  have hwhole : (constantPattern U).whole prev t =
      (((constantPattern U).first prev t).map Prod.fst).map fun w => (w, w) := by
    rw [whole, first, Option.map_map]
    rfl
  have hfirst : ((constantPattern U).first prev t).map Prod.fst = constantAt U prev t := by
    rw [constantPattern, first_seq_notBehind, constantAt]
    split_ifs with hname hminus hdigit hdigit
    · rfl
    · have hbody := map_fst_first_literal (U := U) (some '-') t.tail
      rw [if_pos hdigit] at hbody
      obtain ⟨r, hr, hlit⟩ := Option.map_eq_some_iff.mp hbody
      rw [first_seq_opt_char, first_seq_char, if_pos hminus, hr, ← hlit]
      rfl
    · have hbody := map_fst_first_literal (U := U) (some '-') t.tail
      have hnone := map_fst_first_literal (U := U) prev t
      rw [if_neg hdigit, Option.map_eq_none_iff] at hbody
      rw [if_neg (by simp [startsWithDigit, hminus, isDecimal_minus]),
        Option.map_eq_none_iff] at hnone
      rw [first_seq_opt_char, first_seq_char, if_pos hminus, hbody, hnone]
      rfl
    · rw [first_seq_opt_char, first_seq_char, if_neg hminus, Option.none_or,
        map_fst_first_literal, if_pos hdigit]
    · rw [first_seq_opt_char, first_seq_char, if_neg hminus, Option.none_or,
        map_fst_first_literal, if_neg hdigit]
  rw [hwhole, hfirst]

theorem startsWithDigit_cons {c : Char} {t : Text} (hc : U.isDecimal c) :
    startsWithDigit U (c :: t) := by
  simpa [startsWithDigit] using hc

theorem constantAt_of_digit {prev : Option Char} {t : Text} (hprev : ¬prev.any isNameStart)
    (ht : startsWithDigit U t) : constantAt U prev t = some (literalAt U t) := by
  have hminus : t.head? ≠ some '-' := by
    intro h
    simp [startsWithDigit, h, isDecimal_minus] at ht
  rw [constantAt, if_neg hprev, if_neg hminus, if_pos ht]

theorem constantAt_of_minus {prev : Option Char} {t : Text} (hprev : ¬prev.any isNameStart)
    (ht : startsWithDigit U t) : constantAt U prev ('-' :: t) = some ('-' :: literalAt U t) := by
  rw [constantAt, if_neg hprev, if_pos (by simp), List.tail_cons, if_pos ht]

theorem constantAt_eq_some {prev : Option Char} {t w : Text} (h : constantAt U prev t = some w) :
    ¬prev.any isNameStart ∧
      ((∃ r, t = '-' :: r ∧ startsWithDigit U r ∧ w = '-' :: literalAt U r) ∨
        (startsWithDigit U t ∧ w = literalAt U t)) := by
  rw [constantAt] at h
  split_ifs at h with hname hminus hdigit hdigit
  · obtain ⟨r, rfl⟩ := List.head?_eq_some_iff.mp hminus
    exact ⟨hname, Or.inl ⟨r, rfl, hdigit, (Option.some.inj h).symm⟩⟩
  · exact ⟨hname, Or.inr ⟨hdigit, (Option.some.inj h).symm⟩⟩

theorem of_mem_literalAt {t : Text} {c : Char} (h : c ∈ literalAt U t) :
    c = '.' ∨ U.isDecimal c := by
  rcases literalAt_cases (U := U) t with ⟨hlit, -⟩ | ⟨rest, -, -, hlit⟩
  · rw [hlit] at h
    exact Or.inr (List.mem_takeWhile_imp h)
  · rw [hlit, List.mem_append, List.mem_cons] at h
    rcases h with h | h | h
    · exact Or.inr (List.mem_takeWhile_imp h)
    · exact Or.inl h
    · exact Or.inr (List.mem_takeWhile_imp h)

/-! ## Places of the scan -/

theorem consumes_constantPattern : Consumes (constantPattern U).whole :=
  consumes_whole nonNull_constantPattern

theorem whole_eq_some_iff {prev : Option Char} {t g w : Text} :
    (constantPattern U).whole prev t = some (g, w) ↔ constantAt U prev t = some g ∧ w = g := by
  rw [whole_constantPattern, Option.map_eq_some_iff]
  constructor
  · rintro ⟨v, hv, heq⟩
    obtain ⟨rfl, rfl⟩ := Prod.mk.inj heq
    exact ⟨hv, rfl⟩
  · rintro ⟨hg, rfl⟩
    exact ⟨w, hg, rfl⟩

section

variable {order : SetOrder}

/-- The constants of a source are what is taken at the visited places. -/
theorem mem_constants_iff {code w : Text} :
    w ∈ extractNumericConstants U order code ↔
      ∃ s t, code = s ++ t ∧ Visits (constantPattern U).whole s t ∧
        constantAt U s.getLast? t = some w := by
  rw [mem_extractNumericConstants, mem_findAll_iff consumes_constantPattern]
  constructor
  · rintro ⟨s, t, v, hcode, hvisit, hmatch⟩
    exact ⟨s, t, hcode, hvisit, (whole_eq_some_iff.mp hmatch).1⟩
  · rintro ⟨s, t, hcode, hvisit, hconstant⟩
    exact ⟨s, t, w, hcode, hvisit, whole_eq_some_iff.mpr ⟨hconstant, rfl⟩⟩

end

/-- A place inside a match is followed by digits and dots; it lies behind a digit or a dot, or
between the sign and the longest literal. -/
theorem inside_constant {prev : Option Char} {u v t : Text} (hu : u ≠ [])
    (h : constantAt U prev (u ++ v ++ t) = some (u ++ v)) :
    (∀ c ∈ v, c = '.' ∨ U.isDecimal c) ∧
      ((u = ['-'] ∧ v = literalAt U (v ++ t)) ∨
        ∃ c ∈ u.getLast?, c = '.' ∨ U.isDecimal c) := by
  obtain ⟨c, u, rfl⟩ := List.exists_cons_of_ne_nil hu
  rcases (constantAt_eq_some h).2 with ⟨r, hr, -, hmatch⟩ | ⟨-, hmatch⟩
  · obtain ⟨rfl, rfl⟩ := List.cons.inj hr
    have hlit : u ++ v = literalAt U (u ++ v ++ t) := (List.cons.inj hmatch).2
    have hchars : ∀ d ∈ u ++ v, d = '.' ∨ U.isDecimal d := by
      intro d hd
      rw [hlit] at hd
      exact of_mem_literalAt hd
    refine ⟨fun d hd => hchars d (List.mem_append_right u hd), ?_⟩
    cases hlast : u.getLast? with
    | none =>
        rw [List.getLast?_eq_none_iff] at hlast
        subst hlast
        exact Or.inl ⟨rfl, hlit⟩
    | some d =>
        refine Or.inr ⟨d, by simp [List.getLast?_cons, hlast], ?_⟩
        exact hchars d (List.mem_append_left v (List.mem_of_getLast? hlast))
  · have hchars : ∀ d ∈ c :: u ++ v, d = '.' ∨ U.isDecimal d := by
      intro d hd
      rw [hmatch] at hd
      exact of_mem_literalAt hd
    refine ⟨fun d hd => hchars d (List.mem_append_right _ hd), Or.inr ?_⟩
    obtain ⟨d, hd⟩ := Option.isSome_iff_exists.mp (List.getLast?_isSome.mpr hu)
    exact ⟨d, hd, hchars d (List.mem_append_left v (List.mem_of_getLast? hd))⟩

/-- Each longest literal that does not continue a word, a number or a fraction is among the
constants, by itself or with a sign. -/
theorem literal_mem_constants (U : UnicodeData) (order : SetOrder) (code s t w : Text) (d : Char)
    (hcode : code = s ++ d :: t) (hdigit : U.isDecimal d)
    (hprev : ∀ p ∈ s.getLast?, p.isAlpha = false ∧ p ≠ '_' ∧ U.isDecimal p = false ∧ p ≠ '.')
    (hw : LongestLiteral U w (d :: t)) :
    w ∈ extractNumericConstants U order code ∨
      '-' :: w ∈ extractNumericConstants U order code := by
  have hstart : startsWithDigit U (d :: t) := startsWithDigit_cons hdigit
  obtain rfl := (longestLiteral_iff hstart).mp hw
  rcases visits_or_inside consumes_constantPattern s (d :: t) with
    hvisit | ⟨s', u, v, t', g, rfl, hu, ht, -, hvisit, hmatch⟩
  · left
    have hname : ¬s.getLast?.any isNameStart := by
      cases hlast : s.getLast? with
      | none => simp
      | some p =>
          obtain ⟨halpha, hunderscore, -⟩ := hprev p hlast
          simp [isNameStart, halpha, hunderscore]
    exact mem_constants_iff.mpr ⟨s, d :: t, hcode, hvisit, constantAt_of_digit hname hstart⟩
  · right
    obtain ⟨hconstant, rfl⟩ := whole_eq_some_iff.mp hmatch
    rcases (inside_constant hu hconstant).2 with ⟨rfl, hv⟩ | ⟨c, hc, hchar⟩
    · rw [ht, ← hv]
      refine mem_constants_iff.mpr ⟨s', ['-'] ++ v ++ t', ?_, hvisit, hconstant⟩
      rw [hcode, ht]
      simp
    · have hlast : (s' ++ u).getLast? = some c := by
        rw [List.getLast?_append, hc]
        rfl
      obtain ⟨-, -, hdecimal, hdot⟩ := hprev c hlast
      rcases hchar with rfl | hchar
      · exact (hdot rfl).elim
      · simp [hdecimal] at hchar

theorem literal_mem_constants_sample :
    "12.5".toList ∈ extractNumericConstants asciiData .plain "x1=-12.5;".toList ∨
      "-12.5".toList ∈ extractNumericConstants asciiData .plain "x1=-12.5;".toList := by
  have hprev : ∀ p ∈ "x1=-".toList.getLast?,
      p.isAlpha = false ∧ p ≠ '_' ∧ asciiData.isDecimal p = false ∧ p ≠ '.' := by
    intro p hp
    obtain rfl : '-' = p := Option.some.inj hp
    decide
  exact literal_mem_constants asciiData .plain "x1=-12.5;".toList "x1=-".toList "2.5;".toList _ '1'
    (by decide) (by decide) hprev ((longestLiteral_iff (by decide)).mpr (by decide))

end TTCEvaluation
