import TTCEvaluation.Annotation.Literals

/-!
# Constants and tokens

The look-behind of the scan excludes a start right after an ASCII letter or an
underscore.  The scan still starts inside a token at three kinds of places:
between the digits of a name, at a minus after a digit, and after a letter that
is not ASCII.
-/

namespace TTCEvaluation

open Pattern

/-- The letters of all scripts. -/
structure Letters (U : UnicodeData) where
  letter : Char → Bool
  letter_ascii : ∀ c, isAscii c → letter c = c.isAlpha
  letter_not_decimal : ∀ c, letter c → U.isDecimal c = false

def asciiLetters : Letters asciiData where
  letter := Char.isAlpha
  letter_ascii _ _ := rfl
  letter_not_decimal c hc := not_isDecimal_of_isNameStart (by simp [isNameStart, hc])

variable {U : UnicodeData}

/-- Letters, digits and the underscore. -/
def Letters.isTokenChar (L : Letters U) (c : Char) : Bool :=
  L.letter c || U.isDecimal c || c = '_'

section

variable (L : Letters U)

/-- `w` occurs in `code` at a place where it does not begin inside another token: its first
character, the sign or a digit, does not follow a letter, a digit or an underscore. -/
def BeginsToken (w code : Text) : Prop :=
  ∃ s t, code = s ++ w ++ t ∧ ∀ p ∈ s.getLast?, L.isTokenChar p = false

/-- The scan takes `w` between `s` and `t`, inside a token. -/
inductive TakenInside : Text → Text → Text → Prop
  | digits {s w t : Text} {a d : Char} : isNameStart a → U.isDecimal d →
      LongestLiteral U w (w ++ t) → TakenInside (s ++ [a, d]) w t
  | minus {s w t : Text} {d : Char} : U.isDecimal d → LongestLiteral U w (w ++ t) →
      TakenInside (s ++ [d]) ('-' :: w) t
  | letter {s w t : Text} {p : Char} : L.letter p → ¬isNameStart p →
      LongestLiteral U w (w ++ t) → TakenInside (s ++ [p]) w t
  | letterMinus {s w t : Text} {p : Char} : L.letter p → ¬isNameStart p →
      LongestLiteral U w (w ++ t) → TakenInside (s ++ [p]) ('-' :: w) t

end

variable {L : Letters U}

theorem beginsToken_iff {w code : Text} :
    BeginsToken L w code ↔ ∃ i < code.length + 1,
      w <+: code.drop i ∧ (code.take i).getLast?.all (!L.isTokenChar ·) := by
  constructor
  · rintro ⟨s, t, rfl, hs⟩
    refine ⟨s.length, by simp only [List.length_append]; omega, ?_, ?_⟩
    · rw [List.append_assoc, List.drop_left]
      exact List.prefix_append w t
    · rw [List.append_assoc, List.take_left]
      cases hlast : s.getLast? with
      | none => rfl
      | some p => simp [hs p hlast]
  · rintro ⟨i, -, ⟨t, ht⟩, hlast⟩
    refine ⟨code.take i, t, ?_, ?_⟩
    · rw [List.append_assoc, ht, List.take_append_drop]
    · intro p hp
      rw [Option.mem_def] at hp
      simpa [hp] using hlast

theorem startsWithDigit_of_longestLiteral {w t : Text} (h : LongestLiteral U w t) :
    startsWithDigit U t := by
  obtain ⟨hlit, ⟨r, rfl⟩, -⟩ := h
  cases hlit with
  | whole hne hds => exact startsWithDigit_append hne hds
  | fraction hne hds =>
      rw [List.append_assoc]
      exact startsWithDigit_append hne hds

theorem longestLiteral_literalAt {t : Text} (h : startsWithDigit U t) :
    ∃ rest, t = literalAt U t ++ rest ∧
      LongestLiteral U (literalAt U t) (literalAt U t ++ rest) := by
  obtain ⟨rest, hrest, -⟩ := exists_rest_of_literalAt (U := U) t
  refine ⟨rest, hrest, ?_⟩
  rw [← hrest]
  exact (longestLiteral_iff h).mpr rfl

/-! ## The places inside tokens are visited -/

theorem visits_of_not_inside {s t : Text}
    (h : ∀ s' u v t', s = s' ++ u → u ≠ [] → t = v ++ t' → v ≠ [] →
      constantAt U s'.getLast? (u ++ v ++ t') ≠ some (u ++ v)) :
    Visits (constantPattern U).whole s t := by
  rcases visits_or_inside consumes_constantPattern s t with
    hvisit | ⟨s', u, v, t', g, hs, hu, ht, hv, -, hmatch⟩
  · exact hvisit
  · obtain ⟨hconstant, rfl⟩ := whole_eq_some_iff.mp hmatch
    exact (h s' u v t' hs hu ht hv hconstant).elim

theorem isConstantChar_of_constantAt {prev : Option Char} {t w : Text}
    (h : constantAt U prev t = some w) : ∀ c ∈ w, isConstantChar U c := by
  intro c hc
  have hmem : ∀ {r : Text}, c ∈ literalAt U r → isConstantChar U c := by
    intro r hr
    rcases of_mem_literalAt hr with rfl | hr <;> simp_all [isConstantChar]
  rcases (constantAt_eq_some h).2 with ⟨r, -, -, rfl⟩ | ⟨-, rfl⟩
  · rcases List.mem_cons.mp hc with rfl | hc
    · rfl
    · exact hmem hc
  · exact hmem hc

theorem visits_after {s t : Text} {p : Char} (hp : isConstantChar U p = false) :
    Visits (constantPattern U).whole (s ++ [p]) t := by
  apply visits_of_not_inside
  intro s' u v t' hs hu _ _ hconstant
  have hlast : u.getLast? = some p := by
    have heq := congrArg List.getLast? hs
    rw [List.getLast?_append_of_ne_nil _ hu] at heq
    simpa using heq.symm
  have hchar := isConstantChar_of_constantAt hconstant p
    (List.mem_append_left v (List.mem_of_getLast? hlast))
  simp [hp] at hchar

theorem not_isConstantChar_of_isNameStart {a : Char} (h : isNameStart a) :
    isConstantChar U a = false := by
  have hdecimal := not_isDecimal_of_isNameStart (U := U) h
  have hne : a ≠ '-' ∧ a ≠ '.' := by
    constructor <;> rintro rfl <;> exact absurd h (by decide)
  simp [isConstantChar, hdecimal, hne]

theorem not_isConstantChar_of_letter {p : Char} (h : L.letter p) : isConstantChar U p = false := by
  have hne : p ≠ '-' ∧ p ≠ '.' := by
    constructor <;> rintro rfl <;> rw [L.letter_ascii _ (by decide)] at h <;>
      exact absurd h (by decide)
  simp [isConstantChar, L.letter_not_decimal p h, hne]

/-- The scan misses what stands right behind a letter or an underscore, and goes on. -/
theorem visits_after_miss {s t : Text} {a d : Char} (ha : isNameStart a) :
    Visits (constantPattern U).whole (s ++ [a, d]) t := by
  have hvisit := visits_after (s := s) (t := d :: t) (not_isConstantChar_of_isNameStart (U := U) ha)
  have hnone : (constantPattern U).whole (s ++ [a]).getLast? (d :: t) = none := by
    rw [whole_constantPattern, constantAt, if_pos (by simpa using ha)]
    rfl
  simpa using Visits.miss hvisit hnone

theorem visits_minus (s t : Text) : Visits (constantPattern U).whole s ('-' :: t) := by
  apply visits_of_not_inside
  intro s' u v t' _ hu ht hv hconstant
  obtain ⟨c, v, rfl⟩ := List.exists_cons_of_ne_nil hv
  obtain ⟨rfl, -⟩ := List.cons.inj ht
  rcases (inside_constant hu hconstant).1 '-' List.mem_cons_self with h | h
  · exact absurd h (by decide)
  · simp [isDecimal_minus] at h

theorem mem_constants_of_takenInside (order : SetOrder) {s w t : Text} (h : TakenInside L s w t) :
    w ∈ extractNumericConstants U order (s ++ w ++ t) := by
  have hdecimal {d : Char} (hd : U.isDecimal d) : ¬isNameStart d := by
    intro hname
    simp [not_isDecimal_of_isNameStart hname] at hd
  have htaken {s w t : Text} {p : Char} (hp : ¬isNameStart p) (hw : LongestLiteral U w (w ++ t))
      (hvisit : Visits (constantPattern U).whole (s ++ [p]) (w ++ t)) :
      w ∈ extractNumericConstants U order (s ++ [p] ++ w ++ t) := by
    have hstart := startsWithDigit_of_longestLiteral hw
    refine mem_constants_iff.mpr ⟨s ++ [p], w ++ t, by simp, hvisit, ?_⟩
    rw [constantAt_of_digit (by simpa using hp) hstart, ← (longestLiteral_iff hstart).mp hw]
  have htakenMinus {s w t : Text} {p : Char} (hp : ¬isNameStart p)
      (hw : LongestLiteral U w (w ++ t)) :
      '-' :: w ∈ extractNumericConstants U order (s ++ [p] ++ '-' :: w ++ t) := by
    have hstart := startsWithDigit_of_longestLiteral hw
    refine mem_constants_iff.mpr ⟨s ++ [p], '-' :: (w ++ t), by simp, visits_minus _ _, ?_⟩
    rw [constantAt_of_minus (by simpa using hp) hstart, ← (longestLiteral_iff hstart).mp hw]
  cases h with
  | @digits s w t a d ha hd hw =>
      have hmem := htaken (s := s ++ [a]) (hdecimal hd) hw
        (by simpa using visits_after_miss ha)
      simpa using hmem
  | minus hd hw => exact htakenMinus (hdecimal hd) hw
  | letter hp hname hw => exact htaken hname hw (visits_after (not_isConstantChar_of_letter hp))
  | letterMinus hp hname hw => exact htakenMinus hname hw

/-! ## The scan visits no other place inside a token -/

/-- Between two digits the scan stops only behind the first digit of a name. -/
theorem name_before_digits {s t : Text} {d : Char}
    (hvisit : Visits (constantPattern U).whole (s ++ [d]) t) (hd : U.isDecimal d)
    (ht : startsWithDigit U t) : ∃ a ∈ s.getLast?, isNameStart a := by
  generalize hplace : s ++ [d] = place at hvisit
  cases hvisit with
  | start => simp at hplace
  | @miss s' _ c hvisit hnone =>
      obtain ⟨rfl, hc⟩ := List.append_inj' hplace rfl
      obtain rfl := List.singleton_inj.mp hc
      rw [whole_constantPattern, Option.map_eq_none_iff] at hnone
      by_contra hname
      have hprev : ¬s.getLast?.any isNameStart := by
        cases hlast : s.getLast? with
        | none => simp
        | some a =>
            intro ha
            exact hname ⟨a, hlast, by simpa using ha⟩
      rw [constantAt_of_digit hprev (startsWithDigit_cons hd)] at hnone
      cases hnone
  | @hit s' _ g w hvisit hmatch =>
      exfalso
      obtain ⟨hconstant, rfl⟩ := whole_eq_some_iff.mp hmatch
      have hstop {r : Text} (hr : r = literalAt U r ++ t) : False := by
        obtain ⟨rest, hrest, hdigit⟩ := exists_rest_of_literalAt (U := U) r
        have hrt : rest = t := List.append_cancel_left (hrest.symm.trans hr)
        rw [hrt, ht] at hdigit
        cases hdigit
      rcases (constantAt_eq_some hconstant).2 with ⟨r, hr, -, hw⟩ | ⟨-, hw⟩
      · rw [hw, List.cons_append] at hr
        exact hstop (List.cons.inj hr).2.symm
      · exact hstop (congrArg (· ++ t) hw)

theorem takenInside_of_visits {s t w : Text} {p : Char}
    (hvisit : Visits (constantPattern U).whole (s ++ [p]) t)
    (hconstant : constantAt U (some p) t = some w) (hp : L.isTokenChar p) :
    ∃ rest, t = w ++ rest ∧ TakenInside L (s ++ [p]) w rest := by
  obtain ⟨hname, hcases⟩ := constantAt_eq_some hconstant
  have hname : ¬isNameStart p := by simpa using hname
  have hkind : U.isDecimal p ∨ L.letter p := by
    simp only [Letters.isTokenChar, Bool.or_eq_true, decide_eq_true_eq] at hp
    rcases hp with (hp | hp) | rfl
    · exact Or.inr hp
    · exact Or.inl hp
    · exact (hname (by decide)).elim
  rcases hcases with ⟨r, rfl, hstart, rfl⟩ | ⟨hstart, rfl⟩
  · obtain ⟨rest, hrest, hlongest⟩ := longestLiteral_literalAt hstart
    refine ⟨rest, by rw [List.cons_append, ← hrest], ?_⟩
    rcases hkind with hdecimal | hletter
    · exact .minus hdecimal hlongest
    · exact .letterMinus hletter hname hlongest
  · obtain ⟨rest, hrest, hlongest⟩ := longestLiteral_literalAt hstart
    refine ⟨rest, hrest, ?_⟩
    rcases hkind with hdecimal | hletter
    · obtain ⟨a, hlast, ha⟩ := name_before_digits hvisit hdecimal hstart
      obtain ⟨s, rfl⟩ := List.getLast?_eq_some_iff.mp hlast
      rw [List.append_assoc]
      exact .digits ha hdecimal hlongest
    · exact .letter hletter hname hlongest

/-- Every constant begins a token somewhere in the source exactly when those that the scan takes
inside a token do. -/
theorem constants_begin_tokens_iff (U : UnicodeData) (L : Letters U) (order : SetOrder)
    (code : Text) :
    (∀ w ∈ extractNumericConstants U order code, BeginsToken L w code) ↔
      ∀ s w t, code = s ++ w ++ t → TakenInside L s w t → BeginsToken L w code := by
  constructor
  · rintro h s w t rfl htaken
    exact h w (mem_constants_of_takenInside order htaken)
  · intro h w hw
    obtain ⟨s, t, hcode, hvisit, hconstant⟩ := mem_constants_iff.mp hw
    by_cases htoken : ∃ p ∈ s.getLast?, L.isTokenChar p
    · obtain ⟨p, hlast, hp⟩ := htoken
      obtain ⟨s, rfl⟩ := List.getLast?_eq_some_iff.mp hlast
      rw [hlast] at hconstant
      obtain ⟨rest, rfl, htaken⟩ := takenInside_of_visits hvisit hconstant hp
      exact h _ w rest (by simp [hcode]) htaken
    · have hpre : w <+: t := by
        rcases (constantAt_eq_some hconstant).2 with ⟨r, rfl, -, rfl⟩ | ⟨-, rfl⟩
        · obtain ⟨rest, hrest, -⟩ := exists_rest_of_literalAt (U := U) r
          exact ⟨rest, by rw [List.cons_append, ← hrest]⟩
        · obtain ⟨rest, hrest, -⟩ := exists_rest_of_literalAt (U := U) t
          exact ⟨rest, hrest.symm⟩
      obtain ⟨rest, rfl⟩ := hpre
      refine ⟨s, rest, by rw [hcode, List.append_assoc], ?_⟩
      intro p hp
      by_contra hchar
      exact htoken ⟨p, hp, by simpa using hchar⟩

/-- The width of a type name is cut to its last digit and taken as a constant. -/
theorem int32_yields_constant :
    ¬∀ (U : UnicodeData) (L : Letters U) (order : SetOrder) (code : Text),
      ∀ w ∈ extractNumericConstants U order code, BeginsToken L w code := by
  intro h
  have hmem : "2".toList ∈ extractNumericConstants asciiData .plain
      "int32_t zero() { return 0; }".toList := by
    rw [mem_extractNumericConstants]
    decide
  have hbegins := h asciiData asciiLetters .plain _ _ hmem
  rw [beginsToken_iff] at hbegins
  exact absurd hbegins (by decide)

end TTCEvaluation
