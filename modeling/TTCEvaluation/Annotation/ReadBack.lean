import TTCEvaluation.Annotation.Ranges
import TTCEvaluation.Arithmetic.Shortest

/-!
# Reading printed numbers back

A printed double is read back as the same double, whether it is written with
or without an exponent, and a printed integer as the nearest double.
-/

namespace TTCEvaluation

section

variable (U : UnicodeData)

/-- The exponent of a number, with or without a sign; an empty text is no exponent. -/
def exponentValue (t : Text) : ℤ :=
  if t.head? = some '+' then digitsValue U t.tail else integerValue U t

/-- The exact value of a decimal number that may have an exponent. -/
def numeralValue (t : Text) : ℚ :=
  literalValue U (t.takeWhile (· ≠ 'e')) * 10 ^ exponentValue U (t.dropWhile (· ≠ 'e')).tail

/-- `float(t)` of a printed number. -/
def readFloat (t : Text) : WithBot (WithTop ℚ) :=
  if t = "inf".toList then ((⊤ : WithTop ℚ) : WithBot (WithTop ℚ))
  else if t = "-inf".toList then ⊥
  else readDouble (numeralValue U t)

end

variable {U : UnicodeData}

/-! ## Digits -/

theorem digitsValue_append (a b : Text) :
    digitsValue U (a ++ b) = digitsValue U a * 10 ^ b.length + digitsValue U b := by
  induction b using List.reverseRecOn with
  | nil => simp [digitsValue]
  | append_singleton b c ih =>
      rw [← List.append_assoc, digitsValue_append_singleton, digitsValue_append_singleton, ih,
        List.length_append, List.length_singleton, pow_succ]
      ring

theorem decimal_zero : U.decimal '0' = some 0 := by
  rw [U.decimal_ascii '0' (by decide)]
  rfl

@[simp] theorem digitsValue_zeros (k : ℕ) : digitsValue U (List.replicate k '0') = 0 := by
  induction k with
  | zero => rfl
  | succ k ih =>
      rw [List.replicate_succ', digitsValue_append_singleton, ih, decimal_zero]
      rfl

@[simp] theorem digitsValue_zeros_append (k : ℕ) (ds : Text) :
    digitsValue U (List.replicate k '0' ++ ds) = digitsValue U ds := by
  rw [digitsValue_append, digitsValue_zeros, zero_mul, zero_add]

theorem digitsValue_append_zeros (ds : Text) (k : ℕ) :
    digitsValue U (ds ++ List.replicate k '0') = digitsValue U ds * 10 ^ k := by
  rw [digitsValue_append, digitsValue_zeros, List.length_replicate, add_zero]

@[simp] theorem digitsValue_toDigits (n : ℕ) : digitsValue U (Nat.toDigits 10 n) = n := by
  have hdigits : ∀ c ∈ Nat.toDigits 10 n, c.isDigit := fun c hc =>
    Nat.isDigit_of_mem_toDigits (by decide) (by decide) hc
  rw [digitsValue_eq_ofDigitChars hdigits]
  simp

/-! ## Literals with a point -/

theorem ne_of_isDigit {c d : Char} (hc : c.isDigit) (hd : d.isDigit = false) : c ≠ d := by
  rintro rfl
  simp [hd] at hc

theorem head?_ne_of_digits {ds : Text} (h : ∀ c ∈ ds, c.isDigit) : ds.head? ≠ some '-' := by
  intro hhead
  exact ne_of_isDigit (h '-' (List.mem_of_mem_head? hhead)) (by decide) rfl

theorem literalValue_digits {ds : Text} (h : ∀ c ∈ ds, c.isDigit) :
    literalValue U ds = digitsValue U ds := by
  have hdot : '.' ∉ ds := fun hmem => ne_of_isDigit (h '.' hmem) (by decide) rfl
  rw [literalValue_of_integer hdot, integerValue, if_neg (head?_ne_of_digits h)]
  rfl

theorem literalValue_point {whole : Text} (h : ∀ c ∈ whole, c.isDigit) (hne : whole ≠ [])
    (fraction : Text) :
    literalValue U (whole ++ '.' :: fraction) =
      digitsValue U (whole ++ fraction) / 10 ^ fraction.length := by
  have hall : ∀ c ∈ whole, decide (c ≠ '.') = true := by
    intro c hc
    simpa using ne_of_isDigit (h c hc) (by decide)
  have hhead : (whole ++ '.' :: fraction).head? ≠ some '-' := by
    rw [List.head?_append_of_ne_nil _ hne]
    exact head?_ne_of_digits h
  have htake : (whole ++ '.' :: fraction).takeWhile (· ≠ '.') = whole := by
    rw [List.takeWhile_append_of_pos hall]
    simp
  have hdrop : (whole ++ '.' :: fraction).dropWhile (· ≠ '.') = '.' :: fraction := by
    rw [List.dropWhile_append_of_pos hall]
    simp
  have hpow : (10 : ℚ) ^ fraction.length ≠ 0 := by positivity
  simp only [literalValue, if_neg hhead, htake, hdrop, List.tail_cons, digitsValue_append]
  push_cast
  field_simp

theorem literalValue_minus {t : Text} (h : t.head? ≠ some '-') :
    literalValue U ('-' :: t) = -literalValue U t := by
  simp [literalValue, h]

/-! ## Exponents -/

theorem numeralValue_of_notMem {t : Text} (h : 'e' ∉ t) : numeralValue U t = literalValue U t := by
  have hall : ∀ c ∈ t, decide (c ≠ 'e') = true := by
    intro c hc
    simpa using ne_of_mem_of_not_mem hc h
  rw [numeralValue, List.takeWhile_eq_self_iff.mpr hall, List.dropWhile_eq_nil_iff.mpr hall]
  simp [exponentValue, integerValue, digitsValue]

theorem numeralValue_exponent {t : Text} (h : 'e' ∉ t) (e : Text) :
    numeralValue U (t ++ 'e' :: e) = literalValue U t * 10 ^ exponentValue U e := by
  have hall : ∀ c ∈ t, decide (c ≠ 'e') = true := by
    intro c hc
    simpa using ne_of_mem_of_not_mem hc h
  rw [numeralValue, List.takeWhile_append_of_pos hall, List.dropWhile_append_of_pos hall]
  simp

theorem numeralValue_minus {t : Text} (h : t.head? ≠ some '-') :
    numeralValue U ('-' :: t) = -numeralValue U t := by
  have htake : (t.takeWhile (· ≠ 'e')).head? ≠ some '-' := by
    cases t with
    | nil => simp
    | cons c t =>
        simp only [List.head?_cons, ne_eq, Option.some.injEq] at h
        by_cases hc : c = 'e' <;> simp [hc, h]
  rw [numeralValue, numeralValue, List.takeWhile_cons_of_pos (by decide),
    List.dropWhile_cons_of_pos (by decide), literalValue_minus htake, neg_mul]

@[simp] theorem exponentValue_exponentStr (n : ℤ) : exponentValue U (exponentStr n) = n := by
  have hpad : digitsValue U ((Nat.toDigits 10 n.natAbs).leftpad 2 '0') = n.natAbs := by
    rw [List.leftpad, digitsValue_zeros_append, digitsValue_toDigits]
  by_cases hneg : n < 0
  · rw [exponentStr, if_pos hneg, exponentValue, if_neg (by simp), integerValue,
      if_pos List.head?_cons, List.tail_cons, hpad]
    omega
  · rw [exponentStr, if_neg hneg, exponentValue, if_pos List.head?_cons, List.tail_cons, hpad]
    omega

/-! ## Placing the point -/

theorem notMem_point {whole fraction : Text} (hwhole : ∀ c ∈ whole, c.isDigit)
    (hfraction : ∀ c ∈ fraction, c.isDigit) : 'e' ∉ whole ++ '.' :: fraction := by
  simp only [List.mem_append, List.mem_cons, not_or]
  exact ⟨fun h => ne_of_isDigit (hwhole 'e' h) (by decide) rfl, by decide,
    fun h => ne_of_isDigit (hfraction 'e' h) (by decide) rfl⟩

theorem isDigit_of_mem_append {a b : Text} (ha : ∀ c ∈ a, c.isDigit) (hb : ∀ c ∈ b, c.isDigit) :
    ∀ c ∈ a ++ b, c.isDigit := by
  intro c hc
  rcases List.mem_append.mp hc with hc | hc
  · exact ha c hc
  · exact hb c hc

theorem isDigit_of_mem_zeros {k : ℕ} : ∀ c ∈ List.replicate k '0', c.isDigit := by
  intro c hc
  rw [List.eq_of_mem_replicate hc]
  rfl

theorem isDigit_of_mem_rightpad {a : Text} (ha : ∀ c ∈ a, c.isDigit) (k : ℕ) :
    ∀ c ∈ a.rightpad k '0', c.isDigit :=
  isDigit_of_mem_append ha isDigit_of_mem_zeros

theorem numeralValue_point {whole fraction : Text} (hwhole : ∀ c ∈ whole, c.isDigit)
    (hne : whole ≠ []) (hfraction : ∀ c ∈ fraction, c.isDigit) :
    numeralValue U (whole ++ '.' :: fraction) =
      digitsValue U (whole ++ fraction) / 10 ^ fraction.length := by
  rw [numeralValue_of_notMem (notMem_point hwhole hfraction), literalValue_point hwhole hne]

section

variable {digits : Text} (hdigits : ∀ c ∈ digits, c.isDigit)

include hdigits

/-- The point comes before the digits. -/
theorem numeralValue_leadingZeros {point : ℤ} (hpoint : point ≤ 0) :
    numeralValue U ('0' :: '.' :: (List.replicate point.natAbs '0' ++ digits)) =
      digitsValue U digits * 10 ^ (point - digits.length) := by
  have hread := @numeralValue_point U ['0'] (List.replicate point.natAbs '0' ++ digits)
    (by simp) (by simp) (isDigit_of_mem_append isDigit_of_mem_zeros hdigits)
  have hvalue : digitsValue U (['0'] ++ (List.replicate point.natAbs '0' ++ digits)) =
      digitsValue U digits := by
    rw [← List.append_assoc]
    exact digitsValue_zeros_append (point.natAbs + 1) digits
  rw [hvalue] at hread
  refine hread.trans ?_
  rw [List.length_append, List.length_replicate, div_eq_mul_inv, ← zpow_natCast, ← zpow_neg]
  congr 2
  rw [Nat.cast_add]
  omega

/-- The point comes after some of the digits, or after all of them and some zeros. -/
theorem numeralValue_inside {point : ℤ} (hpoint : 0 < point) :
    numeralValue U ((digits.take point.toNat).rightpad point.toNat '0' ++
        '.' :: (digits.drop point.toNat).rightpad 1 '0') =
      digitsValue U digits * 10 ^ (point - digits.length) := by
  have htake : ∀ c ∈ digits.take point.toNat, c.isDigit := fun c hc =>
    hdigits c (List.mem_of_mem_take hc)
  have hdrop : ∀ c ∈ digits.drop point.toNat, c.isDigit := fun c hc =>
    hdigits c (List.mem_of_mem_drop hc)
  have hwhole : (digits.take point.toNat).rightpad point.toNat '0' ≠ [] := by
    rw [← List.length_pos_iff, List.rightpad, List.length_append, List.length_replicate]
    omega
  rw [numeralValue_point (isDigit_of_mem_rightpad htake _) hwhole (isDigit_of_mem_rightpad hdrop _)]
  rcases lt_or_ge point.toNat digits.length with hlt | hge
  · have hpadWhole : (digits.take point.toNat).rightpad point.toNat '0' =
        digits.take point.toNat := by
      rw [List.rightpad, List.length_take_of_le hlt.le, Nat.sub_self, List.replicate_zero,
        List.append_nil]
    have hpadFraction : (digits.drop point.toNat).rightpad 1 '0' = digits.drop point.toNat := by
      rw [List.rightpad, List.length_drop, Nat.sub_eq_zero_of_le (by omega), List.replicate_zero,
        List.append_nil]
    rw [hpadWhole, hpadFraction, List.take_append_drop, List.length_drop, div_eq_mul_inv,
      ← zpow_natCast, ← zpow_neg]
    congr 2
    omega
  · rw [List.take_of_length_le hge, List.drop_of_length_le hge]
    have hpad : digits.rightpad point.toNat '0' ++ List.rightpad 1 '0' [] =
        digits ++ List.replicate (point.toNat - digits.length + 1) '0' := by
      rw [List.rightpad, List.rightpad, List.append_assoc, List.nil_append, List.length_nil,
        List.replicate_append_replicate]
    rw [hpad, digitsValue_append_zeros]
    have hexp : point - digits.length = ((point.toNat - digits.length : ℕ) : ℤ) := by omega
    have hlen : (List.rightpad 1 '0' ([] : Text)).length = 1 := rfl
    rw [hexp, hlen, zpow_natCast, pow_succ]
    push_cast
    ring

variable (hne : digits ≠ [])

include hne

/-- The digits with the point after the first of them; a single digit has no point. -/
theorem literalValue_scientific :
    'e' ∉ digits.take 1 ++ (if digits.length = 1 then [] else '.' :: digits.drop 1) ∧
      literalValue U (digits.take 1 ++ (if digits.length = 1 then [] else '.' :: digits.drop 1)) =
        digitsValue U digits * 10 ^ (1 - digits.length : ℤ) := by
  have htake : ∀ c ∈ digits.take 1, c.isDigit := fun c hc => hdigits c (List.mem_of_mem_take hc)
  have hdrop : ∀ c ∈ digits.drop 1, c.isDigit := fun c hc => hdigits c (List.mem_of_mem_drop hc)
  split_ifs with hone
  · rw [List.append_nil, List.take_of_length_le hone.le]
    refine ⟨fun h => ne_of_isDigit (hdigits 'e' h) (by decide) rfl, ?_⟩
    rw [literalValue_digits hdigits, hone]
    simp
  · refine ⟨notMem_point htake hdrop, ?_⟩
    have hlen := List.length_pos_iff.mpr hne
    rw [literalValue_point htake (by simpa using hne), List.take_append_drop, List.length_drop,
      div_eq_mul_inv, ← zpow_natCast, ← zpow_neg]
    congr 2
    omega

theorem numeralValue_placePoint (point : ℤ) :
    numeralValue U (placePoint digits point) =
      digitsValue U digits * 10 ^ (point - digits.length) := by
  rw [placePoint]
  by_cases hexp : point < -3 ∨ 16 < point
  · obtain ⟨he, hvalue⟩ := literalValue_scientific (U := U) hdigits hne
    rw [if_pos hexp, numeralValue_exponent he, hvalue, exponentValue_exponentStr, mul_assoc,
      ← zpow_add₀ (by norm_num)]
    congr 2
    ring
  · rw [if_neg hexp]
    by_cases hsmall : point ≤ 0
    · rw [if_pos hsmall]
      exact numeralValue_leadingZeros hdigits hsmall
    · rw [if_neg hsmall]
      exact numeralValue_inside hdigits (not_le.mp hsmall)

end

/-! ## Printed numbers -/

/-- The last zeros of the digits go into the exponent. -/
theorem exists_stripped (d : ℕ) (hd : d ≠ 0) :
    ∃ k, (Nat.toDigits 10 d).length = ((Nat.toDigits 10 d).rdropWhile (· = '0')).length + k ∧
      digitsValue U ((Nat.toDigits 10 d).rdropWhile (· = '0')) * 10 ^ k = d ∧
      (Nat.toDigits 10 d).rdropWhile (· = '0') ≠ [] := by
  have hsplit := @List.rdropWhile_append_rtakeWhile Char (· = '0') (Nat.toDigits 10 d)
  have hzeros : (Nat.toDigits 10 d).rtakeWhile (· = '0') =
      List.replicate ((Nat.toDigits 10 d).rtakeWhile (· = '0')).length '0' := by
    rw [List.eq_replicate_iff]
    refine ⟨rfl, fun c hc => ?_⟩
    simpa using List.mem_rtakeWhile_imp hc
  have hvalue : digitsValue U ((Nat.toDigits 10 d).rdropWhile (· = '0')) *
      10 ^ ((Nat.toDigits 10 d).rtakeWhile (· = '0')).length = d := by
    rw [← digitsValue_append_zeros, ← hzeros, hsplit, digitsValue_toDigits]
  refine ⟨((Nat.toDigits 10 d).rtakeWhile (· = '0')).length, ?_, hvalue, ?_⟩
  · rw [← List.length_append, hsplit]
  · intro hnil
    rw [hnil] at hvalue
    exact hd (by simpa [digitsValue] using hvalue.symm)

theorem readFloat_of_digit {c : Char} (hc : c.isDigit) (t : Text) :
    readFloat U (c :: t) = readDouble (numeralValue U (c :: t)) ∧
      readFloat U ('-' :: c :: t) = readDouble (-numeralValue U (c :: t)) := by
  have hminus : c ≠ '-' := ne_of_isDigit hc (by decide)
  have hi : c ≠ 'i' := ne_of_isDigit hc (by decide)
  have hhead : (c :: t).head? ≠ some '-' := by simpa using hminus
  constructor
  · rw [readFloat, if_neg (by simp [hi]), if_neg (by simp [hminus])]
  · rw [readFloat, if_neg (by simp), if_neg (by simp [hi]), numeralValue_minus hhead]

theorem exists_digit_placePoint {digits : Text} (hdigits : ∀ c ∈ digits, c.isDigit)
    (hne : digits ≠ []) (point : ℤ) : ∃ c t, placePoint digits point = c :: t ∧ c.isDigit := by
  obtain ⟨c, ds, rfl⟩ := List.exists_cons_of_ne_nil hne
  have hc := hdigits c List.mem_cons_self
  rw [placePoint]
  by_cases hexp : point < -3 ∨ 16 < point
  · rw [if_pos hexp]
    exact ⟨c, _, rfl, hc⟩
  · rw [if_neg hexp]
    by_cases hsmall : point ≤ 0
    · rw [if_pos hsmall]
      exact ⟨'0', _, rfl, rfl⟩
    · obtain ⟨n, hn⟩ := Nat.exists_eq_add_of_lt (show 0 < point.toNat by omega)
      rw [if_neg hsmall, hn, Nat.zero_add]
      exact ⟨c, _, rfl, hc⟩

/-- The text printed for a positive double. -/
def positiveStr (x : ℚ) : Text :=
  placePoint ((Nat.toDigits 10 (shortestDecimal x).1).rdropWhile (· = '0'))
    ((Nat.toDigits 10 (shortestDecimal x).1).length + (shortestDecimal x).2)

theorem floatStr_eq {x : ℚ} (hx : x ≠ 0) :
    floatStr x = if x < 0 then '-' :: positiveStr |x| else positiveStr |x| := by
  rw [floatStr, if_neg hx]
  rfl

theorem isDigit_of_mem_stripped {d : ℕ} :
    ∀ c ∈ (Nat.toDigits 10 d).rdropWhile (· = '0'), c.isDigit := by
  intro c hc
  have hmem := (List.rdropWhile_prefix _ _).subset hc
  exact Nat.isDigit_of_mem_toDigits (by decide) (by decide) hmem

section

variable {x : ℚ} (hpos : 0 < x) (hx : toDouble x = x)

include hpos hx

theorem shortestDecimal_ne_zero : (shortestDecimal x).1 ≠ 0 := by
  intro hzero
  have hread := toDouble_shortestDecimal hpos hx
  rw [hzero, Nat.cast_zero, zero_mul, toDouble_zero] at hread
  exact hpos.ne hread

theorem toDouble_numeralValue_positiveStr : toDouble (numeralValue U (positiveStr x)) = x := by
  obtain ⟨k, hlen, hvalue, hne⟩ := @exists_stripped U _ (shortestDecimal_ne_zero hpos hx)
  have hdecimal : numeralValue U (positiveStr x) =
      (shortestDecimal x).1 * 10 ^ (shortestDecimal x).2 := by
    have hexp : ((Nat.toDigits 10 (shortestDecimal x).1).length + (shortestDecimal x).2 -
        ((Nat.toDigits 10 (shortestDecimal x).1).rdropWhile (· = '0')).length : ℤ) =
        k + (shortestDecimal x).2 := by
      rw [hlen]
      push_cast
      ring
    rw [positiveStr, numeralValue_placePoint isDigit_of_mem_stripped hne, hexp,
      zpow_add₀ (by norm_num), zpow_natCast, ← mul_assoc]
    congr 1
    exact_mod_cast hvalue
  rw [hdecimal, toDouble_shortestDecimal hpos hx]

end

theorem readDouble_eq {x y : ℚ} (hx : toDouble y = x) (hfinite : |x| < 2 ^ 1024) :
    readDouble y = ((x : WithTop ℚ) : WithBot (WithTop ℚ)) := by
  obtain ⟨hlow, hhigh⟩ := abs_lt.mp hfinite
  rw [readDouble, hx, if_neg (not_le.mpr hhigh), if_neg (not_le.mpr hlow)]

/-- A printed double is read back. -/
theorem readFloat_floatStr {x : ℚ} (hx : toDouble x = x) (hfinite : |x| < 2 ^ 1024) :
    readFloat U (floatStr x) = ((x : WithTop ℚ) : WithBot (WithTop ℚ)) := by
  rcases eq_or_ne x 0 with rfl | hne
  · have hzero : numeralValue U "0.0".toList = 0 := by
      have hpoint := @numeralValue_point U ['0'] ['0'] (by simp) (by simp) (by simp)
      have hvalue : digitsValue U (['0'] ++ ['0']) = 0 := digitsValue_zeros 2
      rw [hvalue] at hpoint
      simpa using hpoint
    have hread := (readFloat_of_digit (U := U) (c := '0') (by decide) ".0".toList).1
    refine hread.trans (readDouble_eq ?_ hfinite)
    exact (congrArg toDouble hzero).trans toDouble_zero
  · have hpos : 0 < |x| := abs_pos.mpr hne
    have habs : toDouble |x| = |x| := by
      rcases abs_cases x with ⟨heq, -⟩ | ⟨heq, -⟩
      · rw [heq, hx]
      · rw [heq, toDouble_neg, hx]
    have hvalue := toDouble_numeralValue_positiveStr (U := U) hpos habs
    obtain ⟨k, -, -, hstripped⟩ := @exists_stripped U _ (shortestDecimal_ne_zero hpos habs)
    obtain ⟨c, t, htext, hc⟩ := exists_digit_placePoint isDigit_of_mem_stripped hstripped
      ((Nat.toDigits 10 (shortestDecimal |x|).1).length + (shortestDecimal |x|).2)
    change positiveStr |x| = c :: t at htext
    rw [htext] at hvalue
    obtain ⟨hplus, hminus⟩ := readFloat_of_digit (U := U) hc t
    rw [floatStr_eq hne, htext]
    by_cases hneg : x < 0
    · rw [if_pos hneg, hminus]
      apply readDouble_eq _ hfinite
      rw [toDouble_neg, hvalue, abs_of_neg hneg, neg_neg]
    · rw [if_neg hneg, hplus]
      apply readDouble_eq _ hfinite
      rw [hvalue, abs_of_nonneg (not_lt.mp hneg)]

/-- A printed integer is read as the nearest double. -/
theorem readFloat_intStr {n : ℤ} {x : ℚ} (hx : toDouble n = x) (hfinite : |x| < 2 ^ 1024) :
    readFloat U (intStr n) = ((x : WithTop ℚ) : WithBot (WithTop ℚ)) := by
  have hdigits : ∀ c ∈ Nat.toDigits 10 n.natAbs, c.isDigit := fun c hc =>
    Nat.isDigit_of_mem_toDigits (by decide) (by decide) hc
  have he : 'e' ∉ Nat.toDigits 10 n.natAbs := fun h => ne_of_isDigit (hdigits 'e' h) (by decide) rfl
  have hvalue : numeralValue U (Nat.toDigits 10 n.natAbs) = n.natAbs := by
    rw [numeralValue_of_notMem he, literalValue_digits hdigits, digitsValue_toDigits]
  obtain ⟨c, t, htext⟩ := List.exists_cons_of_ne_nil (Nat.toDigits_ne_nil (n := n.natAbs) (b := 10))
  rw [htext] at hdigits hvalue
  obtain ⟨hplus, hminus⟩ := readFloat_of_digit (U := U) (hdigits c List.mem_cons_self) t
  rw [intStr, htext]
  by_cases hneg : n < 0
  · rw [if_pos hneg, hminus, hvalue]
    apply readDouble_eq _ hfinite
    rw [← hx]
    congr 1
    rw [Nat.cast_natAbs, abs_of_neg hneg]
    push_cast
    ring
  · rw [if_neg hneg, hplus, hvalue]
    apply readDouble_eq _ hfinite
    rw [← hx]
    congr 1
    rw [Nat.cast_natAbs, abs_of_nonneg (not_lt.mp hneg)]

end TTCEvaluation
