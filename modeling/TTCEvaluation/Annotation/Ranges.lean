import TTCEvaluation.Annotation.CellFormat
import TTCEvaluation.Annotation.Literals
import TTCEvaluation.Annotation.Reproducible
import TTCEvaluation.Arithmetic.Steps
import Mathlib.Data.Finset.Max

/-!
# The proposed range

The boundaries of a row are the ends of the constants sorted by their doubles,
and the values outside are one step away in double precision.  Read as exact
integers they enclose the constants as long as the ends are told apart from
the other constants and the steps survive the rounding.
-/

namespace TTCEvaluation

section

variable (U : UnicodeData)

/-- `int(w)` of an integer literal. -/
def integerValue (w : Text) : ℤ :=
  if w.head? = some '-' then -(digitsValue U w.tail) else digitsValue U w

/-- Read as exact integers, the boundaries of a row enclose the listed constants, and the
proposed values lie outside. -/
def ProposesOutside (row : AnnotationRow) : Prop :=
  ∃ low high below above, row.minBoundary = some low ∧ row.maxBoundary = some high ∧
    row.belowMin = some below ∧ row.aboveMax = some above ∧
    ∀ c ∈ splitValues U row.bvaExpectedValues,
      integerValue U low ≤ integerValue U c ∧ integerValue U c ≤ integerValue U high ∧
        integerValue U below < integerValue U c ∧ integerValue U c < integerValue U above

/-- The largest and the smallest constants are read as doubles that no constant of another value
shares, and one step away from them survives the rounding. -/
structure RangeKept (constants : List Text) : Prop where
  largest : ∀ w ∈ constants, (∀ v ∈ constants, integerValue U v ≤ integerValue U w) →
    RoomAbove (integerValue U w) ∧
      ∀ v ∈ constants, float U v = float U w → integerValue U v = integerValue U w
  smallest : ∀ w ∈ constants, (∀ v ∈ constants, integerValue U w ≤ integerValue U v) →
    RoomAbove (-integerValue U w) ∧
      ∀ v ∈ constants, float U v = float U w → integerValue U v = integerValue U w

/-- The constants of a source are integer literals of fewer than 300 digits. -/
def IntegerConstants (code : Text) : Prop :=
  ∀ w ∈ matchedConstants U code, '.' ∉ w ∧ w.countP U.isDecimal < 300

end

variable {U : UnicodeData} {order : SetOrder} {code w : Text}

/-! ## Reading integer literals -/

theorem digitsValue_append_singleton (ds : Text) (c : Char) :
    digitsValue U (ds ++ [c]) = 10 * digitsValue U ds + (U.decimal c).getD 0 := by
  simp [digitsValue]

theorem digitsValue_lt (ds : Text) : digitsValue U ds < 10 ^ ds.length := by
  induction ds using List.reverseRecOn with
  | nil => simp [digitsValue]
  | append_singleton ds c ih =>
      have hc : (U.decimal c).getD 0 < 10 := by
        cases hd : U.decimal c with
        | none => simp
        | some d => simpa using U.decimal_lt_ten c d hd
      rw [digitsValue_append_singleton, List.length_append, List.length_singleton, pow_succ]
      omega

theorem literalValue_of_integer (h : '.' ∉ w) : literalValue U w = integerValue U w := by
  have hbody (body : Text) (hb : '.' ∉ body) :
      body.takeWhile (· ≠ '.') = body ∧ body.dropWhile (· ≠ '.') = [] := by
    have hall : ∀ c ∈ body, decide (c ≠ '.') = true := by
      intro c hc
      simpa using ne_of_mem_of_not_mem hc hb
    exact ⟨List.takeWhile_eq_self_iff.mpr hall, List.dropWhile_eq_nil_iff.mpr hall⟩
  unfold literalValue integerValue
  by_cases hminus : w.head? = some '-'
  · obtain ⟨htake, hdrop⟩ := hbody w.tail fun hmem => h (List.mem_of_mem_tail hmem)
    simp only [if_pos hminus, htake, hdrop]
    simp [digitsValue]
  · obtain ⟨htake, hdrop⟩ := hbody w h
    simp only [if_neg hminus, htake, hdrop]
    simp [digitsValue]

theorem digitsValue_eq_ofDigitChars {ds : Text} (h : ∀ c ∈ ds, c.isDigit) :
    digitsValue U ds = Nat.ofDigitChars 10 ds 0 := by
  rw [Nat.ofDigitChars_eq_foldl, digitsValue]
  apply List.foldl_ext
  intro n c hc
  have hdigit := isAsciiDigit_of_isDigit (h c hc)
  rw [U.decimal_ascii c (isAscii_of_isAsciiDigit hdigit), if_pos hdigit]
  rfl

/-- A printed integer is read back. -/
@[simp] theorem integerValue_intStr (n : ℤ) : integerValue U (intStr n) = n := by
  have hdigits : ∀ c ∈ Nat.toDigits 10 n.natAbs, c.isDigit := fun c hc =>
    Nat.isDigit_of_mem_toDigits (by decide) (by decide) hc
  have hread : digitsValue U (Nat.toDigits 10 n.natAbs) = n.natAbs := by
    rw [digitsValue_eq_ofDigitChars hdigits]
    simp
  have hminus : (Nat.toDigits 10 n.natAbs).head? ≠ some '-' := by
    intro h
    exact absurd (hdigits '-' (List.mem_of_mem_head? h)) (by decide)
  unfold integerValue intStr
  by_cases hneg : n < 0
  · rw [if_pos hneg, if_pos List.head?_cons, List.tail_cons, hread]
    omega
  · rw [if_neg hneg, if_neg hminus, hread]
    omega

/-! ## Doubles of the constants -/

theorem exists_digits_of_integer (hw : w ∈ matchedConstants U code) (hdot : '.' ∉ w) :
    ∃ ds, (∀ c ∈ ds, U.isDecimal c) ∧ (w = ds ∨ w = '-' :: ds) := by
  have hmem : w ∈ extractNumericConstants U .plain code := mem_extractNumericConstants.mpr hw
  obtain ⟨s, t, -, -, hconstant⟩ := mem_constants_iff.mp hmem
  have hdigits {r : Text} (hr : '.' ∉ literalAt U r) : ∀ c ∈ literalAt U r, U.isDecimal c := by
    intro c hc
    rcases of_mem_literalAt hc with rfl | h
    · exact (hr hc).elim
    · exact h
  rcases (constantAt_eq_some hconstant).2 with ⟨r, -, -, rfl⟩ | ⟨-, rfl⟩
  · exact ⟨_, hdigits fun h => hdot (List.mem_cons_of_mem _ h), Or.inr rfl⟩
  · exact ⟨_, hdigits hdot, Or.inl rfl⟩

theorem abs_integerValue_lt (hw : w ∈ matchedConstants U code) (hdot : '.' ∉ w) :
    |integerValue U w| < 10 ^ w.countP U.isDecimal := by
  obtain ⟨ds, hds, hcases⟩ := exists_digits_of_integer hw hdot
  have hcount : ds.countP U.isDecimal = ds.length := List.countP_eq_length.mpr hds
  have hlt : ((digitsValue U ds : ℕ) : ℤ) < 10 ^ ds.length := by
    exact_mod_cast digitsValue_lt (U := U) ds
  rcases hcases with rfl | rfl
  · have hminus : w.head? ≠ some '-' := by
      intro h
      have hdecimal := hds '-' (List.mem_of_mem_head? h)
      simp [isDecimal_minus] at hdecimal
    rw [integerValue, if_neg hminus, hcount, abs_of_nonneg (by positivity)]
    exact hlt
  · rw [List.countP_cons_of_neg (by simp [isDecimal_minus]), hcount]
    simp only [integerValue, List.head?_cons, if_true, List.tail_cons, abs_neg]
    rw [abs_of_nonneg (by positivity)]
    exact hlt

section

variable (hint : IntegerConstants U code)

include hint

theorem float_of_integer (hw : w ∈ matchedConstants U code) :
    float U w = ((toDouble (integerValue U w) : WithTop ℚ) : WithBot (WithTop ℚ)) := by
  obtain ⟨hdot, hcount⟩ := hint w hw
  rw [float, literalValue_of_integer hdot]
  apply readDouble_of_small (k := 10 * 100) (by norm_num)
  have hlt : |(integerValue U w : ℚ)| < 10 ^ w.countP U.isDecimal := by
    exact_mod_cast abs_integerValue_lt hw hdot
  calc
    |(integerValue U w : ℚ)| ≤ 10 ^ w.countP U.isDecimal := hlt.le
    _ ≤ 10 ^ (3 * 100) := pow_le_pow_right₀ (by norm_num) hcount.le
    _ = (10 ^ 3) ^ 100 := pow_mul _ _ _
    _ ≤ (2 ^ 10) ^ 100 := by gcongr; norm_num
    _ = 2 ^ (10 * 100) := (pow_mul _ _ _).symm

theorem float_le_of_value_le {a b : Text} (ha : a ∈ matchedConstants U code)
    (hb : b ∈ matchedConstants U code) (h : integerValue U a ≤ integerValue U b) :
    float U a ≤ float U b := by
  rw [float_of_integer hint ha, float_of_integer hint hb, WithBot.coe_le_coe, WithTop.coe_le_coe]
  exact toDouble_mono (by exact_mod_cast h)

/-- The value written one step from a boundary is the rounded sum. -/
theorem outsideValue_of_integer (hw : w ∈ matchedConstants U code) (s : ℤ) :
    (integerValue U (outsideValue s (float U w)) : ℚ) =
      toDouble (toDouble (integerValue U w) + s) := by
  obtain ⟨k, hk⟩ := exists_intCast_eq_toDouble (integerValue U w)
  obtain ⟨l, hl⟩ := exists_intCast_eq_toDouble (k + s)
  have hstep : toDouble ((k : ℚ) + s) = l := by
    rw [← hl]
    push_cast
    rfl
  have hout : outsideValue s (float U w) = intStr ⌊toDouble ((k : ℚ) + s)⌋ := by
    rw [float_of_integer hint hw, hk]
    rfl
  rw [hout, integerValue_intStr, hk, hstep, Int.floor_intCast]

end

/-! ## The ends of the sorted constants -/

theorem getLast?_insertionSort {α : Type*} {r : α → α → Prop} [DecidableRel r] {x : α} :
    ∀ l : List α, (∀ a ∈ l, r a x) → ((l ++ [x]).insertionSort r).getLast? = some x
  | [], _ => rfl
  | a :: l, h => by
      have ih := getLast?_insertionSort l fun b hb => h b (List.mem_cons_of_mem a hb)
      have hdrop : ((l ++ [x]).insertionSort r).dropWhile (fun b => decide ¬r a b) ≠ [] := by
        intro hnil
        have hx := List.dropWhile_eq_nil_iff.mp hnil x (List.mem_of_getLast? ih)
        simp [h a List.mem_cons_self] at hx
      have hsplit := List.takeWhile_append_dropWhile (p := fun b => decide ¬r a b)
        (l := (l ++ [x]).insertionSort r)
      rw [← hsplit, List.getLast?_append_of_ne_nil _ hdrop] at ih
      rw [List.cons_append, List.insertionSort_cons_eq_take_drop]
      rw [List.getLast?_append_of_ne_nil _ (by simp), List.getLast?_cons, ih]
      rfl

theorem head?_startingWith (hw : w ∈ matchedConstants U code)
    (h : ∀ v ∈ matchedConstants U code, float U w ≤ float U v) :
    (extractNumericConstants U (.startingWith w) code).head? = some w := by
  change (((SetOrder.startingWith w).enum (matchedConstants U code)).insertionSort
    fun a b => float U a ≤ float U b).head? = some w
  rw [SetOrder.startingWith_enum hw, List.insertionSort_cons_of_forall_rel]
  · rfl
  · intro v hv
    exact h v (List.mem_dedup.mp (List.mem_of_mem_filter hv))

theorem getLast?_endingWith (hw : w ∈ matchedConstants U code)
    (h : ∀ v ∈ matchedConstants U code, float U v ≤ float U w) :
    (extractNumericConstants U (.endingWith w) code).getLast? = some w := by
  change (((SetOrder.endingWith w).enum (matchedConstants U code)).insertionSort
    fun a b => float U a ≤ float U b).getLast? = some w
  rw [SetOrder.endingWith_enum hw]
  apply getLast?_insertionSort
  intro v hv
  exact h v (List.mem_dedup.mp (List.mem_of_mem_filter hv))

/-- A constant listed before another one is not larger. -/
theorem float_le_of_split {before after : List Text} {v w : Text}
    (hsplit : extractNumericConstants U order code = before ++ v :: after)
    (hw : w ∈ matchedConstants U code) :
    w = v ∨ (w ∈ before ∧ float U w ≤ float U v) ∨ (w ∈ after ∧ float U v ≤ float U w) := by
  have hsorted : (extractNumericConstants U order code).Pairwise _ :=
    pairwise_extractNumericConstants
  have hmem : w ∈ extractNumericConstants U order code := mem_extractNumericConstants.mpr hw
  rw [hsplit, List.pairwise_append, List.pairwise_cons] at hsorted
  rw [hsplit, List.mem_append, List.mem_cons] at hmem
  obtain ⟨-, ⟨hafter, -⟩, hbefore⟩ := hsorted
  rcases hmem with hmem | rfl | hmem
  · exact Or.inr (Or.inl ⟨hmem, hbefore w hmem v List.mem_cons_self⟩)
  · exact Or.inl rfl
  · exact Or.inr (Or.inr ⟨hmem, hafter w hmem⟩)

theorem float_head_le {low : Text}
    (hlow : (extractNumericConstants U order code).head? = some low) :
    low ∈ matchedConstants U code ∧ ∀ w ∈ matchedConstants U code, float U low ≤ float U w := by
  obtain ⟨rest, hrest⟩ := List.head?_eq_some_iff.mp hlow
  refine ⟨mem_extractNumericConstants.mp (List.mem_of_mem_head? hlow), fun w hw => ?_⟩
  have hsplit : extractNumericConstants U order code = [] ++ low :: rest := hrest
  rcases float_le_of_split hsplit hw with rfl | ⟨hnil, -⟩ | ⟨-, hle⟩
  · exact le_refl _
  · exact absurd hnil List.not_mem_nil
  · exact hle

theorem float_le_getLast {high : Text}
    (hhigh : (extractNumericConstants U order code).getLast? = some high) :
    high ∈ matchedConstants U code ∧ ∀ w ∈ matchedConstants U code, float U w ≤ float U high := by
  obtain ⟨rest, hrest⟩ := List.getLast?_eq_some_iff.mp hhigh
  refine ⟨mem_extractNumericConstants.mp (List.mem_of_getLast? hhigh), fun w hw => ?_⟩
  rcases float_le_of_split hrest hw with rfl | ⟨-, hle⟩ | ⟨hnil, -⟩
  · exact le_refl _
  · exact hle
  · exact absurd hnil List.not_mem_nil

/-! ## The range of a row -/

section

variable {row : AnnotationRow} (hint : IntegerConstants U code)

include hint

/-- What a row proposes, in terms of the ends of the sorted constants. -/
theorem proposesOutside_of_ends (hlen : 2 ≤ (extractNumericConstants U order code).length)
    {low high : Text} (hhead : (extractNumericConstants U order code).head? = some low)
    (hlast : (extractNumericConstants U order code).getLast? = some high) :
    ProposesOutside U (preannotate U order code row) ↔
      ∀ c ∈ matchedConstants U code,
        integerValue U low ≤ integerValue U c ∧ integerValue U c ≤ integerValue U high ∧
          toDouble (toDouble (integerValue U low) - 1) < integerValue U c ∧
          (integerValue U c : ℚ) < toDouble (toDouble (integerValue U high) + 1) := by
  obtain ⟨low', high', hhead', hlast', hmin, hmax, hbelow, habove, hvalues⟩ :=
    preannotate_boundaries row hlen
  obtain rfl := Option.some.inj (hhead'.symm.trans hhead)
  obtain rfl := Option.some.inj (hlast'.symm.trans hlast)
  have hbelowValue := outsideValue_of_integer hint (float_head_le hhead).1 (-1)
  have haboveValue := outsideValue_of_integer hint (float_le_getLast hlast).1 1
  push_cast at hbelowValue haboveValue
  rw [← sub_eq_add_neg] at hbelowValue
  simp only [ProposesOutside, hmin, hmax, hbelow, habove, hvalues,
    splitValues_bvaExpectedCell hlen, Option.some.injEq, exists_and_left, exists_eq_left',
    mem_extractNumericConstants, ← hbelowValue, ← haboveValue, Int.cast_lt]
  rfl

omit hint in
theorem exists_largest {f : Text → ℤ} (hne : matchedConstants U code ≠ []) :
    ∃ w ∈ matchedConstants U code, ∀ v ∈ matchedConstants U code, f v ≤ f w := by
  obtain ⟨a, ha⟩ := List.exists_mem_of_ne_nil _ hne
  obtain ⟨w, hw, hmax⟩ := Finset.exists_max_image (matchedConstants U code).toFinset f
    ⟨a, List.mem_toFinset.mpr ha⟩
  exact ⟨w, List.mem_toFinset.mp hw, fun v hv => hmax v (List.mem_toFinset.mpr hv)⟩

/-- Some order of enumeration puts a constant read as the largest one at the end of the row. -/
theorem ends_above_of_proposesOutside
    (hlen : ∀ order, 2 ≤ (extractNumericConstants U order code).length)
    (h : ∀ order, ProposesOutside U (preannotate U order code row))
    (hmem : w ∈ matchedConstants U code) {u : Text} (hu : u ∈ matchedConstants U code)
    (hlargest : ∀ v ∈ matchedConstants U code, float U v ≤ float U u) :
    integerValue U w ≤ integerValue U u ∧
      (integerValue U w : ℚ) < toDouble (toDouble (integerValue U u) + 1) := by
  obtain ⟨low, -, hhead, -⟩ := preannotate_boundaries row (hlen (.endingWith u))
  have hends := (proposesOutside_of_ends hint (hlen _) hhead
    (getLast?_endingWith hu hlargest)).mp (h _) w hmem
  exact ⟨hends.2.1, hends.2.2.2⟩

theorem ends_below_of_proposesOutside
    (hlen : ∀ order, 2 ≤ (extractNumericConstants U order code).length)
    (h : ∀ order, ProposesOutside U (preannotate U order code row))
    (hmem : w ∈ matchedConstants U code) {u : Text} (hu : u ∈ matchedConstants U code)
    (hsmallest : ∀ v ∈ matchedConstants U code, float U u ≤ float U v) :
    integerValue U u ≤ integerValue U w ∧
      toDouble (toDouble (integerValue U u) - 1) < integerValue U w := by
  obtain ⟨-, high, -, hlast, -⟩ := preannotate_boundaries row (hlen (.startingWith u))
  have hends := (proposesOutside_of_ends hint (hlen _) (head?_startingWith hu hsmallest)
    hlast).mp (h _) w hmem
  exact ⟨hends.1, hends.2.2.1⟩

theorem rangeKept_of_proposesOutside
    (hlen : ∀ order, 2 ≤ (extractNumericConstants U order code).length)
    (h : ∀ order, ProposesOutside U (preannotate U order code row)) :
    RangeKept U (matchedConstants U code) where
  largest w hw hmax := by
    have hfloat : ∀ v ∈ matchedConstants U code, float U v ≤ float U w := fun v hv =>
      float_le_of_value_le hint hv hw (hmax v hv)
    refine ⟨?_, ?_⟩
    · rw [← lt_toDouble_step_iff]
      exact (ends_above_of_proposesOutside hint hlen h hw hw hfloat).2
    · intro v hv heq
      apply le_antisymm (hmax v hv)
      exact (ends_above_of_proposesOutside hint hlen h hw hv fun u hu => heq ▸ hfloat u hu).1
  smallest w hw hmin := by
    have hfloat : ∀ v ∈ matchedConstants U code, float U w ≤ float U v := fun v hv =>
      float_le_of_value_le hint hw hv (hmin v hv)
    refine ⟨?_, ?_⟩
    · rw [← toDouble_step_lt_iff]
      exact (ends_below_of_proposesOutside hint hlen h hw hw hfloat).2
    · intro v hv heq
      apply le_antisymm _ (hmin v hv)
      exact (ends_below_of_proposesOutside hint hlen h hw hv fun u hu => heq ▸ hfloat u hu).1

/-- The last constant has the largest value, and room above it. -/
theorem last_of_rangeKept (hkept : RangeKept U (matchedConstants U code)) {high : Text}
    (hlast : (extractNumericConstants U order code).getLast? = some high) :
    (∀ c ∈ matchedConstants U code, integerValue U c ≤ integerValue U high) ∧
      RoomAbove (integerValue U high) := by
  obtain ⟨hhigh, hfloat⟩ := float_le_getLast hlast
  obtain ⟨w, hw, hmax⟩ := exists_largest (f := integerValue U) (List.ne_nil_of_mem hhigh)
  obtain ⟨hroom, hsame⟩ := hkept.largest w hw hmax
  have heq : integerValue U high = integerValue U w :=
    hsame high hhigh ((float_le_of_value_le hint hhigh hw (hmax high hhigh)).antisymm (hfloat w hw))
  rw [heq]
  exact ⟨hmax, hroom⟩

theorem head_of_rangeKept (hkept : RangeKept U (matchedConstants U code)) {low : Text}
    (hhead : (extractNumericConstants U order code).head? = some low) :
    (∀ c ∈ matchedConstants U code, integerValue U low ≤ integerValue U c) ∧
      RoomAbove (-integerValue U low) := by
  obtain ⟨hlow, hfloat⟩ := float_head_le hhead
  obtain ⟨w, hw, hmax⟩ := exists_largest (f := fun v => -integerValue U v) (List.ne_nil_of_mem hlow)
  have hmin : ∀ v ∈ matchedConstants U code, integerValue U w ≤ integerValue U v := fun v hv =>
    neg_le_neg_iff.mp (hmax v hv)
  obtain ⟨hroom, hsame⟩ := hkept.smallest w hw hmin
  have heq : integerValue U low = integerValue U w :=
    hsame low hlow ((hfloat w hw).antisymm (float_le_of_value_le hint hw hlow (hmin low hlow)))
  rw [heq]
  exact ⟨hmin, hroom⟩

/-- Constants below `2 ^ 53` are told apart, and one step away from them is exact. -/
theorem rangeKept_of_small (h : ∀ w ∈ matchedConstants U code, |integerValue U w| < 2 ^ 53) :
    RangeKept U (matchedConstants U code) := by
  have hsame : ∀ w ∈ matchedConstants U code, ∀ v ∈ matchedConstants U code,
      float U v = float U w → integerValue U v = integerValue U w := by
    intro w hw v hv heq
    rw [float_of_integer hint hv, float_of_integer hint hw, toDouble_intCast (h v hv),
      toDouble_intCast (h w hw), WithBot.coe_inj, WithTop.coe_inj] at heq
    exact_mod_cast heq
  exact ⟨fun w hw _ => ⟨Or.inl (h w hw), hsame w hw⟩,
    fun w hw _ => ⟨Or.inl (by rw [abs_neg]; exact h w hw), hsame w hw⟩⟩

end

/-- Whatever the order of enumeration, the proposed values lie outside the range exactly when
the ends of the constants are told apart and have room. -/
theorem proposesOutside_iff (U : UnicodeData) (code : Text) (row : AnnotationRow)
    (hlen : 2 ≤ (extractNumericConstants U .plain code).length) (hint : IntegerConstants U code) :
    (∀ order, ProposesOutside U (preannotate U order code row)) ↔
      RangeKept U (matchedConstants U code) := by
  have hlen (order : SetOrder) : 2 ≤ (extractNumericConstants U order code).length := by
    rw [perm_extractNumericConstants.length_eq] at hlen ⊢
    exact hlen
  constructor
  · exact rangeKept_of_proposesOutside hint hlen
  · intro hkept order
    obtain ⟨low, high, hhead, hlast, -⟩ := preannotate_boundaries row (hlen order)
    obtain ⟨hlow, hbelow⟩ := head_of_rangeKept hint hkept hhead
    obtain ⟨hhigh, habove⟩ := last_of_rangeKept hint hkept hlast
    rw [← toDouble_step_lt_iff] at hbelow
    rw [← lt_toDouble_step_iff] at habove
    rw [proposesOutside_of_ends hint (hlen order) hhead hlast]
    intro c hc
    have hlowc : (integerValue U low : ℚ) ≤ integerValue U c := by exact_mod_cast hlow c hc
    have hchigh : (integerValue U c : ℚ) ≤ integerValue U high := by exact_mod_cast hhigh c hc
    exact ⟨hlow c hc, hhigh c hc, hbelow.trans_le hlowc, hchigh.trans_lt habove⟩

theorem proposesOutside_sample :
    ProposesOutside asciiData
      (preannotate asciiData .plain "if (x > -5 && x < 10)".toList (templateRow [] none [])) := by
  have hmatched : matchedConstants asciiData "if (x > -5 && x < 10)".toList =
      ["-5".toList, "10".toList] := by decide
  have hint : IntegerConstants asciiData "if (x > -5 && x < 10)".toList := by
    rw [IntegerConstants, hmatched]
    decide
  refine (proposesOutside_iff asciiData _ _ ?_ hint).mpr (rangeKept_of_small hint ?_) .plain
  · rw [perm_extractNumericConstants.length_eq, hmatched]
    decide
  · rw [hmatched]
    decide

/-- The step above `2 ^ 53` is lost. -/
theorem aboveMax_not_above :
    ¬∀ (U : UnicodeData) (order : SetOrder) (code : Text) (row : AnnotationRow),
      2 ≤ (extractNumericConstants U order code).length → IntegerConstants U code →
        ProposesOutside U (preannotate U order code row) := by
  intro h
  have hmatched : matchedConstants asciiData "x >= 0 && x <= 9007199254740992".toList =
      ["0".toList, "9007199254740992".toList] := by decide
  have hint : IntegerConstants asciiData "x >= 0 && x <= 9007199254740992".toList := by
    rw [IntegerConstants, hmatched]
    decide
  have hlen (order : SetOrder) : 2 ≤ (extractNumericConstants asciiData order
      "x >= 0 && x <= 9007199254740992".toList).length := by
    rw [perm_extractNumericConstants.length_eq, hmatched]
    decide
  have hmem : "9007199254740992".toList ∈
      matchedConstants asciiData "x >= 0 && x <= 9007199254740992".toList := by
    rw [hmatched]
    decide
  have hlargest : ∀ v ∈ matchedConstants asciiData "x >= 0 && x <= 9007199254740992".toList,
      float asciiData v ≤ float asciiData "9007199254740992".toList := by
    intro v hv
    apply float_le_of_value_le hint hv hmem
    rw [hmatched] at hv
    revert v
    decide
  have hstep := (ends_above_of_proposesOutside hint hlen
    (fun order => h asciiData order _ (templateRow [] none []) (hlen order) hint)
    hmem hmem hlargest).2
  rw [lt_toDouble_step_iff] at hstep
  have hvalue : integerValue asciiData "9007199254740992".toList = 2 ^ 53 := by decide
  rw [hvalue] at hstep
  exact absurd hstep (by decide)

end TTCEvaluation
