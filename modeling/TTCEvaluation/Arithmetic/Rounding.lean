import Mathlib.Algebra.Order.Floor.Ring
import Mathlib.Algebra.Order.Ring.Int
import Mathlib.Data.Int.ConditionallyCompleteOrder
import Mathlib.Data.Int.Log
import Mathlib.Data.Rat.Floor
import Mathlib.Tactic.FieldSimp
import Mathlib.Tactic.Linarith
import Mathlib.Tactic.NormNum
import Mathlib.Tactic.Positivity

/-!
# Rounding to the nearest double and to the nearest decimal

Both roundings go to the nearest point of a grid, ties to the even multiple.
The arithmetic a program computes in is a structure: its rounding is monotone
and keeps small integers, which is all that most results need.  Exact rational
arithmetic and binary64 are the two instances.
-/

namespace TTCEvaluation

/-- The nearest integer, ties to even. -/
def roundHalfEven (x : ℚ) : ℤ :=
  if x - ⌊x⌋ < 1 / 2 then ⌊x⌋
  else if 1 / 2 < x - ⌊x⌋ then ⌊x⌋ + 1
  else if Even ⌊x⌋ then ⌊x⌋ else ⌊x⌋ + 1

/-- `round(x, k)`: the nearest multiple of `10 ^ -k`. -/
def roundTo (k : ℕ) (x : ℚ) : ℚ := roundHalfEven (x * 10 ^ k) / 10 ^ k

/-! ## The integer grid -/

theorem floor_le_roundHalfEven (x : ℚ) : ⌊x⌋ ≤ roundHalfEven x := by
  unfold roundHalfEven
  split_ifs <;> omega

theorem roundHalfEven_le_floor_add_one (x : ℚ) : roundHalfEven x ≤ ⌊x⌋ + 1 := by
  unfold roundHalfEven
  split_ifs <;> omega

theorem roundHalfEven_mono : Monotone roundHalfEven := by
  intro x y hxy
  have hfloor : ⌊x⌋ ≤ ⌊y⌋ := Int.floor_le_floor hxy
  rcases hfloor.lt_or_eq with hlt | heq
  · calc
      roundHalfEven x ≤ ⌊x⌋ + 1 := roundHalfEven_le_floor_add_one x
      _ ≤ ⌊y⌋ := hlt
      _ ≤ roundHalfEven y := floor_le_roundHalfEven y
  · -- on one unit interval only the position of the fractional part counts
    unfold roundHalfEven
    rw [heq]
    have hfrac : x - ⌊y⌋ ≤ y - ⌊y⌋ := sub_le_sub_right hxy _
    split_ifs <;> first | omega | (exfalso; linarith)

@[simp] theorem roundHalfEven_intCast (n : ℤ) : roundHalfEven n = n := by
  simp [roundHalfEven]

@[simp] theorem roundHalfEven_zero : roundHalfEven 0 = 0 := by
  simpa using roundHalfEven_intCast 0

theorem abs_roundHalfEven_sub_le (x : ℚ) : |(roundHalfEven x : ℚ) - x| ≤ 1 / 2 := by
  have hle := Int.floor_le x
  have hlt := Int.lt_floor_add_one x
  unfold roundHalfEven
  rw [abs_le]
  split_ifs <;> push_cast <;> constructor <;> linarith

theorem roundHalfEven_neg (x : ℚ) : roundHalfEven (-x) = -roundHalfEven x := by
  rcases eq_or_ne x ⌊x⌋ with hint | hint
  · rw [hint, ← Int.cast_neg, roundHalfEven_intCast, roundHalfEven_intCast]
  · have hle := Int.floor_le x
    have hpos : (⌊x⌋ : ℚ) < x := lt_of_le_of_ne hle (Ne.symm hint)
    have hlt := Int.lt_floor_add_one x
    have hfloor : ⌊-x⌋ = -⌊x⌋ - 1 := by
      rw [Int.floor_eq_iff]
      push_cast
      constructor <;> linarith
    have hparity : Even (-⌊x⌋ - 1) ↔ ¬Even ⌊x⌋ := by
      rw [Int.even_sub_one, even_neg]
    unfold roundHalfEven
    rw [hfloor]
    push_cast
    split_ifs <;> first | omega | (exfalso; linarith) | (exfalso; tauto)

/-! ## The decimal grid -/

theorem roundTo_mono (k : ℕ) : Monotone (roundTo k) := by
  intro x y hxy
  unfold roundTo
  have hscaled : x * 10 ^ k ≤ y * 10 ^ k := by gcongr
  have hround : (roundHalfEven (x * 10 ^ k) : ℚ) ≤ roundHalfEven (y * 10 ^ k) := by
    exact_mod_cast roundHalfEven_mono hscaled
  gcongr

@[simp] theorem roundTo_intCast (k : ℕ) (n : ℤ) : roundTo k n = n := by
  have hscaled : (n : ℚ) * 10 ^ k = ((n * 10 ^ k : ℤ) : ℚ) := by push_cast; ring
  rw [roundTo, hscaled, roundHalfEven_intCast]
  push_cast
  field_simp

/-- Rounding stays between integers. -/
theorem roundTo_mem_Icc_intCast (k : ℕ) {low high : ℤ} {v : ℚ}
    (h : v ∈ Set.Icc (low : ℚ) high) : roundTo k v ∈ Set.Icc (low : ℚ) high := by
  have hlow := roundTo_mono k h.1
  have hhigh := roundTo_mono k h.2
  rw [roundTo_intCast] at hlow hhigh
  exact ⟨hlow, hhigh⟩

theorem roundTo_mem_unit (k : ℕ) {v : ℚ} (h : v ∈ Set.Icc (0 : ℚ) 1) :
    roundTo k v ∈ Set.Icc (0 : ℚ) 1 := by
  have hrounded := @roundTo_mem_Icc_intCast k 0 1 v
  push_cast at hrounded
  exact hrounded h

theorem abs_roundTo_sub_le (k : ℕ) (x : ℚ) : |roundTo k x - x| ≤ 1 / 2 / 10 ^ k := by
  have hpow : (0 : ℚ) < 10 ^ k := by positivity
  have hdiff : roundTo k x - x = (roundHalfEven (x * 10 ^ k) - x * 10 ^ k) / 10 ^ k := by
    unfold roundTo
    field_simp
  rw [hdiff, abs_div, abs_of_pos hpow]
  gcongr
  exact abs_roundHalfEven_sub_le _

/-! ## The binary64 grid -/

/-- The exponent of the last significand bit of the doubles around `x`. -/
def ulpExponent (x : ℚ) : ℤ := max (Int.log 2 |x| - 52) (-1074)

/-- The nearest double, ties to even; the exponent is not bounded above. -/
def toDouble (x : ℚ) : ℚ := roundHalfEven (x / 2 ^ ulpExponent x) * 2 ^ ulpExponent x

theorem two_zpow_pos (k : ℤ) : (0 : ℚ) < 2 ^ k := zpow_pos two_pos k

@[simp] theorem toDouble_zero : toDouble 0 = 0 := by simp [toDouble]

theorem toDouble_neg (x : ℚ) : toDouble (-x) = -toDouble x := by
  have hexp : ulpExponent (-x) = ulpExponent x := by rw [ulpExponent, abs_neg, ulpExponent]
  rw [toDouble, hexp, neg_div, roundHalfEven_neg, toDouble]
  push_cast
  ring

/-- Powers of two from the last significand bit on are on the grid. -/
theorem exists_zpow_eq_mul_ulp {x : ℚ} {k : ℤ} (hk : ulpExponent x ≤ k) :
    ∃ m : ℤ, (2 : ℚ) ^ k = m * 2 ^ ulpExponent x := by
  obtain ⟨d, hd⟩ := Int.eq_ofNat_of_zero_le (sub_nonneg.mpr hk)
  refine ⟨2 ^ d, ?_⟩
  push_cast
  rw [← zpow_natCast, ← zpow_add₀ two_ne_zero, ← hd]
  ring_nf

/-- A multiple of the last significand bit is a double. -/
theorem toDouble_eq_self {x : ℚ} {m e : ℤ} (hx : x = m * 2 ^ e) (he : ulpExponent x ≤ e) :
    toDouble x = x := by
  obtain ⟨d, hd⟩ := exists_zpow_eq_mul_ulp he
  have hpos := two_zpow_pos (ulpExponent x)
  have hgrid : x / 2 ^ ulpExponent x = ((m * d : ℤ) : ℚ) := by
    rw [div_eq_iff hpos.ne']
    push_cast
    rw [mul_assoc, ← hd]
    exact hx
  rw [toDouble, hgrid, roundHalfEven_intCast, ← hgrid, div_mul_cancel₀ _ hpos.ne']

theorem toDouble_le_zpow {x : ℚ} {k : ℤ} (hx : x ≤ 2 ^ k) (hk : ulpExponent x ≤ k) :
    toDouble x ≤ 2 ^ k := by
  obtain ⟨m, hm⟩ := exists_zpow_eq_mul_ulp hk
  have hpos := two_zpow_pos (ulpExponent x)
  have hscaled : x / 2 ^ ulpExponent x ≤ m := by
    rw [div_le_iff₀ hpos, ← hm]
    exact hx
  have hround := roundHalfEven_mono hscaled
  rw [roundHalfEven_intCast] at hround
  rw [toDouble, hm]
  gcongr

theorem zpow_le_toDouble {x : ℚ} {k : ℤ} (hx : 2 ^ k ≤ x) (hk : ulpExponent x ≤ k) :
    2 ^ k ≤ toDouble x := by
  obtain ⟨m, hm⟩ := exists_zpow_eq_mul_ulp hk
  have hpos := two_zpow_pos (ulpExponent x)
  have hscaled : (m : ℚ) ≤ x / 2 ^ ulpExponent x := by
    rw [le_div_iff₀ hpos, ← hm]
    exact hx
  have hround := roundHalfEven_mono hscaled
  rw [roundHalfEven_intCast] at hround
  rw [toDouble, hm]
  gcongr

theorem toDouble_nonneg {x : ℚ} (hx : 0 ≤ x) : 0 ≤ toDouble x := by
  have hpos := two_zpow_pos (ulpExponent x)
  have hround : 0 ≤ roundHalfEven (x / 2 ^ ulpExponent x) := by
    simpa using roundHalfEven_mono (div_nonneg hx hpos.le)
  have hcast : (0 : ℚ) ≤ roundHalfEven (x / 2 ^ ulpExponent x) := by exact_mod_cast hround
  exact mul_nonneg hcast hpos.le

theorem toDouble_mono_pos {x y : ℚ} (hx : 0 < x) (hxy : x ≤ y) : toDouble x ≤ toDouble y := by
  have hy : 0 < y := hx.trans_le hxy
  have hlog : Int.log 2 x ≤ Int.log 2 y := Int.log_mono_right hx hxy
  have hex : ulpExponent x = max (Int.log 2 x - 52) (-1074) := by rw [ulpExponent, abs_of_pos hx]
  have hey : ulpExponent y = max (Int.log 2 y - 52) (-1074) := by rw [ulpExponent, abs_of_pos hy]
  rcases eq_or_ne (ulpExponent x) (ulpExponent y) with heq | hne
  · have hpos := two_zpow_pos (ulpExponent y)
    rw [toDouble, toDouble, heq]
    have hround : (roundHalfEven (x / 2 ^ ulpExponent y) : ℚ) ≤
        roundHalfEven (y / 2 ^ ulpExponent y) := by
      have hscaled : x / 2 ^ ulpExponent y ≤ y / 2 ^ ulpExponent y := by gcongr
      exact_mod_cast roundHalfEven_mono hscaled
    gcongr
  · -- a power of two lies between the two numbers, and both roundings respect it
    have hbinade : Int.log 2 x + 1 ≤ Int.log 2 y := by omega
    have hyexp : ulpExponent y = Int.log 2 y - 52 := by omega
    have hpow : ((2 : ℕ) : ℚ) ^ Int.log 2 y ≤ y := Int.zpow_log_le_self (by norm_num) hy
    have hxpow : x < ((2 : ℕ) : ℚ) ^ (Int.log 2 x + 1) := Int.lt_zpow_succ_log_self (by norm_num) x
    have hxle : x ≤ 2 ^ Int.log 2 y := by
      calc
        x ≤ 2 ^ (Int.log 2 x + 1) := by exact_mod_cast hxpow.le
        _ ≤ 2 ^ Int.log 2 y := zpow_le_zpow_right₀ (by norm_num) hbinade
    calc
      toDouble x ≤ 2 ^ Int.log 2 y := toDouble_le_zpow hxle (by omega)
      _ ≤ toDouble y := zpow_le_toDouble (by exact_mod_cast hpow) (by omega)

theorem toDouble_mono : Monotone toDouble := by
  intro x y hxy
  rcases lt_or_ge 0 x with hx | hx
  · exact toDouble_mono_pos hx hxy
  · rcases lt_or_ge y 0 with hy | hy
    · have hneg := toDouble_mono_pos (neg_pos.mpr hy) (neg_le_neg hxy)
      rw [toDouble_neg, toDouble_neg] at hneg
      exact neg_le_neg_iff.mp hneg
    · have hxneg : toDouble x ≤ 0 := by
        have h := toDouble_nonneg (neg_nonneg.mpr hx)
        rw [toDouble_neg] at h
        linarith
      exact hxneg.trans (toDouble_nonneg hy)

theorem toDouble_intCast {n : ℤ} (hn : |n| < 2 ^ 53) : toDouble n = n := by
  rcases eq_or_ne n 0 with rfl | hne
  · simp
  · have hpos : (0 : ℚ) < |(n : ℚ)| := by
      rw [abs_pos]
      exact_mod_cast hne
    have hbound : |(n : ℚ)| < ((2 : ℕ) : ℚ) ^ (53 : ℤ) := by exact_mod_cast hn
    have hlog : Int.log 2 |(n : ℚ)| < 53 := (Int.lt_zpow_iff_log_lt (by norm_num) hpos).mp hbound
    refine toDouble_eq_self (m := n) (e := 0) (by simp) ?_
    unfold ulpExponent
    omega

/-- The double a decimal literal is read as; what rounds past the largest double is infinite. -/
def readDouble (x : ℚ) : WithBot (WithTop ℚ) :=
  if 2 ^ 1024 ≤ toDouble x then ((⊤ : WithTop ℚ) : WithBot (WithTop ℚ))
  else if toDouble x ≤ -2 ^ 1024 then ⊥
  else ((toDouble x : WithTop ℚ) : WithBot (WithTop ℚ))

/-! ## Arithmetics -/

/-- How results of operations are rounded. -/
structure Arithmetic where
  fl : ℚ → ℚ
  mono : Monotone fl
  fl_intCast : ∀ n : ℤ, |n| < 2 ^ 53 → fl n = n

namespace Arithmetic

def exact : Arithmetic where
  fl x := x
  mono := monotone_id
  fl_intCast _ _ := rfl

def binary64 : Arithmetic where
  fl := toDouble
  mono := toDouble_mono
  fl_intCast _ := toDouble_intCast

variable (A : Arithmetic)

def div (x y : ℚ) : ℚ := A.fl (x / y)

def add (x y : ℚ) : ℚ := A.fl (x + y)

/-- `round(x, k)` on floats: the nearest decimal, read back as a float. -/
def round (x : ℚ) (k : ℕ) : ℚ := A.fl (roundTo k x)

@[simp] theorem fl_zero : A.fl 0 = 0 := by simpa using A.fl_intCast 0 (by norm_num)

@[simp] theorem fl_one : A.fl 1 = 1 := by simpa using A.fl_intCast 1 (by norm_num)

@[simp] theorem fl_two : A.fl 2 = 2 := by simpa using A.fl_intCast 2 (by norm_num)

theorem div_mono {x x' y : ℚ} (hy : 0 ≤ y) (hx : x ≤ x') : A.div x y ≤ A.div x' y :=
  A.mono (div_le_div_of_nonneg_right hx hy)

theorem add_mono {x x' y y' : ℚ} (hx : x ≤ x') (hy : y ≤ y') : A.add x y ≤ A.add x' y' :=
  A.mono (add_le_add hx hy)

theorem round_mono (k : ℕ) {x y : ℚ} (h : x ≤ y) : A.round x k ≤ A.round y k :=
  A.mono (roundTo_mono k h)

theorem div_same {x : ℚ} (hx : x ≠ 0) : A.div x x = 1 := by
  rw [div, div_self hx, fl_one]

@[simp] theorem round_zero (k : ℕ) : A.round 0 k = 0 := by
  have h : roundTo k 0 = 0 := by simpa using roundTo_intCast k 0
  rw [round, h, fl_zero]

@[simp] theorem round_one (k : ℕ) : A.round 1 k = 1 := by
  have h : roundTo k 1 = 1 := by simpa using roundTo_intCast k 1
  rw [round, h, fl_one]

end Arithmetic

end TTCEvaluation
