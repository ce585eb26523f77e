import TTCEvaluation.Arithmetic.Rounding
import TTCEvaluation.Text.Patterns
import Mathlib.Data.List.Dedup
import Mathlib.Data.List.Sort

/-!
# Extracting numeric constants

Stage 05 scans a source for numbers, drops repetitions through a set and sorts
the rest by their values as floats.  The order in which a set is enumerated is
a parameter.
-/

namespace TTCEvaluation

open Pattern

/-- An order in which the elements of a set may be enumerated. -/
structure SetOrder where
  enum : List Text → List Text
  perm : ∀ l, (enum l).Perm l.dedup

def SetOrder.plain : SetOrder := ⟨List.dedup, fun _ => List.Perm.refl _⟩

section

variable (U : UnicodeData)

/-- `(?<![A-Za-z_])[-]?\d+(?:\.\d+)?`. -/
def constantPattern : Pattern :=
  seq (notBehind isNameStart) <| seq (opt (char '-')) <|
    seq (plus U.isDecimal) (opt (seq (char '.') (plus U.isDecimal)))

def digitsValue (digits : Text) : ℕ :=
  digits.foldl (fun n c => 10 * n + (U.decimal c).getD 0) 0

/-- The exact value of a literal matched by `constantPattern`. -/
def literalValue (w : Text) : ℚ :=
  let body := if w.head? = some '-' then w.tail else w
  let whole := body.takeWhile (· ≠ '.')
  let fraction := (body.dropWhile (· ≠ '.')).tail
  let magnitude : ℚ := digitsValue U whole + digitsValue U fraction / 10 ^ fraction.length
  if w.head? = some '-' then -magnitude else magnitude

/-- `float(w)`. -/
def float (w : Text) : WithBot (WithTop ℚ) := readDouble (literalValue U w)

def extractNumericConstants (order : SetOrder) (code : Text) : List Text :=
  (order.enum (findAll (constantPattern U).whole code)).insertionSort
    fun a b => float U a ≤ float U b

end

/-- The `bva_expected_values` cell written by stage 05; the template leaves it empty. -/
def bvaExpectedCell (numbers : List Text) : Cell :=
  if 2 ≤ numbers.length then some ([','].intercalate numbers) else none

variable {U : UnicodeData}

/-! ## The characters of a constant -/

def isConstantChar (U : UnicodeData) (c : Char) : Bool := c = '-' || c = '.' || U.isDecimal c

theorem isAsciiDigit_of_isDecimal {c : Char} (hc : isAscii c) (hd : U.isDecimal c) :
    isAsciiDigit c := by
  rw [UnicodeData.isDecimal, U.decimal_ascii c hc] at hd
  by_contra h
  simp [h] at hd

theorem within_constantPattern : (constantPattern U).Within (isConstantChar U) := by
  refine ⟨trivial, ?_, ⟨?_, ?_⟩, ?_, ?_, ?_⟩ <;>
    · intro c hc
      simp [isConstantChar, hc]

theorem nonNull_constantPattern : (constantPattern U).NonNull :=
  Or.inr (Or.inr (Or.inl (Or.inl trivial)))

theorem mem_extractNumericConstants {order : SetOrder} {code w : Text} :
    w ∈ extractNumericConstants U order code ↔ w ∈ findAll (constantPattern U).whole code := by
  rw [extractNumericConstants, List.mem_insertionSort, (order.perm _).mem_iff, List.mem_dedup]

section

variable {order : SetOrder} {code w : Text} (h : w ∈ extractNumericConstants U order code)

include h

theorem infix_of_mem_constants : w <:+: code :=
  (mem_findAll_whole (mem_extractNumericConstants.mp h)).1

theorem constant_ne_nil : w ≠ [] := by
  obtain ⟨_, prev, t, rest, hr⟩ := mem_findAll_whole (mem_extractNumericConstants.mp h)
  exact ne_nil_of_mem_ends nonNull_constantPattern hr

theorem isConstantChar_of_mem : ∀ c ∈ w, isConstantChar U c := by
  obtain ⟨_, prev, t, rest, hr⟩ := mem_findAll_whole (mem_extractNumericConstants.mp h)
  exact forall_of_mem_ends within_constantPattern hr

end

theorem ascii_of_isConstantChar {c : Char} (hc : isAscii c) (h : isConstantChar U c) :
    c = '-' ∨ c = '.' ∨ isAsciiDigit c := by
  simp only [isConstantChar, Bool.or_eq_true, decide_eq_true_eq] at h
  rcases h with (h | h) | h
  · exact Or.inl h
  · exact Or.inr (Or.inl h)
  · exact Or.inr (Or.inr (isAsciiDigit_of_isDecimal hc h))

/-- The characters of a constant have no case, and none of them is white space. -/
theorem uncased_of_isConstantChar {c : Char} (h : isConstantChar U c) :
    U.upperChar c = [c] ∧ c ≠ 'Σ' ∧ isSpace c = false := by
  simp only [isConstantChar, Bool.or_eq_true, decide_eq_true_eq] at h
  rcases h with (rfl | rfl) | h
  · exact ⟨U.upper_ascii _ (by decide), by decide, by decide⟩
  · exact ⟨U.upper_ascii _ (by decide), by decide, by decide⟩
  · exact (U.decimal_uncased c h).2

end TTCEvaluation
