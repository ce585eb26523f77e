import TTCEvaluation.Arithmetic.Rounding
import TTCEvaluation.Text.Strings
import Mathlib.Data.List.DropRight

/-!
# Printing numbers

Integers are printed with their digits.  A double is printed as the shortest
decimal that is read back as the same double.
-/

namespace TTCEvaluation

/-- `str(n)` of an integer. -/
def intStr (n : ℤ) : Text :=
  if n < 0 then '-' :: Nat.toDigits 10 n.natAbs else Nat.toDigits 10 n.natAbs

/-- The decimals `d * 10 ^ e` with `k + 1` digits on both sides of `x`, the nearer one first; half way
between them the even one comes first. -/
def decimalsAround (x : ℚ) (k : ℕ) : List (ℕ × ℤ) :=
  let e := Int.log 10 x - k
  let low := ⌊x / 10 ^ e⌋₊
  let below := x - low * 10 ^ e
  let above := (low + 1) * 10 ^ e - x
  if below < above ∨ below = above ∧ low % 2 = 0 then [(low, e), (low + 1, e)]
  else [(low + 1, e), (low, e)]

/-- The shortest decimal that is read as the positive double `x`; seventeen digits suffice. -/
def shortestDecimal (x : ℚ) : ℕ × ℤ :=
  (((List.range 17).flatMap (decimalsAround x)).find? fun d =>
    toDouble (d.1 * 10 ^ d.2) = x).getD (0, 0)

/-- The exponent of a printed double has a sign and at least two digits. -/
def exponentStr (n : ℤ) : Text :=
  (if n < 0 then '-' else '+') :: (Nat.toDigits 10 n.natAbs).leftpad 2 '0'

/-- Digits with the decimal point after the first `point` of them. -/
def placePoint (digits : Text) (point : ℤ) : Text :=
  if point < -3 ∨ 16 < point then
    digits.take 1 ++ (if digits.length = 1 then [] else '.' :: digits.drop 1) ++
      'e' :: exponentStr (point - 1)
  else if point ≤ 0 then '0' :: '.' :: (List.replicate point.natAbs '0' ++ digits)
  else
    (digits.take point.toNat).rightpad point.toNat '0' ++
      '.' :: (digits.drop point.toNat).rightpad 1 '0'

/-- `str(x)` of a finite double. -/
def floatStr (x : ℚ) : Text :=
  if x = 0 then "0.0".toList
  else
    let d := shortestDecimal |x|
    let digits := Nat.toDigits 10 d.1
    let text := placePoint (digits.rdropWhile (· = '0')) (digits.length + d.2)
    if x < 0 then '-' :: text else text

example : floatStr (toDouble (5 / 2)) = "2.5".toList := by decide +kernel

-- half way between two shortest decimals
example : floatStr (4503599627370499 / 4) = "1125899906842624.8".toList := by decide +kernel

example : floatStr (toDouble (toDouble (11 / 10) - toDouble (1 / 10))) = "1.0".toList := by
  decide +kernel

end TTCEvaluation
