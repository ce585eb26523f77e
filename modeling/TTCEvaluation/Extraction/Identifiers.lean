import TTCEvaluation.Text.Strings
import Mathlib.Tactic.Positivity
import Mathlib.Tactic.Ring

/-!
# Function identifiers

Stage 01 numbers the functions from one and pads the number to four digits.
The identifiers are injective, but not prefix-free: from the five-digit
numbers on, an identifier can continue another one.
-/

namespace TTCEvaluation

/-- `f"{global_id:04d}"`. -/
def paddedNumber (n : ℕ) : Text := (Nat.toDigits 10 n).leftpad 4 '0'

/-- `item_id = f"function_{global_id:04d}"`. -/
def itemId (n : ℕ) : Text := "function_".toList ++ paddedNumber n

theorem prefix_append_cons_iff {α : Type*} {a b r : List α} {c : α} (hc : c ∉ a) :
    a <+: b ++ c :: r ↔ a <+: b := by
  refine ⟨?_, fun h => h.trans (List.prefix_append b _)⟩
  induction a generalizing b with
  | nil => exact fun _ => List.nil_prefix
  | cons x a ih =>
      rw [List.mem_cons, not_or] at hc
      cases b with
      | nil =>
          intro h
          rw [List.nil_append, List.cons_prefix_cons] at h
          exact (hc.1 h.1.symm).elim
      | cons y b =>
          simp only [List.cons_append, List.cons_prefix_cons]
          exact fun h => ⟨h.1, ih hc.2 h.2⟩

theorem eq_of_append_cons_eq {α : Type*} {a b r s : List α} {c : α} (ha : c ∉ a) (hb : c ∉ b)
    (h : a ++ c :: r = b ++ c :: s) : a = b := by
  have hab : a <+: b := by
    rw [← prefix_append_cons_iff ha, ← h]
    exact List.prefix_append a _
  have hba : b <+: a := by
    rw [← prefix_append_cons_iff hb, h]
    exact List.prefix_append b _
  exact hab.eq_of_length_le hba.length_le

@[simp] theorem ofDigitChars_paddedNumber (n : ℕ) : Nat.ofDigitChars 10 (paddedNumber n) 0 = n := by
  simp [paddedNumber, List.leftpad, Nat.ofDigitChars_append]

theorem paddedNumber_injective : Function.Injective paddedNumber := by
  intro n m h
  have hread := congrArg (fun digits => Nat.ofDigitChars 10 digits 0) h
  simpa using hread

theorem isDigit_of_mem_paddedNumber {n : ℕ} {c : Char} (h : c ∈ paddedNumber n) : c.isDigit := by
  rcases List.mem_append.mp h with h | h
  · rw [List.eq_of_mem_replicate h]
    rfl
  · exact Nat.isDigit_of_mem_toDigits (by decide) (by decide) h

theorem underscore_notMem_paddedNumber (n : ℕ) : '_' ∉ paddedNumber n := fun h =>
  absurd (isDigit_of_mem_paddedNumber h) (by decide)

theorem itemId_injective : Function.Injective itemId := by
  intro n m h
  unfold itemId at h
  exact paddedNumber_injective (List.append_cancel_left h)

theorem eq_of_itemId_append_eq {n m : ℕ} {r s : Text}
    (h : itemId n ++ '_' :: r = itemId m ++ '_' :: s) : n = m := by
  unfold itemId at h
  rw [List.append_assoc, List.append_assoc, List.append_cancel_left_eq] at h
  exact paddedNumber_injective (eq_of_append_cons_eq (underscore_notMem_paddedNumber n)
    (underscore_notMem_paddedNumber m) h)

end TTCEvaluation
