import TTCEvaluation.Scoring.Values

/-!
# Lists of values in a cell

The decoder of a cell cuts at every `;` and `,`, inside quotes and brackets as
well.  Joining a list of values and decoding the cell concatenates the pieces
of the values, so the list comes back exactly when no value holds a separator.
-/

namespace TTCEvaluation

open Segments

/-- The closing bracket an opening one asks for. -/
def closer? : Char → Option Char
  | '(' => some ')'
  | '[' => some ']'
  | '{' => some '}'
  | _ => none

def isCloser (c : Char) : Bool := c = ')' || c = ']' || c = '}'

/-- Scan a value with a flag for an open string and the stack of awaited brackets: strings
and brackets must close, and separators must stand inside one. -/
def shieldedFrom : Bool → Text → Text → Bool
  | inString, awaited, [] => !inString && awaited.isEmpty
  | true, awaited, c :: rest => shieldedFrom (c ≠ '"') awaited rest
  | false, awaited, c :: rest =>
      if c = '"' then shieldedFrom true awaited rest
      else
        match closer? c with
        | some d => shieldedFrom false (d :: awaited) rest
        | none =>
            if isCloser c then
              match awaited with
              | [] => false
              | d :: awaited => c = d && shieldedFrom false awaited rest
            else (!isSeparator c || !awaited.isEmpty) && shieldedFrom false awaited rest

/-- Every `,` and `;` lies inside a double-quoted string or inside balanced brackets. -/
def Shielded (v : Text) : Prop := shieldedFrom false [] v

instance (v : Text) : Decidable (Shielded v) := inferInstanceAs (Decidable (_ = true))

/-- A value as the ground truth writes it into a list. -/
structure Listed (U : UnicodeData) (v : Text) : Prop where
  ne_nil : v ≠ []
  strip_eq : strip v = v
  available : U.upper v ∉ notAvailable

def listSeparators : List Text := ["; ".toList, ", ".toList]

variable {U : UnicodeData}

theorem available_intercalate {sep : Text} (hsep : sep ∈ listSeparators) {values : List Text}
    (hne : values ≠ []) (hvalues : ∀ v ∈ values, Listed U v) :
    U.upper (strip (sep.intercalate values)) ∉ [] :: notAvailable := by
  cases values with
  | nil => exact (hne rfl).elim
  | cons v values =>
      cases values with
      | nil =>
          have hv := hvalues v List.mem_cons_self
          rw [List.intercalate_singleton, hv.strip_eq, List.mem_cons, not_or]
          exact ⟨fun h => hv.ne_nil (UnicodeData.upper_eq_nil_iff.mp h), hv.available⟩
      | cons w values =>
          rw [List.intercalate_cons_cons]
          simp only [listSeparators, List.mem_cons, List.not_mem_nil, or_false] at hsep
          rcases hsep with rfl | rfl
          · exact available_of_mem_separator (c := ';') (by decide) (by simp)
          · exact available_of_mem_separator (c := ',') (by decide) (by simp)

theorem splitValues_intercalate {sep : Text} (hsep : sep ∈ listSeparators) {values : List Text}
    (hne : values ≠ []) (hvalues : ∀ v ∈ values, Listed U v) :
    splitValues U (some (sep.intercalate values)) = values.flatMap pieces := by
  rw [splitValues_of_available (available_intercalate hsep hne hvalues)]
  simp only [listSeparators, List.mem_cons, List.not_mem_nil, or_false] at hsep
  rcases hsep with rfl | rfl
  · exact pieces_intercalate (by decide) (forall_mem_of_all (by decide)) values
  · exact pieces_intercalate (by decide) (forall_mem_of_all (by decide)) values

theorem flatMap_pieces_of_plain {values : List Text} (hvalues : ∀ v ∈ values, Listed U v)
    (hplain : ∀ v ∈ values, ∀ c ∈ v, isSeparator c = false) : values.flatMap pieces = values := by
  induction values with
  | nil => rfl
  | cons v values ih =>
      have hv := hvalues v List.mem_cons_self
      rw [List.flatMap_cons, pieces_of_plain hv.ne_nil hv.strip_eq (hplain v List.mem_cons_self),
        ih (fun w hw => hvalues w (List.mem_cons_of_mem _ hw))
          (fun w hw => hplain w (List.mem_cons_of_mem _ hw)), List.singleton_append]

/-- A joined list of values is decoded to itself exactly when no value holds a separator. -/
theorem splitValues_intercalate_iff (U : UnicodeData) (sep : Text) (hsep : sep ∈ listSeparators)
    (values : List Text) (hne : values ≠ []) (hvalues : ∀ v ∈ values, Listed U v) :
    splitValues U (some (sep.intercalate values)) = values ↔
      ∀ v ∈ values, ',' ∉ v ∧ ';' ∉ v := by
  have hplain : (∀ v ∈ values, ',' ∉ v ∧ ';' ∉ v) ↔
      ∀ v ∈ values, ∀ c ∈ v, isSeparator c = false := by
    simp only [isSeparator, Bool.or_eq_false_iff, decide_eq_false_iff_not]
    constructor
    · intro h v hv c hc
      exact ⟨fun hs => (h v hv).2 (hs ▸ hc), fun hs => (h v hv).1 (hs ▸ hc)⟩
    · intro h v hv
      exact ⟨fun hc => (h v hv _ hc).2 rfl, fun hc => (h v hv _ hc).1 rfl⟩
  rw [hplain]
  constructor
  · intro hsplit v hv
    rw [← hsplit] at hv
    exact not_separator_of_mem_splitValues hv
  · intro h
    rw [splitValues_intercalate hsep hne hvalues, flatMap_pieces_of_plain hvalues h]

theorem splitValues_intercalate_sample :
    splitValues asciiData (some ("; ".toList.intercalate ["-1".toList, "n = 0".toList])) =
      ["-1".toList, "n = 0".toList] :=
  (splitValues_intercalate_iff asciiData _ (by decide) _ (by decide) (by
    intro v hv
    simp only [List.mem_cons, List.not_mem_nil, or_false] at hv
    rcases hv with rfl | rfl <;> exact ⟨by decide, by decide, by decide⟩)).mpr (by decide)

/-- An array and a tuple of quoted strings are shielded values that the decoder cuts. -/
theorem splitValues_cuts_shielded_values :
    ¬∀ (U : UnicodeData) (sep : Text), sep ∈ listSeparators →
      ∀ values : List Text, values ≠ [] → (∀ v ∈ values, Listed U v ∧ Shielded v) →
        splitValues U (some (sep.intercalate values)) = values := by
  intro h
  have hvalues : ∀ v ∈ ["array=[10,20]".toList, "(\"a\",\"abc\")".toList],
      Listed asciiData v ∧ Shielded v := by
    intro v hv
    simp only [List.mem_cons, List.not_mem_nil, or_false] at hv
    rcases hv with rfl | rfl <;> exact ⟨⟨by decide, by decide, by decide⟩, by decide⟩
  have hcut := h asciiData "; ".toList (by decide) _ (by decide) hvalues
  exact absurd hcut (by decide)

end TTCEvaluation
