import TTCEvaluation.Text.Strings

/-!
# Cells of CSV files

A missing cell is written as the empty text, and a text is read back as it
stands, except for the words that stand for a missing value.  Writing what was
read and reading it again changes nothing more.
-/

namespace TTCEvaluation

/-- The texts that `read_csv` takes for a missing value. -/
def missingWords : List Text :=
  ["".toList, "#N/A".toList, "#N/A N/A".toList, "#NA".toList, "-1.#IND".toList,
    "-1.#QNAN".toList, "-NaN".toList, "-nan".toList, "1.#IND".toList, "1.#QNAN".toList,
    "<NA>".toList, "N/A".toList, "NA".toList, "NULL".toList, "NaN".toList, "None".toList,
    "n/a".toList, "nan".toList, "null".toList]

/-- A cell as `read_csv` reads it. -/
def readCell (text : Text) : Cell := if missingWords.any (· = text) then none else some text

/-- A cell as `to_csv` writes it. -/
def writeCell (cell : Cell) : Text := cell.getD []

/-- A cell that one stage writes and the next one reads. -/
def handOff (cell : Cell) : Cell := readCell (writeCell cell)

theorem any_missingWords_iff {text : Text} :
    missingWords.any (· = text) ↔ text ∈ missingWords := by
  rw [List.any_eq_true]
  simp only [decide_eq_true_eq, exists_eq_right]

theorem readCell_of_mem {text : Text} (h : text ∈ missingWords) : readCell text = none :=
  if_pos (any_missingWords_iff.mpr h)

theorem readCell_of_notMem {text : Text} (h : text ∉ missingWords) : readCell text = some text :=
  if_neg fun hany => h (any_missingWords_iff.mp hany)

theorem readCell_eq_some_self_iff {text : Text} :
    readCell text = some text ↔ text ∉ missingWords := by
  constructor
  · intro h hmem
    rw [readCell_of_mem hmem] at h
    cases h
  · exact readCell_of_notMem

@[simp] theorem handOff_none : handOff none = none := rfl

/-- What was read once is read again in the same way. -/
@[simp] theorem handOff_readCell (text : Text) : handOff (readCell text) = readCell text := by
  by_cases h : text ∈ missingWords
  · rw [readCell_of_mem h, handOff_none]
  · rw [readCell_of_notMem h]
    exact readCell_of_notMem h

@[simp] theorem handOff_handOff (cell : Cell) : handOff (handOff cell) = handOff cell :=
  handOff_readCell _

end TTCEvaluation
