import TTCEvaluation.Annotation.Constants
import TTCEvaluation.Arithmetic.DecimalText

/-!
# The ground-truth template and its pre-annotation

Stage 04 makes a template with empty annotation columns, and stage 05 fills
them from the source of each function: marks from text tests, boundaries from
the ends of the sorted constants, and one value outside each end.
-/

namespace TTCEvaluation

/-- A row of the template and of the annotated ground truth. -/
structure AnnotationRow where
  id : Text
  functionName : Cell
  functionFile : Text
  bvaApplicable : Cell
  minBoundary : Cell
  maxBoundary : Cell
  belowMin : Cell
  aboveMax : Cell
  bvaExpectedValues : Cell
  ecpApplicable : Cell
  validClasses : Cell
  invalidClasses : Cell
  ecpExpectedValues : Cell
  notes : Cell
deriving DecidableEq

/-- A row of the template, as it is read back. -/
def templateRow (id : Text) (functionName : Cell) (functionFile : Text) : AnnotationRow where
  id := id
  functionName := functionName
  functionFile := functionFile
  bvaApplicable := none
  minBoundary := none
  maxBoundary := none
  belowMin := none
  aboveMax := none
  bvaExpectedValues := none
  ecpApplicable := none
  validClasses := none
  invalidClasses := none
  ecpExpectedValues := none
  notes := none

def boundaryOperators : List Text := [">=".toList, "<=".toList, ">".toList, "<".toList]

def partitionKeywords : List Text :=
  ["if".toList, "else".toList, "switch".toList, "case".toList, "return".toList]

def hasBoundaryLogic (code : Text) : Bool := boundaryOperators.any (· <:+: code)

def hasPartitionLogic (code : Text) : Bool := partitionKeywords.any (· <:+: code)

/-- The value one step from a boundary: `str(int(x + s))` if the float `x` is an integer, else
`str(x + s * 0.1)`.  An infinite float is not an integer, and no step leads away from it. -/
def outsideValue (s : ℚ) : WithBot (WithTop ℚ) → Text
  | none => "-inf".toList
  | some none => "inf".toList
  | some (some x) =>
      if x.isInt then intStr ⌊toDouble (x + s)⌋
      else floatStr (toDouble (x + s * toDouble (1 / 10)))

section

variable (U : UnicodeData)

def belowMin (low : Text) : Text := outsideValue (-1) (float U low)

def aboveMax (high : Text) : Text := outsideValue 1 (float U high)

/-- The boundaries are written if there are two constants. -/
def annotateBoundaries (numbers : List Text) (row : AnnotationRow) : AnnotationRow :=
  match numbers with
  | low :: next :: rest =>
      let high := rest.getLastD next
      { row with
        minBoundary := some low
        maxBoundary := some high
        bvaExpectedValues := bvaExpectedCell numbers
        belowMin := some (belowMin U low)
        aboveMax := some (aboveMax U high) }
  | _ => row

def annotatePartitions (code : Text) (row : AnnotationRow) : AnnotationRow :=
  if hasPartitionLogic code then
    { row with
      ecpApplicable := some "review_yes".toList
      validClasses := some "review_required".toList
      invalidClasses := some "review_required".toList
      ecpExpectedValues := some "review_required".toList }
  else { row with ecpApplicable := some "review_no".toList }

/-- The loop body of stage 05, once the source was read. -/
def preannotate (order : SetOrder) (code : Text) (row : AnnotationRow) : AnnotationRow :=
  let numbers := extractNumericConstants U order code
  let mark := if hasBoundaryLogic code then "review_yes".toList else "review_no".toList
  let row := annotateBoundaries U numbers { row with bvaApplicable := some mark }
  { annotatePartitions code row with
    notes := some "Auto-preannotated. Please manually review.".toList }

/-- `read_code`: a missing file reads as the empty text.  The other line ends that `read_text`
translates stay, as they are part of no operator, no keyword and no number. -/
def readCode (files : Text → Option Text) (functionFile : Text) : Text :=
  (files functionFile).getD []

def preannotateRows (order : SetOrder) (files : Text → Option Text) (gt : List AnnotationRow) :
    List AnnotationRow :=
  gt.map fun row => preannotate U order (readCode files row.functionFile) row

end

variable {U : UnicodeData} {order : SetOrder} {code : Text} {row : AnnotationRow}

@[simp] theorem annotateBoundaries_bvaApplicable (numbers : List Text) :
    (annotateBoundaries U numbers row).bvaApplicable = row.bvaApplicable := by
  unfold annotateBoundaries
  split <;> rfl

@[simp] theorem annotatePartitions_bvaApplicable :
    (annotatePartitions code row).bvaApplicable = row.bvaApplicable := by
  unfold annotatePartitions
  split_ifs <;> rfl

/-- The columns that name the function stay as they are. -/
theorem preannotate_function (order : SetOrder) (code : Text) (row : AnnotationRow) :
    (preannotate U order code row).id = row.id ∧
      (preannotate U order code row).functionName = row.functionName ∧
      (preannotate U order code row).functionFile = row.functionFile := by
  unfold preannotate annotatePartitions annotateBoundaries
  dsimp only
  split_ifs <;> split <;> exact ⟨rfl, rfl, rfl⟩

/-- The marks depend on the text tests alone. -/
theorem preannotate_marks (order : SetOrder) (code : Text) (row : AnnotationRow) :
    (preannotate U order code row).bvaApplicable =
        some (if hasBoundaryLogic code then "review_yes".toList else "review_no".toList) ∧
      (preannotate U order code row).ecpApplicable =
        some (if hasPartitionLogic code then "review_yes".toList else "review_no".toList) := by
  constructor
  · unfold preannotate
    dsimp only
    rw [annotatePartitions_bvaApplicable, annotateBoundaries_bvaApplicable]
  · unfold preannotate annotatePartitions
    split_ifs <;> rfl

/-- The values that are proposed: the constants, if there are two, and a placeholder. -/
theorem preannotate_values (order : SetOrder) (code : Text)
    (hempty : row.bvaExpectedValues = none) :
    (preannotate U order code row).bvaExpectedValues =
        bvaExpectedCell (extractNumericConstants U order code) ∧
      (hasPartitionLogic code = true →
        (preannotate U order code row).ecpExpectedValues = some "review_required".toList) := by
  constructor
  · have hboundaries : ∀ numbers (row : AnnotationRow), row.bvaExpectedValues = none →
        (annotateBoundaries U numbers row).bvaExpectedValues = bvaExpectedCell numbers := by
      intro numbers row hempty
      match numbers with
      | [] | [_] => exact hempty
      | _ :: _ :: _ => rfl
    unfold preannotate annotatePartitions
    split_ifs <;> exact hboundaries _ _ hempty
  · intro hpartition
    change (annotatePartitions code _).ecpExpectedValues = _
    unfold annotatePartitions
    rw [if_pos hpartition]

/-- With two constants the boundaries are the ends of the sorted list. -/
theorem preannotate_boundaries (row : AnnotationRow)
    (h : 2 ≤ (extractNumericConstants U order code).length) :
    ∃ low high, (extractNumericConstants U order code).head? = some low ∧
      (extractNumericConstants U order code).getLast? = some high ∧
      (preannotate U order code row).minBoundary = some low ∧
      (preannotate U order code row).maxBoundary = some high ∧
      (preannotate U order code row).belowMin = some (belowMin U low) ∧
      (preannotate U order code row).aboveMax = some (aboveMax U high) ∧
      (preannotate U order code row).bvaExpectedValues =
        bvaExpectedCell (extractNumericConstants U order code) := by
  unfold preannotate annotatePartitions
  match hnumbers : extractNumericConstants U order code, h with
  | low :: next :: rest, _ =>
      refine ⟨low, rest.getLastD next, rfl, ?_, ?_⟩
      · cases rest <;> simp [List.getLast?_cons]
      · unfold annotateBoundaries
        split_ifs <;> exact ⟨rfl, rfl, rfl, rfl, rfl⟩

end TTCEvaluation
