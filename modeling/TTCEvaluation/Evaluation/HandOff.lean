import TTCEvaluation.Annotation.Reproducible
import TTCEvaluation.Evaluation.Lookup
import TTCEvaluation.Evaluation.Prompts
import TTCEvaluation.Extraction.Dataset
import TTCEvaluation.Extraction.Definitions

/-!
# Names and values through the CSV files

Every stage reads the table that the one before it wrote.  A name or a value
that is one of the words for missing values is lost at the first reading, and
nothing else is lost at any of them.
-/

namespace TTCEvaluation

open Pattern

/-! ## The tables that the stages read -/

/-- What the stages read of a row of the selection tables. -/
structure NamedRow where
  id : Text
  functionName : Cell
  functionFile : Text
deriving DecidableEq

def MetadataRow.read (row : MetadataRow) : NamedRow where
  id := row.id
  functionName := readCell row.functionName
  functionFile := row.functionFile

/-- A row that was read, as it is written again. -/
def MetadataRow.rewrite (row : MetadataRow) : MetadataRow :=
  { row with functionName := writeCell (readCell row.functionName) }

def Candidate.rewrite (c : Candidate) : Candidate := { c with row := c.row.rewrite }

/-- A row that was written, as it is read again. -/
def AnnotationRow.reread (row : AnnotationRow) : AnnotationRow where
  id := row.id
  functionName := handOff row.functionName
  functionFile := row.functionFile
  bvaApplicable := handOff row.bvaApplicable
  minBoundary := handOff row.minBoundary
  maxBoundary := handOff row.maxBoundary
  belowMin := handOff row.belowMin
  aboveMax := handOff row.aboveMax
  bvaExpectedValues := handOff row.bvaExpectedValues
  ecpApplicable := handOff row.ecpApplicable
  validClasses := handOff row.validClasses
  invalidClasses := handOff row.invalidClasses
  ecpExpectedValues := handOff row.ecpExpectedValues
  notes := handOff row.notes

def PromptRow.reread (row : PromptRow) : PromptRow :=
  { row with functionName := handOff row.functionName }

/-- The columns that the evaluation reads. -/
def AnnotationRow.truth (row : AnnotationRow) : GroundTruthRow where
  id := row.id
  functionName := row.functionName
  bvaApplicable := row.bvaApplicable
  bvaExpectedValues := row.bvaExpectedValues
  ecpApplicable := row.ecpApplicable
  ecpExpectedValues := row.ecpExpectedValues

/-- A manual review: it fills in annotations and leaves the function alone. -/
structure Review where
  edit : AnnotationRow → AnnotationRow
  keeps_id : ∀ row, (edit row).id = row.id
  keeps_functionName : ∀ row, (edit row).functionName = row.functionName
  keeps_functionFile : ∀ row, (edit row).functionFile = row.functionFile

/-- What the stages depend on besides the tables. -/
structure Setting where
  arithmetic : Arithmetic
  unicode : UnicodeData
  sortValues : SortValues
  setOrder : SetOrder
  review : Review
  testDir : TestDir
  compiler : Compiler

namespace Setting

variable (S : Setting) (st : Extraction)

/-- The table of stage 02. -/
def selectedCsv : List Candidate :=
  selectCandidates S.sortValues (st.allRows.map MetadataRow.rewrite)

/-- The table and the files of stage 03. -/
def finalCsv : List Candidate × (Text → Option Text) :=
  createFinalDataset ((S.selectedCsv st).map Candidate.rewrite) st.files

/-- The table of stage 04. -/
def templateCsv : List AnnotationRow :=
  (S.finalCsv st).1.map fun c =>
    templateRow c.row.read.id c.row.read.functionName c.row.read.functionFile

/-- The table of stage 05. -/
def preannotatedCsv : List AnnotationRow :=
  preannotateRows S.unicode S.setOrder (S.finalCsv st).2
    ((S.templateCsv st).map AnnotationRow.reread)

/-- The reviewed ground truth, as stages 06, 08, 09 and 10 read it. -/
def groundTruth : List AnnotationRow :=
  (S.preannotatedCsv st).map fun row => (S.review.edit row.reread).reread

/-- The prompts of stage 06, as stage 07 reads them. -/
def promptRows : List PromptRow :=
  (createPrompts (S.finalCsv st).2 (S.groundTruth st)).map PromptRow.reread

def promptFiles : List (Text × Text) := (exportPrompts (S.promptRows st)).1

def evaluated : List GroundTruthRow := (S.groundTruth st).map AnnotationRow.truth

/-- Every later stage reads the name for the identifier, and the prompt files and the result tables
carry it. -/
structure NameKept (id name : Text) : Prop where
  selection : ∀ row ∈ st.allRows.map MetadataRow.read, row.id = id → row.functionName = some name
  final : ∀ c ∈ S.selectedCsv st, c.row.read.id = id → c.row.read.functionName = some name
  template : ∀ c ∈ (S.finalCsv st).1, c.row.read.id = id → c.row.read.functionName = some name
  preannotation : ∀ row ∈ (S.templateCsv st).map AnnotationRow.reread, row.id = id →
    row.functionName = some name
  truth : ∀ row ∈ S.groundTruth st, row.id = id → row.functionName = some name
  prompts : ∀ row ∈ S.promptRows st, row.functionId = id → row.functionName = some name ∧
    (promptsDir ++ (id ++ '_' :: (name ++ "_prompt.txt".toList)), row.prompt) ∈ S.promptFiles st
  collected : ∀ row ∈ collectTests S.testDir (S.evaluated st), row.functionId = id →
    row.functionName = some name
  scored : ∀ row ∈ ttcRows S.arithmetic S.unicode S.testDir (S.evaluated st),
    row.functionId = id → row.functionName = some name
  compiled : ∀ row ∈ compileRows S.compiler S.testDir (S.evaluated st),
    row.functionId = id → row.functionName = some name

end Setting

/-! ## Names are handed on as they were first read -/

/-- The identifier and the name are those of a metadata row, as stage 02 reads it. -/
def FromMetadata (st : Extraction) (id : Text) (name : Cell) : Prop :=
  ∃ row ∈ st.allRows, row.id = id ∧ readCell row.functionName = name

theorem FromMetadata.handOff {st : Extraction} {id : Text} {name : Cell}
    (h : FromMetadata st id name) : FromMetadata st id (handOff name) := by
  obtain ⟨row, hrow, hid, rfl⟩ := h
  exact ⟨row, hrow, hid, (handOff_readCell _).symm⟩

@[simp] theorem read_rewrite (row : MetadataRow) : row.rewrite.read = row.read := by
  have hname : readCell (writeCell (readCell row.functionName)) = readCell row.functionName :=
    handOff_readCell row.functionName
  simp only [MetadataRow.read, MetadataRow.rewrite, hname]

namespace Setting

variable {S : Setting} {st : Extraction}

theorem fromMetadata_selectedCsv {c : Candidate} (hc : c ∈ S.selectedCsv st) :
    FromMetadata st c.row.read.id c.row.read.functionName := by
  obtain ⟨hrow, -, -⟩ := selectionScore_of_mem_selectCandidates hc
  obtain ⟨row, hrow, heq⟩ := List.mem_map.mp hrow
  rw [← heq, read_rewrite]
  exact ⟨row, hrow, rfl, rfl⟩

theorem fromMetadata_finalCsv {c : Candidate} (hc : c ∈ (S.finalCsv st).1) :
    FromMetadata st c.row.read.id c.row.read.functionName := by
  obtain ⟨d, hd, rfl⟩ := List.mem_map.mp (List.mem_of_mem_take hc)
  have hread : d.rewrite.row.read = d.row.read := read_rewrite d.row
  rw [hread]
  exact fromMetadata_selectedCsv hd

theorem fromMetadata_templateCsv {row : AnnotationRow}
    (hrow : row ∈ (S.templateCsv st).map AnnotationRow.reread) :
    FromMetadata st row.id row.functionName := by
  obtain ⟨template, htemplate, rfl⟩ := List.mem_map.mp hrow
  obtain ⟨c, hc, rfl⟩ := List.mem_map.mp htemplate
  exact (fromMetadata_finalCsv hc).handOff

theorem fromMetadata_preannotatedCsv {row : AnnotationRow} (hrow : row ∈ S.preannotatedCsv st) :
    FromMetadata st row.id row.functionName := by
  obtain ⟨template, htemplate, rfl⟩ := List.mem_map.mp hrow
  obtain ⟨hid, hname, -⟩ := preannotate_function (U := S.unicode) S.setOrder
    (readCode (S.finalCsv st).2 template.functionFile) template
  rw [hid, hname]
  exact fromMetadata_templateCsv htemplate

theorem fromMetadata_groundTruth {row : AnnotationRow} (hrow : row ∈ S.groundTruth st) :
    FromMetadata st row.id row.functionName := by
  obtain ⟨annotated, hannotated, rfl⟩ := List.mem_map.mp hrow
  have hkept := (fromMetadata_preannotatedCsv hannotated).handOff.handOff
  simpa only [AnnotationRow.reread, S.review.keeps_id, S.review.keeps_functionName] using hkept

theorem fromMetadata_promptRows {row : PromptRow} (hrow : row ∈ S.promptRows st) :
    FromMetadata st row.functionId row.functionName := by
  obtain ⟨prompt, hprompt, rfl⟩ := List.mem_map.mp hrow
  obtain ⟨truth, htruth, hid, hname⟩ := exists_row_of_mem_createPrompts hprompt
  have hkept := (fromMetadata_groundTruth htruth).handOff
  rwa [← hid, ← hname] at hkept

theorem fromMetadata_evaluated {row : GroundTruthRow} (hrow : row ∈ S.evaluated st) :
    FromMetadata st row.id row.functionName := by
  obtain ⟨truth, htruth, rfl⟩ := List.mem_map.mp hrow
  exact fromMetadata_groundTruth htruth

/-- The result tables map the rows of the ground truth and copy its two first columns. -/
theorem name_of_mem_map {R : Type} {f : GroundTruthRow → R} {rowId : R → Text}
    {rowName : R → Cell} {id name : Text}
    (h : ∀ cell, FromMetadata st id cell → cell = some name) {r : R}
    (hr : r ∈ (S.evaluated st).map f) (hrid : rowId r = id)
    (hid : ∀ row, rowId (f row) = row.id) (hname : ∀ row, rowName (f row) = row.functionName) :
    rowName r = some name := by
  obtain ⟨row, hrow, rfl⟩ := List.mem_map.mp hr
  rw [hid] at hrid
  rw [hname]
  exact h _ (hrid ▸ fromMetadata_evaluated hrow)

/-- If all metadata rows of the identifier are read with the name, and stage 07 does not stop, all
later stages read it. -/
theorem nameKept_of_forall {id name : Text}
    (h : ∀ cell, FromMetadata st id cell → cell = some name)
    (hopens : ∀ id cell, FromMetadata st id cell → opensPrompt id cell = true) :
    S.NameKept st id name where
  selection := by
    intro row hrow hid
    obtain ⟨r, hr, rfl⟩ := List.mem_map.mp hrow
    exact h _ ⟨r, hr, hid, rfl⟩
  final c hc hid := h _ (hid ▸ fromMetadata_selectedCsv hc)
  template c hc hid := h _ (hid ▸ fromMetadata_finalCsv hc)
  preannotation row hrow hid := h _ (hid ▸ fromMetadata_templateCsv hrow)
  truth row hrow hid := h _ (hid ▸ fromMetadata_groundTruth hrow)
  prompts := by
    intro row hrow hid
    have hname := h _ (hid ▸ fromMetadata_promptRows hrow)
    have hfiles : S.promptFiles st = (S.promptRows st).map fun row => (row.path, row.prompt) :=
      congrArg Prod.fst
        (exportPrompts_of_opens fun row hrow => hopens _ _ (fromMetadata_promptRows hrow))
    rw [hfiles]
    refine ⟨hname, List.mem_map.mpr ⟨row, hrow, ?_⟩⟩
    rw [PromptRow.path, hid, hname]
    rfl
  collected _ hrow hid := name_of_mem_map h hrow hid (fun _ => collectRow_functionId _ _)
    fun _ => collectRow_functionName _ _
  scored _ hrow hid := name_of_mem_map h hrow hid (fun _ => scoreRow_functionId _ _)
    fun _ => scoreRow_functionName _ _
  compiled _ hrow hid := name_of_mem_map h hrow hid (fun _ => compileRow_functionId _ _)
    fun _ => compileRow_functionName _ _

end Setting

/-! ## The names of stage 01 -/

theorem eq_of_fromMetadata {U : UnicodeData} {tables : List ParquetTable}
    {files : Text → Option Text} {p : CodeCell × ℕ} (hp : p ∈ numberedCells U tables) {cell : Cell}
    (h : FromMetadata (extraction U tables files) (itemId p.2) cell) :
    cell = readCell p.1.functionName := by
  obtain ⟨row, hrow, hid, rfl⟩ := h
  obtain ⟨q, hq, rfl⟩ := List.mem_map.mp hrow
  rw [eq_of_number_eq hq hp (itemId_injective hid)]
  rfl

/-- Stage 01 issues no identifier and finds no name with a `/`. -/
theorem opensPrompt_of_fromMetadata {U : UnicodeData} {tables : List ParquetTable}
    {files : Text → Option Text} {id : Text} {cell : Cell}
    (h : FromMetadata (extraction U tables files) id cell) : opensPrompt id cell = true := by
  obtain ⟨row, hrow, rfl, rfl⟩ := h
  obtain ⟨p, -, rfl⟩ := List.mem_map.mp hrow
  refine opensPrompt_iff.mpr ⟨slash_notMem_itemId p.2, ?_⟩
  change '/' ∉ cellStr (readCell (extractFunctionName (.text p.1.code)))
  by_cases hmissing : extractFunctionName (.text p.1.code) ∈ missingWords
  · rw [readCell_of_mem hmissing]
    decide
  · rw [readCell_of_notMem hmissing]
    exact slash_notMem_extractFunctionName (.text p.1.code)

theorem nameKept_iff {U : UnicodeData} {tables : List ParquetTable} {files : Text → Option Text}
    {p : CodeCell × ℕ} (hp : p ∈ numberedCells U tables) (S : Setting) :
    S.NameKept (extraction U tables files) (itemId p.2) p.1.functionName ↔
      p.1.functionName ∉ missingWords := by
  rw [← readCell_eq_some_self_iff]
  constructor
  · intro h
    exact h.selection (p.1.metadataRow U p.2).read
      (List.mem_map_of_mem (List.mem_map_of_mem hp)) rfl
  · intro h
    refine Setting.nameKept_of_forall (fun cell hcell => ?_) fun _ _ => opensPrompt_of_fromMetadata
    rw [eq_of_fromMetadata hp hcell, h]

/-! ## Names that read as missing -/

/-- The words for missing values that are made of word characters. -/
def missingNames : List Text :=
  ["".toList, "NA".toList, "NULL".toList, "NaN".toList, "None".toList, "nan".toList, "null".toList]

/-- What follows the last scope operator in the first match of the pattern. -/
def namedComponent (code : Text) : Option Text :=
  (findAll nameMatcher code).head?.map fun g => (splitScope g).getLastD []

theorem safeName_mem_missingWords_iff {t : Text} :
    safeName t ∈ missingWords ↔ t ∈ missingNames := by
  constructor
  · intro h
    have hword : (safeName t).all isWordChar := by
      rw [List.all_eq_true]
      intro c hc
      exact isWordChar_of_mem_safeName hc
    have hnames : ∀ w ∈ missingWords, w.all isWordChar →
        w ∈ missingNames ∧ '_' ∉ w ∧ w.length < 80 := by decide
    obtain ⟨hmem, hunderscore, hlen⟩ := hnames _ h hword
    rwa [eq_of_safeName_eq hunderscore hlen rfl]
  · intro h
    have hkept : ∀ w ∈ missingNames, safeName w ∈ missingWords := by decide
    exact hkept t h

theorem functionName_mem_missingWords_iff {code : Text} :
    extractFunctionName (.text code) ∈ missingWords ↔
      ∃ w ∈ namedComponent code, w ∈ missingNames := by
  unfold namedComponent
  cases hfind : findAll nameMatcher code with
  | nil =>
      have hunknown : unknownFunction ∉ missingWords := by decide
      rw [extractFunctionName, hfind]
      simpa using hunknown
  | cons g rest =>
      rw [extractFunctionName_of_findAll hfind, safeName_mem_missingWords_iff]
      simp

/-! ## Values -/

/-- A value that stands alone in its cell is counted exactly when the cell is not read as missing
and the value holds no separator. -/
theorem splitValues_readCell_iff {U : UnicodeData} {v : Text} (hblank : strip v ≠ [])
    (hna : U.upper (strip v) ∉ notAvailable) :
    splitValues U (readCell v) = [strip v] ↔
      v ∉ missingWords ∧ ∀ c ∈ v, isSeparator c = false := by
  constructor
  · intro h
    have hmissing : v ∉ missingWords := by
      intro hmem
      rw [readCell_of_mem hmem] at h
      cases h
    refine ⟨hmissing, ?_⟩
    intro c hc
    by_contra hsep
    rw [readCell_of_notMem hmissing] at h
    have hvalue : strip v ∈ splitValues U (some v) := by
      rw [h]
      exact List.mem_singleton_self _
    have hspace : isSpace c = false := by
      by_contra hspace
      exact hsep (not_isSeparator_of_isSpace (by simpa using hspace))
    exact hsep (not_separator_of_mem_splitValues hvalue c (Segments.mem_trim_of_mem hc hspace))
  · rintro ⟨hmissing, hsep⟩
    have havailable : U.upper (strip v) ∉ [] :: notAvailable := by
      rw [List.mem_cons, not_or, UnicodeData.upper_eq_nil_iff]
      exact ⟨hblank, hna⟩
    rw [readCell_of_notMem hmissing, splitValues_of_available havailable, pieces,
      List.splitOnP_eq_singleton hsep]
    simp [hblank]

/-- A name reaches the later stages exactly when the component it is made from is not a word for a
missing value, and a value its count exactly when its cell is not such a word and holds no
separator. -/
theorem csv_keeps_iff (S : Setting) :
    (∀ (tables : List ParquetTable) (files : Text → Option Text) (st : Extraction),
      buildMetadata S.unicode tables files = .ok st → ∀ p ∈ numberedCells S.unicode tables,
        (S.NameKept st (itemId p.2) p.1.functionName ↔
          ∀ w ∈ namedComponent p.1.code, w ∉ missingNames)) ∧
    ∀ v : Text, strip v ≠ [] → S.unicode.upper (strip v) ∉ notAvailable →
      (splitValues S.unicode (readCell v) = [strip v] ↔
        v ∉ missingWords ∧ ∀ c ∈ v, isSeparator c = false) := by
  constructor
  · intro tables files st hrun p hp
    obtain ⟨-, -, rfl⟩ := buildMetadata_eq_ok_iff.mp hrun
    rw [nameKept_iff hp, CodeCell.functionName, functionName_mem_missingWords_iff]
    simp
  · intro v hblank hna
    exact splitValues_readCell_iff hblank hna

/-- A table with one column and one row. -/
def singleTable (code : Text) : ParquetTable where
  name := "sample.parquet".toList
  stem := "sample".toList
  columns := ["code".toList]
  rows := [fun _ => .text code]

def singleCell (code : Text) : CodeCell where
  table := singleTable code
  codeColumn := "code".toList
  row _ := .text code
  code := code

theorem detectCodeColumn_singleTable (code : Text) :
    detectCodeColumn asciiData (singleTable code).columns = some "code".toList := by
  change detectCodeColumn asciiData ["code".toList] = _
  decide

theorem codeCells_singleTable {code : Text} (h : strip code ≠ []) :
    codeCells asciiData (singleTable code) = [singleCell code] := by
  have hrows : (singleTable code).rows = [fun _ => .text code] := rfl
  rw [codeCells, detectCodeColumn_singleTable]
  simp only [hrows, List.filterMap_cons, nonBlank, if_neg h, Option.map_some, List.filterMap_nil]
  rfl

theorem numberedCells_singleTable {code : Text} (h : strip code ≠ []) :
    numberedCells asciiData [singleTable code] = [(singleCell code, 1)] := by
  rw [numberedCells, List.flatMap_singleton, codeCells_singleTable h]
  rfl

theorem buildMetadata_singleTable {code : Text} (h : strip code ≠ []) (files : Text → Option Text) :
    buildMetadata asciiData [singleTable code] files =
      .ok (extraction asciiData [singleTable code] files) := by
  apply buildMetadata_eq_ok_iff.mpr
  refine ⟨?_, ?_, rfl⟩
  · intro table htable
    rw [List.mem_singleton.mp htable, detectCodeColumn_singleTable]
    rfl
  · rw [numberedCells_singleTable h]
    exact List.cons_ne_nil _ _

def plainSetting : Setting where
  arithmetic := .binary64
  unicode := asciiData
  sortValues := .stable
  setOrder := .plain
  review := ⟨id, fun _ => rfl, fun _ => rfl, fun _ => rfl⟩
  testDir := .ofListing []
  compiler := quietCompiler

theorem csv_keeps_iff_sample :
    plainSetting.NameKept
        (extraction asciiData [singleTable "int clamp(int x) { return x; }".toList] fun _ => none)
        (itemId 1) (singleCell "int clamp(int x) { return x; }".toList).functionName ∧
      splitValues asciiData (readCell " -1".toList) = ["-1".toList] := by
  have hblank : strip "int clamp(int x) { return x; }".toList ≠ [] := by decide
  constructor
  · apply ((csv_keeps_iff plainSetting).1 [singleTable "int clamp(int x) { return x; }".toList] _ _
      (buildMetadata_singleTable hblank fun _ => none)
      (singleCell "int clamp(int x) { return x; }".toList, 1)
      (numberedCells_singleTable hblank ▸ List.mem_singleton_self _)).mpr
    decide
  · exact ((csv_keeps_iff plainSetting).2 " -1".toList (by decide) (by decide)).mpr
      ⟨by decide, forall_mem_of_all (by decide)⟩

/-- A function named `null` is read as missing by every stage and gets a prompt named `nan`, and the
value `NULL` is not counted. -/
theorem null_is_lost :
    (∀ S : Setting, ¬S.NameKept
      (extraction asciiData [singleTable "Value null(int x) { return x; }".toList] fun _ => none)
      (itemId 1) "null".toList) ∧
    extractFunctionName (.text "Value null(int x) { return x; }".toList) = "null".toList ∧
    readCell "null".toList = none ∧
    promptFileName (itemId 1) (readCell "null".toList) = "function_0001_nan_prompt.txt".toList ∧
    splitValues asciiData (readCell "NULL".toList) = [] := by
  have hname : extractFunctionName (.text "Value null(int x) { return x; }".toList) =
      "null".toList := by decide
  refine ⟨?_, hname, by decide, by decide, by decide⟩
  intro S h
  have hcell : (singleCell "Value null(int x) { return x; }".toList, 1) ∈
      numberedCells asciiData [singleTable "Value null(int x) { return x; }".toList] := by
    rw [numberedCells_singleTable (by decide)]
    exact List.mem_singleton_self _
  have hkept : (singleCell "Value null(int x) { return x; }".toList).functionName ∉
      missingWords := by
    apply (nameKept_iff hcell S).mp
    rw [CodeCell.functionName, singleCell, hname]
    exact h
  rw [CodeCell.functionName, singleCell, hname] at hkept
  exact hkept (by decide)

end TTCEvaluation
