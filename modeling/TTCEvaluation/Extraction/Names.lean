import TTCEvaluation.Text.Patterns

/-!
# Function names

The name of a function is cut from its code by a pattern, reduced to what
follows the last scope operator, and sanitised for use in a file name.
-/

namespace TTCEvaluation

open Pattern

/-- A cell of a parquet table: a string, or something else with its `str()`. -/
inductive RawCell where
  | text (s : Text)
  | other (shown : Text)
deriving DecidableEq

/-- `re.sub("[...]+", "_", text)`: each run of the class becomes one underscore. -/
def replaceRuns (p : Char → Bool) (inRun : Bool) : Text → Text
  | [] => []
  | c :: rest =>
      if p c then
        if inRun then replaceRuns p true rest else '_' :: replaceRuns p true rest
      else c :: replaceRuns p false rest

def safeName (text : Text) : Text := (replaceRuns (fun c => !isWordChar c) false text).take 80

/-- `text.split("::")`. -/
def splitScope : Text → List Text
  | [] => [[]]
  | ':' :: ':' :: rest => [] :: splitScope rest
  | c :: rest =>
      match splitScope rest with
      | [] => [[c]]
      | part :: parts => (c :: part) :: parts

/-- `[a-zA-Z_][a-zA-Z0-9_:<>~]*`. -/
def namePattern : Pattern :=
  seq (one isNameStart) (star fun c => isWordChar c || c ∈ [':', '<', '>', '~'])

/-- `\s*\([^;{}]*\)\s*\{`. -/
def headPattern : Pattern :=
  seq (star isSpace) <| seq (char '(') <| seq (star fun c => c ∉ [';', '{', '}']) <|
    seq (char ')') <| seq (star isSpace) (char '{')

abbrev nameMatcher : Matcher := grouped namePattern headPattern

def unknownFunction : Text := "unknown_function".toList

def extractFunctionName : RawCell → Text
  | .other _ => unknownFunction
  | .text code =>
      match findAll (grouped namePattern headPattern) code with
      | [] => unknownFunction
      | candidate :: _ => safeName ((splitScope candidate).getLastD [])

/-! ## Names are made of word characters -/

theorem isWordChar_of_mem_replaceRuns {inRun : Bool} {t : Text} {c : Char}
    (h : c ∈ replaceRuns (fun c => !isWordChar c) inRun t) : isWordChar c := by
  induction t generalizing inRun with
  | nil => simp [replaceRuns] at h
  | cons d t ih =>
      rw [replaceRuns] at h
      split_ifs at h with hd hrun
      · exact ih h
      · rcases List.mem_cons.mp h with rfl | h
        · rfl
        · exact ih h
      · rcases List.mem_cons.mp h with rfl | h
        · simpa using hd
        · exact ih h

theorem isWordChar_of_mem_safeName {t : Text} {c : Char} (h : c ∈ safeName t) : isWordChar c :=
  isWordChar_of_mem_replaceRuns (List.mem_of_mem_take h)

theorem isWordChar_of_mem_extractFunctionName {code : RawCell} {c : Char}
    (h : c ∈ extractFunctionName code) : isWordChar c := by
  have hunknown : ∀ d ∈ unknownFunction, isWordChar d := forall_mem_of_all (by decide)
  cases code with
  | other shown => exact hunknown c h
  | text code =>
      rw [extractFunctionName] at h
      split at h
      · exact hunknown c h
      · exact isWordChar_of_mem_safeName h

theorem extractFunctionName_of_findAll {code g : Text} {rest : List Text}
    (h : findAll nameMatcher code = g :: rest) :
    extractFunctionName (.text code) = safeName ((splitScope g).getLastD []) := by
  rw [extractFunctionName, h]

/-! ## Names that sanitising keeps -/

theorem replaceRuns_of_forall {p : Char → Bool} {b : Bool} {t : Text} (h : ∀ c ∈ t, p c = false) :
    replaceRuns p b t = t := by
  induction t generalizing b with
  | nil => rfl
  | cons c t ih =>
      rw [List.forall_mem_cons] at h
      rw [replaceRuns, if_neg (by simp [h.1]), ih h.2]

theorem replaceRuns_of_underscore_notMem {p : Char → Bool} {t : Text}
    (h : '_' ∉ replaceRuns p false t) : replaceRuns p false t = t := by
  induction t with
  | nil => rfl
  | cons c t ih =>
      by_cases hc : p c
      · simp [replaceRuns, hc] at h
      · rw [replaceRuns, if_neg hc] at h ⊢
        rw [List.mem_cons, not_or] at h
        rw [ih h.2]

theorem eq_of_safeName_eq {w t : Text} (hw : '_' ∉ w) (hlen : w.length < 80)
    (h : safeName t = w) : t = w := by
  have hshort : (replaceRuns (fun c => !isWordChar c) false t).length < 80 := by
    rw [← h, safeName, List.length_take] at hlen
    omega
  rw [safeName, List.take_of_length_le hshort.le] at h
  rw [← h, replaceRuns_of_underscore_notMem]
  rwa [h]

/-! ## Scopes -/

theorem splitScope_cons_of_ne {c : Char} (hc : c ≠ ':') (t : Text) :
    splitScope (c :: t) =
      match splitScope t with
      | [] => [[c]]
      | part :: parts => (c :: part) :: parts :=
  splitScope.eq_3 c t fun _ h _ => hc h

theorem splitScope_of_plain {w : Text} (hw : ':' ∉ w) : splitScope w = [w] := by
  induction w with
  | nil => rfl
  | cons c w ih =>
      rw [List.mem_cons, not_or] at hw
      rw [splitScope_cons_of_ne (Ne.symm hw.1), ih hw.2]

theorem splitScope_append_scope {w : Text} (hw : ':' ∉ w) (t : Text) :
    splitScope (w ++ ':' :: ':' :: t) = w :: splitScope t := by
  induction w with
  | nil => simp [splitScope]
  | cons c w ih =>
      rw [List.mem_cons, not_or] at hw
      rw [List.cons_append, splitScope_cons_of_ne (Ne.symm hw.1), ih hw.2]

/-- Splitting a qualified name gives back its components. -/
theorem splitScope_intercalate {parts : List Text} (hne : parts ≠ [])
    (h : ∀ w ∈ parts, ':' ∉ w) : splitScope ("::".toList.intercalate parts) = parts := by
  induction parts with
  | nil => exact (hne rfl).elim
  | cons w parts ih =>
      rw [List.forall_mem_cons] at h
      cases parts with
      | nil => rw [List.intercalate_singleton, splitScope_of_plain h.1]
      | cons w' parts =>
          rw [List.intercalate_cons_cons, List.append_assoc]
          have hscope := splitScope_append_scope h.1 ("::".toList.intercalate (w' :: parts))
          rw [ih (by simp) h.2] at hscope
          exact hscope

end TTCEvaluation
