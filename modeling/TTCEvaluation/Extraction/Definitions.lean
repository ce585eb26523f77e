import TTCEvaluation.Extraction.Identifiers
import TTCEvaluation.Extraction.Names
import TTCEvaluation.Text.Scanning

/-!
# Names of function definitions

The pattern of stage 01 recognises a definition whose parameter list is
followed by the brace.  If a qualifier stands between them, no match starts in
the header, and the name is taken from whatever the body offers.
-/

namespace TTCEvaluation

open Pattern Segments

def controlKeywords : List Text := ["if".toList, "for".toList, "while".toList, "switch".toList]

structure Identifier (w : Text) : Prop where
  start : ∃ c ∈ w.head?, isNameStart c
  chars : ∀ c ∈ w, isWordChar c
  not_keyword : w ∉ controlKeywords

def qualifierWords : List Text :=
  ["const".toList, "noexcept".toList, "override".toList, "final".toList]

def isParameterChar (c : Char) : Bool := c ∉ [';', '{', '}']

/-- The parts of a definition `R N(P) Q {`.  Blanks, `*` and `&` may stand before the name, and
each qualifier comes with the white space before it. -/
structure Definition where
  returnType : Text
  gap : Text
  scope : List Text
  name : Text
  parameters : Text
  qualifiers : List (Text × Text)
  braceGap : Text
  returnType_plain : ∀ c ∈ returnType, c ∉ ['(', ')', '{', '}', ';']
  gap_ne_nil : gap ≠ []
  gap_separates : ∀ c ∈ gap, isSpace c ∨ c ∈ ['*', '&']
  identifiers : ∀ w ∈ scope ++ [name], Identifier w
  parameters_plain : ∀ c ∈ parameters, isParameterChar c
  qualifiers_plain : ∀ q ∈ qualifiers, q.1 ≠ [] ∧ (∀ c ∈ q.1, isSpace c) ∧ q.2 ∈ qualifierWords
  braceGap_space : ∀ c ∈ braceGap, isSpace c

namespace Definition

variable (d : Definition)

def qualifiedName : Text := "::".toList.intercalate (d.scope ++ [d.name])

/-- What stands between the parameter list and the brace. -/
def qualifierText : Text := d.qualifiers.flatMap (fun q => q.1 ++ q.2) ++ d.braceGap

/-- The source from the name on, up to the brace. -/
def signature : Text := d.qualifiedName ++ '(' :: (d.parameters ++ ')' :: d.qualifierText)

/-- The source up to the brace. -/
def header : Text := d.returnType ++ d.gap ++ d.signature

/-- The source of a definition with the given text after the brace. -/
def source (body : Text) : Text := d.header ++ '{' :: body

end Definition

/-! ## The characters of a name -/

def isNameChar (c : Char) : Bool := isWordChar c || c ∈ [':', '<', '>', '~']

theorem isAscii_of_isNameChar {c : Char} (h : isNameChar c) : isAscii c := by
  simp only [isNameChar, Bool.or_eq_true, decide_eq_true_eq, List.mem_cons, List.not_mem_nil,
    or_false] at h
  rcases h with h | rfl | rfl | rfl | rfl
  · exact isAscii_of_isWordChar h
  all_goals decide

theorem not_isSpace_of_isNameChar {c : Char} (h : isNameChar c) : isSpace c = false := by
  have hascii := isAscii_of_isNameChar h
  revert h
  exact ascii_cases (P := fun c => isNameChar c → isSpace c = false) (by decide) hascii

theorem isNameChar_of_isNameStart {c : Char} (h : isNameStart c) : isNameChar c := by
  unfold isNameStart at h
  unfold isNameChar isWordChar Char.isAlphanum
  simp only [Bool.or_eq_true, decide_eq_true_eq] at h ⊢
  tauto

/-! ## What the pattern matches -/

theorem mem_ends_namePattern {prev : Option Char} {t g s : Text} :
    (g, s) ∈ namePattern.ends prev t ↔
      t = g ++ s ∧ (∃ c ∈ g.head?, isNameStart c) ∧ ∀ c ∈ g, isNameChar c := by
  rw [namePattern, mem_ends_seq]
  simp only [mem_ends_one, mem_ends_star]
  constructor
  · rintro ⟨u, v, r, ⟨c, hc, rfl, rfl⟩, ⟨rfl, hv⟩, rfl⟩
    exact ⟨by simp, ⟨c, rfl, hc⟩, List.forall_mem_cons.mpr ⟨isNameChar_of_isNameStart hc, hv⟩⟩
  · rintro ⟨rfl, ⟨c, hhead, hc⟩, hg⟩
    obtain ⟨g, rfl⟩ := List.head?_eq_some_iff.mp hhead
    rw [List.forall_mem_cons] at hg
    exact ⟨[c], g, g ++ s, ⟨c, hc, rfl, rfl⟩, ⟨rfl, hg.2⟩, rfl⟩

theorem mem_ends_headPattern {prev : Option Char} {t v s : Text} :
    (v, s) ∈ headPattern.ends prev t ↔
      ∃ b q b', (∀ c ∈ b, isSpace c) ∧ (∀ c ∈ q, isParameterChar c) ∧ (∀ c ∈ b', isSpace c) ∧
        v = b ++ '(' :: (q ++ ')' :: (b' ++ ['{'])) ∧ t = v ++ s := by
  rw [headPattern]
  simp only [mem_ends_seq, mem_ends_star, mem_ends_char]
  constructor
  · rintro ⟨b, -, -, ⟨rfl, hb⟩, ⟨-, -, r, ⟨rfl, rfl⟩, ⟨q, -, -, ⟨rfl, hq⟩, ⟨-, -, r, ⟨rfl, rfl⟩,
      ⟨b', -, r, ⟨rfl, hb'⟩, ⟨rfl, rfl⟩, rfl⟩, rfl⟩, rfl⟩, rfl⟩, rfl⟩
    exact ⟨b, q, b', hb, hq, hb', by simp, by simp⟩
  · rintro ⟨b, q, b', hb, hq, hb', rfl, rfl⟩
    refine ⟨b, '(' :: (q ++ ')' :: (b' ++ ['{'])), '(' :: (q ++ ')' :: (b' ++ '{' :: s)),
      ⟨by simp, hb⟩, ⟨['('], q ++ ')' :: (b' ++ ['{']), q ++ ')' :: (b' ++ '{' :: s),
      ⟨rfl, rfl⟩, ⟨q, ')' :: (b' ++ ['{']), ')' :: (b' ++ '{' :: s), ⟨rfl, hq⟩,
      ⟨[')'], b' ++ ['{'], b' ++ '{' :: s, ⟨rfl, rfl⟩, ⟨b', ['{'], '{' :: s, ⟨rfl, hb'⟩,
      ⟨rfl, rfl⟩, rfl⟩, rfl⟩, rfl⟩, rfl⟩, rfl⟩

/-- A match is a name, an opening bracket, what a parameter list may hold, and a closing bracket
before the brace, with white space in between. -/
theorem nameMatcher_eq_some {prev : Option Char} {t g w : Text}
    (h : nameMatcher prev t = some (g, w)) :
    ∃ b q b' s, (∃ c ∈ g.head?, isNameStart c) ∧ (∀ c ∈ g, isNameChar c) ∧ (∀ c ∈ b, isSpace c) ∧
      (∀ c ∈ q, isParameterChar c) ∧ (∀ c ∈ b', isSpace c) ∧
      t = g ++ b ++ '(' :: (q ++ ')' :: (b' ++ '{' :: s)) := by
  obtain ⟨v, r, s, hg, hv, -⟩ := grouped_eq_some h
  obtain ⟨rfl, hstart, hchars⟩ := mem_ends_namePattern.mp hg
  obtain ⟨b, q, b', hb, hq, hb', rfl, rfl⟩ := mem_ends_headPattern.mp hv
  exact ⟨b, q, b', s, hstart, hchars, hb, hq, hb', by simp⟩

/-! ## The parts of a definition -/

namespace Definition

variable (d : Definition)

theorem colon_notMem {w : Text} (hw : Identifier w) : ':' ∉ w := fun h =>
  absurd (hw.chars ':' h) (by decide)

theorem getLastD_splitScope_qualifiedName : (splitScope d.qualifiedName).getLastD [] = d.name := by
  rw [qualifiedName, splitScope_intercalate (by simp) fun w hw => colon_notMem (d.identifiers w hw)]
  simp

theorem isNameChar_of_mem_intercalate {parts : List Text} (h : ∀ w ∈ parts, Identifier w) :
    ∀ c ∈ "::".toList.intercalate parts, isNameChar c := by
  have hcolon : ∀ c ∈ "::".toList, isNameChar c := forall_mem_of_all (by decide)
  have hword {w : Text} (hw : Identifier w) : ∀ c ∈ w, isNameChar c := by
    intro c hc
    simp [isNameChar, hw.chars c hc]
  induction parts with
  | nil => simp
  | cons w parts ih =>
      rw [List.forall_mem_cons] at h
      cases parts with
      | nil =>
          rw [List.intercalate_singleton]
          exact hword h.1
      | cons w' parts =>
          intro c hc
          rw [List.intercalate_cons_cons, List.mem_append, List.mem_append] at hc
          rcases hc with (hc | hc) | hc
          · exact hword h.1 c hc
          · exact hcolon c hc
          · exact ih h.2 c hc

theorem isNameChar_of_mem_qualifiedName : ∀ c ∈ d.qualifiedName, isNameChar c :=
  isNameChar_of_mem_intercalate d.identifiers

/-- A qualified name starts like an identifier. -/
theorem exists_qualifiedName_eq_cons :
    ∃ c w, d.qualifiedName = c :: w ∧ isNameStart c ∧ ∀ x ∈ w, isNameChar x := by
  have hfirst : ∃ w rest, Identifier w ∧ d.qualifiedName = w ++ rest := by
    unfold qualifiedName
    cases hscope : d.scope with
    | nil =>
        refine ⟨d.name, [], d.identifiers d.name (by simp), ?_⟩
        rw [List.nil_append, List.intercalate_singleton, List.append_nil]
    | cons w scope =>
        have hw : Identifier w := d.identifiers w (by simp [hscope])
        obtain ⟨w', parts, hparts⟩ := List.exists_cons_of_ne_nil
          (show scope ++ [d.name] ≠ [] by simp)
        refine ⟨w, "::".toList ++ "::".toList.intercalate (scope ++ [d.name]), hw, ?_⟩
        rw [List.cons_append, hparts, List.intercalate_cons_cons, List.append_assoc]
  obtain ⟨w, rest, hw, hname⟩ := hfirst
  obtain ⟨c, hhead, hc⟩ := hw.start
  obtain ⟨w, rfl⟩ := List.head?_eq_some_iff.mp hhead
  refine ⟨c, w ++ rest, hname, hc, ?_⟩
  intro x hx
  apply d.isNameChar_of_mem_qualifiedName
  rw [hname]
  exact List.mem_cons_of_mem _ hx

/-! ## No match starts before the name -/

theorem bracket_notMem_qualifiedName : '(' ∉ d.qualifiedName := fun h =>
  absurd (d.isNameChar_of_mem_qualifiedName _ h) (by decide)

theorem not_isNameChar_of_mem_gap {c : Char} (h : c ∈ d.gap) : isNameChar c = false := by
  rcases d.gap_separates c h with hspace | hsign
  · by_contra hc
    rw [not_isSpace_of_isNameChar (by simpa using hc)] at hspace
    cases hspace
  · exact forall_mem_of_all (P := fun c => isNameChar c = false) (t := ['*', '&']) (by decide) c
      hsign

/-- Before the name: a text that ends outside names, followed by the name and its bracket. -/
theorem nameMatcher_before_name {prev : Option Char} {y r : Text} (hy : y ≠ [])
    (hlast : ∀ c ∈ y.getLast?, isNameChar c = false) (hplain : '(' ∉ y) :
    nameMatcher prev (y ++ d.qualifiedName ++ '(' :: r) = none := by
  by_contra hmatch
  obtain ⟨⟨g, w⟩, hmatch⟩ := Option.ne_none_iff_exists'.mp hmatch
  obtain ⟨b, q, b', s, -, hg, hb, -, -, ht⟩ := nameMatcher_eq_some hmatch
  obtain ⟨c, z, hname, -, -⟩ := d.exists_qualifiedName_eq_cons
  have heq : y ++ d.qualifiedName = g ++ b := by
    apply eq_of_append_cons_eq (c := '(') _ _ ht
    · rw [List.mem_append, not_or]
      exact ⟨hplain, d.bracket_notMem_qualifiedName⟩
    · rw [List.mem_append, not_or]
      exact ⟨fun h => absurd (hg _ h) (by decide), fun h => absurd (hb _ h) (by decide)⟩
  cases hblast : b.getLast? with
  | some x =>
      -- the last character before the bracket would be of the name and white space
      have hspace := hb x (List.mem_of_getLast? hblast)
      have hmem : x ∈ d.qualifiedName := by
        have hend := congrArg List.getLast? heq
        rw [List.getLast?_append_of_ne_nil _ (by simp [hname]), List.getLast?_append,
          hblast] at hend
        exact List.mem_of_getLast? hend
      rw [not_isSpace_of_isNameChar (d.isNameChar_of_mem_qualifiedName x hmem)] at hspace
      cases hspace
  | none =>
      -- the name would begin before its place
      obtain ⟨x, hx⟩ := Option.isSome_iff_exists.mp (List.getLast?_isSome.mpr hy)
      have hmem : x ∈ g := by
        rw [List.getLast?_eq_none_iff.mp hblast, List.append_nil] at heq
        rw [← heq]
        exact List.mem_append_left _ (List.mem_of_getLast? hx)
      have hchar := hg x hmem
      rw [hlast x hx] at hchar
      cases hchar

/-- The scan reaches the name. -/
theorem findAll_append_signature (r : Text) :
    findAll nameMatcher (d.returnType ++ d.gap ++ (d.qualifiedName ++ '(' :: r)) =
      findAllFrom nameMatcher d.gap.getLast? 0 (d.qualifiedName ++ '(' :: r) := by
  obtain ⟨z, hz⟩ := Option.isSome_iff_exists.mp (List.getLast?_isSome.mpr d.gap_ne_nil)
  have hplain : '(' ∉ d.returnType ++ d.gap := by
    rw [List.mem_append, not_or]
    refine ⟨fun h => absurd (d.returnType_plain _ h) (by decide), ?_⟩
    intro h
    rcases d.gap_separates _ h with h | h <;> exact absurd h (by decide)
  rw [findAll, findAllFrom_append_of_miss, List.getLast?_append, hz]
  · rfl
  · intro u c v hsplit
    have hmiss : nameMatcher (u.getLast?.or none) (c :: v ++ d.qualifiedName ++ '(' :: r) = none :=
      d.nameMatcher_before_name (by simp) ?_ ?_
    · simpa using hmiss
    · intro x hx
      have hend := congrArg List.getLast? hsplit
      rw [List.getLast?_append, List.getLast?_append, hz, Option.mem_def.mp hx] at hend
      obtain rfl := Option.some.inj hend
      exact d.not_isNameChar_of_mem_gap (List.mem_of_getLast? hz)
    · intro h
      rw [hsplit] at hplain
      exact hplain (List.mem_append_right u h)

/-! ## Without qualifiers the name is found -/

theorem first_namePattern {c : Char} (hc : isNameStart c) (prev : Option Char) (t : Text) :
    namePattern.first prev (c :: t) =
      some (c :: t.takeWhile isNameChar, t.dropWhile isNameChar) := by
  rw [namePattern, first_seq_of_total (ends_star_ne_nil _)]
  simp only [first, ends, if_pos hc, List.head?_cons, Option.bind_some, head?_runs, Option.map_some]
  rfl

theorem nameMatcher_at_name (h : d.qualifiers = []) (prev : Option Char) (body : Text) :
    ∃ w, nameMatcher prev (d.signature ++ '{' :: body) = some (d.qualifiedName, w) := by
  obtain ⟨c, z, hname, hc, hz⟩ := d.exists_qualifiedName_eq_cons
  have hbrace : d.qualifierText = d.braceGap := by simp [qualifierText, h]
  have hbracket : ¬isNameChar '(' := by decide
  rw [signature, hbrace, hname, List.append_assoc]
  apply grouped_of_first (s := '(' :: (d.parameters ++ ')' :: (d.braceGap ++ '{' :: body)))
  · rw [List.cons_append, first_namePattern hc, List.takeWhile_append_of_pos hz,
      List.dropWhile_append_of_pos hz]
    simp [hbracket]
  · apply List.ne_nil_of_mem
    apply (mem_ends_headPattern (s := body)).mpr
    exact ⟨[], d.parameters, d.braceGap, by simp, d.parameters_plain, d.braceGap_space, rfl,
      by simp⟩

theorem consumes_nameMatcher : Consumes nameMatcher := consumes_grouped (Or.inl trivial)

theorem extractFunctionName_source_of_nil (h : d.qualifiers = []) (body : Text) :
    extractFunctionName (.text (d.source body)) = safeName d.name := by
  obtain ⟨w, hmatch⟩ := d.nameMatcher_at_name h d.gap.getLast? body
  obtain ⟨rest, hrest⟩ := consumes_nameMatcher.append hmatch
  have hne := consumes_nameMatcher.ne_nil hmatch
  have hfind := d.findAll_append_signature (d.parameters ++ ')' :: (d.qualifierText ++ '{' :: body))
  have hsource : d.returnType ++ d.gap ++
      (d.qualifiedName ++ '(' :: (d.parameters ++ ')' :: (d.qualifierText ++ '{' :: body))) =
        d.source body := by
    simp [source, header, signature]
  have hsignature : d.qualifiedName ++ '(' ::
      (d.parameters ++ ')' :: (d.qualifierText ++ '{' :: body)) = d.signature ++ '{' :: body := by
    simp [signature]
  rw [hsource, hsignature, hrest] at hfind
  rw [hrest] at hmatch
  rw [findAllFrom_hit hne hmatch] at hfind
  rw [extractFunctionName_of_findAll hfind, getLastD_splitScope_qualifiedName]

/-! ## With qualifiers the header is passed over -/

theorem exists_qualifierWord_eq {w : Text} (h : w ∈ qualifierWords) :
    ∃ v l, w = v ++ [l] ∧ isSpace l = false ∧ l ≠ ')' := by
  simp only [qualifierWords, List.mem_cons, List.not_mem_nil, or_false] at h
  rcases h with rfl | rfl | rfl | rfl
  · exact ⟨"cons".toList, 't', rfl, by decide, by decide⟩
  · exact ⟨"noexcep".toList, 't', rfl, by decide, by decide⟩
  · exact ⟨"overrid".toList, 'e', rfl, by decide, by decide⟩
  · exact ⟨"fina".toList, 'l', rfl, by decide, by decide⟩

theorem exists_header_eq (h : d.qualifiers ≠ []) :
    ∃ r l, d.header = r ++ l :: d.braceGap ∧ isSpace l = false ∧ l ≠ ')' := by
  obtain ⟨qs, q, hq⟩ := List.eq_nil_or_concat' d.qualifiers |>.resolve_left h
  obtain ⟨-, -, hword⟩ := d.qualifiers_plain q (by simp [hq])
  obtain ⟨v, l, hv, hspace, hl⟩ := exists_qualifierWord_eq hword
  refine ⟨d.returnType ++ d.gap ++ d.qualifiedName ++ '(' :: (d.parameters ++
    ')' :: (qs.flatMap (fun q => q.1 ++ q.2) ++ q.1 ++ v)), l, ?_, hspace, hl⟩
  simp [header, signature, qualifierText, hq, hv]

theorem brace_notMem_header : '{' ∉ d.header := by
  have hword : ∀ w ∈ qualifierWords, '{' ∉ w := by
    simp [qualifierWords]
  simp only [header, signature, qualifierText, List.mem_append, List.mem_cons, List.mem_flatMap,
    not_or, not_exists, not_and]
  refine ⟨⟨fun h => absurd (d.returnType_plain _ h) (by decide), ?_⟩,
    fun h => absurd (d.isNameChar_of_mem_qualifiedName _ h) (by decide), by decide,
    fun h => absurd (d.parameters_plain _ h) (by decide), by decide, ?_,
    fun h => absurd (d.braceGap_space _ h) (by decide)⟩
  · intro h
    rcases d.gap_separates _ h with h | h <;> exact absurd h (by decide)
  · intro q hq
    obtain ⟨-, hspace, hmem⟩ := d.qualifiers_plain q hq
    exact ⟨fun h => absurd (hspace _ h) (by decide), hword q.2 hmem⟩

/-- A match from within the header would need its closing bracket next to the brace. -/
theorem nameMatcher_in_header (h : d.qualifiers ≠ []) {prev : Option Char} {u y body : Text}
    (hsplit : d.header = u ++ y) : nameMatcher prev (y ++ '{' :: body) = none := by
  by_contra hmatch
  obtain ⟨⟨g, w⟩, hmatch⟩ := Option.ne_none_iff_exists'.mp hmatch
  obtain ⟨b, q, b', s, -, hg, hb, hq, hb', ht⟩ := nameMatcher_eq_some hmatch
  have hy : y = g ++ b ++ '(' :: (q ++ ')' :: b') := by
    apply eq_of_append_cons_eq (c := '{') (r := body) (s := s)
    · intro hmem
      exact d.brace_notMem_header (hsplit ▸ List.mem_append_right u hmem)
    · simp only [List.mem_append, List.mem_cons, not_or]
      exact ⟨⟨fun h => absurd (hg _ h) (by decide), fun h => absurd (hb _ h) (by decide)⟩,
        by decide, fun h => absurd (hq _ h) (by decide), by decide,
        fun h => absurd (hb' _ h) (by decide)⟩
    · simpa using ht
  obtain ⟨r, l, hheader, hspace, hl⟩ := d.exists_header_eq h
  apply hl
  apply eq_of_append_cons_append (p := isSpace) (s := u ++ g ++ b ++ '(' :: q) d.braceGap_space hb'
    hspace (by decide)
  rw [← hheader, hsplit, hy]
  simp

theorem lookFree_namePattern : namePattern.LookFree := ⟨trivial, trivial⟩

theorem lookFree_headPattern : headPattern.LookFree :=
  ⟨trivial, trivial, trivial, trivial, trivial, trivial⟩

/-- With a qualifier, the name is the one that the text behind the brace gives. -/
theorem extractFunctionName_source_of_ne_nil (h : d.qualifiers ≠ []) (body : Text) :
    extractFunctionName (.text (d.source body)) = extractFunctionName (.text body) := by
  have hfind : findAll nameMatcher (d.source body) = findAll nameMatcher body := by
    have hsource : d.source body = d.header ++ ['{'] ++ body := by simp [source]
    rw [hsource, findAll, findAllFrom_append_of_miss, findAll]
    · exact findAllFrom_congr (grouped_congr lookFree_namePattern lookFree_headPattern _ _ _)
    · intro u c v hsplit
      obtain ⟨y, x, hy⟩ := (List.eq_nil_or_concat' (c :: v)).resolve_left (by simp)
      rw [hy, ← List.append_assoc] at hsplit
      obtain ⟨hheader, hbrace⟩ := List.append_inj' hsplit rfl
      obtain rfl := List.singleton_inj.mp hbrace
      rw [hy, List.append_assoc, List.singleton_append]
      exact d.nameMatcher_in_header h hheader
  rw [extractFunctionName, hfind]
  rfl

/-! ## The name that is returned -/

theorem safeName_of_identifier {w : Text} (h : Identifier w) : safeName w = w.take 80 := by
  rw [safeName, replaceRuns_of_forall]
  intro c hc
  simp [h.chars c hc]

theorem safeName_notMem_controlKeywords {w : Text} (h : Identifier w) :
    safeName w ∉ controlKeywords := by
  rw [safeName_of_identifier h]
  intro hmem
  have hshort : ∀ k ∈ controlKeywords, k.length < 80 := by decide
  have hlen := hshort _ hmem
  rw [List.length_take] at hlen
  rw [List.take_of_length_le (by omega)] at hmem
  exact h.not_keyword hmem

theorem exists_body_with_keyword (h : d.qualifiers ≠ []) :
    ∃ body, extractFunctionName (.text (d.source body)) ∈ controlKeywords := by
  refine ⟨"if (x) {}".toList, ?_⟩
  rw [d.extractFunctionName_source_of_ne_nil h]
  decide

/-- The name of the definition is returned, whatever follows the brace, exactly when no qualifier
stands before the brace; otherwise the name is always looked for behind the brace. -/
theorem extractFunctionName_source_iff :
    ((∀ body, extractFunctionName (.text (d.source body)) = safeName d.name ∧
      extractFunctionName (.text (d.source body)) ∉ controlKeywords) ↔ d.qualifiers = []) ∧
    (d.qualifiers ≠ [] → ∀ body,
      extractFunctionName (.text (d.source body)) = extractFunctionName (.text body)) := by
  have hname : Identifier d.name := d.identifiers d.name (by simp)
  refine ⟨⟨?_, ?_⟩, d.extractFunctionName_source_of_ne_nil⟩
  · intro h
    by_contra hne
    obtain ⟨body, hkeyword⟩ := d.exists_body_with_keyword hne
    exact (h body).2 hkeyword
  · intro h body
    rw [d.extractFunctionName_source_of_nil h]
    exact ⟨rfl, safeName_notMem_controlKeywords hname⟩

end Definition

def constMember : Definition where
  returnType := "bool".toList
  gap := " ".toList
  scope := ["Range".toList]
  name := "valid".toList
  parameters := "int x".toList
  qualifiers := [(" ".toList, "const".toList)]
  braceGap := " ".toList
  returnType_plain := forall_mem_of_all (by decide)
  gap_ne_nil := by decide
  gap_separates := forall_mem_of_all (by decide)
  identifiers := by
    have hword {w : Text} (hstart : w.head?.any isNameStart) (hchars : w.all isWordChar)
        (hkeyword : w ∉ controlKeywords) : Identifier w :=
      ⟨by simpa [Option.any_eq_true] using hstart, by simpa using hchars, hkeyword⟩
    simp only [List.cons_append, List.nil_append, List.forall_mem_cons]
    exact ⟨hword rfl rfl (by decide), hword rfl rfl (by decide), by simp⟩
  parameters_plain := forall_mem_of_all (by decide)
  qualifiers_plain := by
    simp only [List.forall_mem_cons]
    exact ⟨⟨by decide, forall_mem_of_all (by decide), by decide⟩, by simp⟩
  braceGap_space := forall_mem_of_all (by decide)

/-- A constant member function is recorded under the keyword of its first control statement. -/
theorem constMember_name :
    constMember.source " if (x > 0) { return true; } return false; \x7d".toList =
      "bool Range::valid(int x) const { if (x > 0) { return true; } return false; }".toList ∧
    extractFunctionName (.text (constMember.source
      " if (x > 0) { return true; } return false; \x7d".toList)) = "if".toList ∧
    safeName constMember.name = "valid".toList := by
  decide +kernel

end TTCEvaluation
