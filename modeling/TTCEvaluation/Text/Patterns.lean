import TTCEvaluation.Text.Strings

/-!
# Backtracking patterns

Regular expressions whose repetitions are over character classes, with the
list of all ways to match at a place, in the order in which a backtracking
matcher tries them.  `findAll` scans a text from left to right for
non-overlapping matches, the first way to match being taken at each place.
-/

namespace TTCEvaluation

inductive Pattern where
  /-- A character class. -/
  | one (p : Char → Bool)
  /-- Greedy repetition of a class, `[...]*`. -/
  | star (p : Char → Bool)
  | seq (a b : Pattern)
  /-- Greedy option, `(?:...)?`. -/
  | opt (a : Pattern)
  /-- Negative look-behind at one character, `(?<![...])`. -/
  | notBehind (p : Char → Bool)

namespace Pattern

/-- `[...]+`. -/
def plus (p : Char → Bool) : Pattern := seq (one p) (star p)

def char (c : Char) : Pattern := one (· = c)

/-- The splits of a text after a run of the class, longest run first. -/
def runs (p : Char → Bool) : Text → List (Text × Text)
  | [] => [([], [])]
  | c :: rest =>
      if p c then (runs p rest).map (fun r => (c :: r.1, r.2)) ++ [([], c :: rest)]
      else [([], c :: rest)]

/-- All ways to match at the beginning of a text, each with the remaining text; `prev` is the
character before the text. -/
def ends : Pattern → Option Char → Text → List (Text × Text)
  | one p, _, c :: rest => if p c then [([c], rest)] else []
  | one _, _, [] => []
  | star p, _, t => runs p t
  | seq a b, prev, t =>
      (a.ends prev t).flatMap fun r =>
        (b.ends (r.1.getLast?.or prev) r.2).map fun r' => (r.1 ++ r'.1, r'.2)
  | opt a, prev, t => a.ends prev t ++ [([], t)]
  | notBehind p, prev, t => if prev.any p then [] else [([], t)]

/-- The classes of a pattern, look-behinds apart, are contained in `q`. -/
def Within (q : Char → Bool) : Pattern → Prop
  | one p => ∀ c, p c → q c
  | star p => ∀ c, p c → q c
  | seq a b => a.Within q ∧ b.Within q
  | opt a => a.Within q
  | notBehind _ => True

def NonNull : Pattern → Prop
  | one _ => True
  | star _ => False
  | seq a b => a.NonNull ∨ b.NonNull
  | opt _ => False
  | notBehind _ => False

/-! ## Matches are prefixes made of the pattern's characters -/

theorem append_of_mem_runs {p : Char → Bool} {t : Text} {r : Text × Text} (h : r ∈ runs p t) :
    t = r.1 ++ r.2 := by
  induction t generalizing r with
  | nil =>
      rw [runs, List.mem_singleton] at h
      rw [h, List.append_nil]
  | cons c t ih =>
      rw [runs] at h
      split_ifs at h
      · rw [List.mem_append, List.mem_map, List.mem_singleton] at h
        rcases h with ⟨s, hs, rfl⟩ | rfl
        · rw [List.cons_append, ← ih hs]
        · rfl
      · rw [List.mem_singleton] at h
        rw [h, List.nil_append]

theorem forall_of_mem_runs {p : Char → Bool} {t : Text} {r : Text × Text} (h : r ∈ runs p t) :
    ∀ c ∈ r.1, p c := by
  induction t generalizing r with
  | nil =>
      rw [runs, List.mem_singleton] at h
      simp [h]
  | cons c t ih =>
      rw [runs] at h
      split_ifs at h with hc
      · rw [List.mem_append, List.mem_map, List.mem_singleton] at h
        rcases h with ⟨s, hs, rfl⟩ | rfl
        · exact List.forall_mem_cons.mpr ⟨hc, ih hs⟩
        · simp
      · rw [List.mem_singleton] at h
        simp [h]

theorem append_of_mem_ends {a : Pattern} {prev : Option Char} {t : Text} {r : Text × Text}
    (h : r ∈ a.ends prev t) : t = r.1 ++ r.2 := by
  induction a generalizing prev t r with
  | one p =>
      cases t with
      | nil => simp [ends] at h
      | cons c t =>
          rw [ends] at h
          split_ifs at h
          · rw [List.mem_singleton] at h
            rw [h, List.singleton_append]
          · simp at h
  | star p => exact append_of_mem_runs h
  | seq a b iha ihb =>
      simp only [ends, List.mem_flatMap, List.mem_map] at h
      obtain ⟨s, hs, s', hs', rfl⟩ := h
      rw [iha hs, ihb hs', List.append_assoc]
  | opt a iha =>
      rw [ends, List.mem_append, List.mem_singleton] at h
      rcases h with h | rfl
      · exact iha h
      · rfl
  | notBehind p =>
      rw [ends] at h
      split_ifs at h
      · simp at h
      · rw [List.mem_singleton] at h
        rw [h, List.nil_append]

theorem forall_of_mem_ends {a : Pattern} {q : Char → Bool} (ha : a.Within q) {prev : Option Char}
    {t : Text} {r : Text × Text} (h : r ∈ a.ends prev t) : ∀ c ∈ r.1, q c := by
  induction a generalizing prev t r with
  | one p =>
      cases t with
      | nil => simp [ends] at h
      | cons c t =>
          rw [ends] at h
          split_ifs at h with hc
          · rw [List.mem_singleton] at h
            simpa [h] using ha c hc
          · simp at h
  | star p => exact fun c hc => ha c (forall_of_mem_runs h c hc)
  | seq a b iha ihb =>
      simp only [ends, List.mem_flatMap, List.mem_map] at h
      obtain ⟨s, hs, s', hs', rfl⟩ := h
      intro c hc
      rcases List.mem_append.mp hc with hc | hc
      · exact iha ha.1 hs c hc
      · exact ihb ha.2 hs' c hc
  | opt a iha =>
      rw [ends, List.mem_append, List.mem_singleton] at h
      rcases h with h | rfl
      · exact iha ha h
      · simp
  | notBehind p =>
      rw [ends] at h
      split_ifs at h
      · simp at h
      · rw [List.mem_singleton] at h
        simp [h]

theorem ne_nil_of_mem_ends {a : Pattern} (ha : a.NonNull) {prev : Option Char} {t : Text}
    {r : Text × Text} (h : r ∈ a.ends prev t) : r.1 ≠ [] := by
  induction a generalizing prev t r with
  | one p =>
      cases t with
      | nil => simp [ends] at h
      | cons c t =>
          rw [ends] at h
          split_ifs at h
          · rw [List.mem_singleton] at h
            simp [h]
          · simp at h
  | seq a b iha ihb =>
      simp only [ends, List.mem_flatMap, List.mem_map] at h
      obtain ⟨s, hs, s', hs', rfl⟩ := h
      rcases ha with ha | hb
      · exact List.append_ne_nil_of_left_ne_nil (iha ha hs) _
      · exact List.append_ne_nil_of_right_ne_nil _ (ihb hb hs')
  | star p => exact ha.elim
  | opt a => exact ha.elim
  | notBehind p => exact ha.elim

/-! ## Scanning -/

/-- A matcher at a place: the reported group and the whole match. -/
abbrev Matcher := Option Char → Text → Option (Text × Text)

def whole (a : Pattern) : Matcher := fun prev t => (a.ends prev t).head?.map fun r => (r.1, r.1)

/-- A pattern that starts with a group and goes on with `b` reports the group. -/
def grouped (a b : Pattern) : Matcher := fun prev t =>
  ((a.ends prev t).flatMap fun r =>
    (b.ends (r.1.getLast?.or prev) r.2).map fun r' => (r.1, r.1 ++ r'.1)).head?

/-- The scan of `re.findall`, for matchers whose matches are not empty: `skip` characters of the
last match are still to be passed. -/
def findAllFrom (m : Matcher) : Option Char → ℕ → Text → List Text
  | _, _, [] => []
  | _, skip + 1, c :: rest => findAllFrom m (some c) skip rest
  | prev, 0, c :: rest =>
      match m prev (c :: rest) with
      | none => findAllFrom m (some c) 0 rest
      | some r => r.1 :: findAllFrom m (some c) (r.2.length - 1) rest

def findAll (m : Matcher) (t : Text) : List Text := findAllFrom m none 0 t

/-- Every reported group was matched at a place of the text. -/
theorem exists_match_of_mem_findAllFrom {m : Matcher} {g : Text} {prev : Option Char} {skip : ℕ}
    {t : Text} (h : g ∈ findAllFrom m prev skip t) :
    ∃ prev' w t', t' <:+ t ∧ m prev' t' = some (g, w) := by
  induction t generalizing prev skip with
  | nil => simp [findAllFrom] at h
  | cons c t ih =>
      have hrec {skip' : ℕ} (hg : g ∈ findAllFrom m (some c) skip' t) :
          ∃ prev' w t', t' <:+ c :: t ∧ m prev' t' = some (g, w) := by
        obtain ⟨prev', w, t', ht', hm⟩ := ih hg
        exact ⟨prev', w, t', ht'.trans (List.suffix_cons c t), hm⟩
      cases skip with
      | succ skip => exact hrec h
      | zero =>
          rw [findAllFrom] at h
          cases hm : m prev (c :: t) with
          | none =>
              rw [hm] at h
              exact hrec h
          | some r =>
              rw [hm] at h
              rcases List.mem_cons.mp h with rfl | h
              · exact ⟨prev, r.2, c :: t, List.suffix_refl _, hm⟩
              · exact hrec h

theorem whole_eq_some {a : Pattern} {prev : Option Char} {t g w : Text}
    (h : a.whole prev t = some (g, w)) : g = w ∧ ∃ rest, (w, rest) ∈ a.ends prev t := by
  rw [whole, Option.map_eq_some_iff] at h
  obtain ⟨r, hr, hrw⟩ := h
  obtain ⟨rfl, rfl⟩ := Prod.mk.inj hrw
  exact ⟨rfl, r.2, List.mem_of_mem_head? hr⟩

theorem mem_findAll_whole {a : Pattern} {t w : Text} (h : w ∈ findAll a.whole t) :
    w <:+: t ∧ ∃ prev t' rest, (w, rest) ∈ a.ends prev t' := by
  obtain ⟨prev, w', t', ht', hm⟩ := exists_match_of_mem_findAllFrom h
  obtain ⟨rfl, rest, hr⟩ := whole_eq_some hm
  refine ⟨?_, prev, t', rest, hr⟩
  have hpre : w <+: t' := ⟨rest, (append_of_mem_ends hr).symm⟩
  exact hpre.isInfix.trans ht'.isInfix

end Pattern

end TTCEvaluation
