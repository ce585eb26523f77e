import TTCEvaluation.Text.Patterns

/-!
# The run of a scan

A scan is a run over the places of a text: at a visited place the matcher is
tried, and the scan moves on by one character or behind the match.  What a
scan reports are the matches at the visited places, and a place that is not
visited lies inside a match.
-/

namespace TTCEvaluation.Pattern

/-! ## The first way to match -/

/-- The way in which a backtracking matcher matches. -/
def first (a : Pattern) (prev : Option Char) (t : Text) : Option (Text × Text) :=
  (a.ends prev t).head?

theorem head?_flatMap_of_ne_nil {α β : Type*} {f : α → List β} {l : List α}
    (h : ∀ x ∈ l, f x ≠ []) : (l.flatMap f).head? = l.head?.bind fun x => (f x).head? := by
  cases l with
  | nil => rfl
  | cons x l =>
      obtain ⟨y, ys, hy⟩ := List.exists_cons_of_ne_nil (h x List.mem_cons_self)
      simp [hy]

theorem first_seq_of_total {a b : Pattern} (hb : ∀ prev t, b.ends prev t ≠ [])
    (prev : Option Char) (t : Text) :
    (seq a b).first prev t = (a.first prev t).bind fun r =>
      (b.first (r.1.getLast?.or prev) r.2).map fun r' => (r.1 ++ r'.1, r'.2) := by
  simp only [first, ends]
  rw [head?_flatMap_of_ne_nil]
  · simp only [List.head?_map]
  · intro r _
    simpa using hb _ _

theorem head?_runs (p : Char → Bool) (t : Text) :
    (runs p t).head? = some (t.takeWhile p, t.dropWhile p) := by
  induction t with
  | nil => rfl
  | cons c t ih =>
      by_cases hc : p c
      · simp [runs, hc, ih]
      · simp [runs, hc]

theorem ends_opt_ne_nil (a : Pattern) (prev : Option Char) (t : Text) :
    (opt a).ends prev t ≠ [] := by
  simp [ends]

theorem ends_star_ne_nil (p : Char → Bool) (prev : Option Char) (t : Text) :
    (star p).ends prev t ≠ [] := by
  intro h
  have hruns := head?_runs p t
  rw [ends] at h
  simp [h] at hruns

theorem first_opt (a : Pattern) (prev : Option Char) (t : Text) :
    (opt a).first prev t = (a.first prev t).or (some ([], t)) := by
  simp [first, ends]

theorem first_plus (p : Char → Bool) (prev : Option Char) (t : Text) :
    (plus p).first prev t =
      if t.head?.any p then some (t.takeWhile p, t.dropWhile p) else none := by
  rw [plus, first_seq_of_total (ends_star_ne_nil p)]
  cases t with
  | nil => rfl
  | cons c t =>
      by_cases hc : p c
      · simp [first, ends, hc, head?_runs]
      · simp [first, ends, hc]

theorem first_seq_char (c : Char) (b : Pattern) (prev : Option Char) (t : Text) :
    (seq (char c) b).first prev t =
      if t.head? = some c then
        (b.first (some c) t.tail).map fun r => (c :: r.1, r.2)
      else none := by
  cases t with
  | nil => rfl
  | cons d t =>
      by_cases hd : d = c
      · simp [first, ends, char, hd]
      · simp [first, ends, char, hd]

theorem first_seq_opt_char (c : Char) (b : Pattern) (prev : Option Char) (t : Text) :
    (seq (opt (char c)) b).first prev t = ((seq (char c) b).first prev t).or (b.first prev t) := by
  cases t with
  | nil => simp [first, ends, char]
  | cons d t =>
      by_cases hd : d = c
      · simp [first, ends, char, hd]
      · simp [first, ends, char, hd]

theorem first_seq_notBehind (p : Char → Bool) (b : Pattern) (prev : Option Char) (t : Text) :
    (seq (notBehind p) b).first prev t = if prev.any p then none else b.first prev t := by
  by_cases hp : prev.any p
  · simp [first, ends, hp]
  · simp [first, ends, hp]

/-! ## All ways to match -/

theorem mem_runs_iff {p : Char → Bool} {t w s : Text} :
    (w, s) ∈ runs p t ↔ t = w ++ s ∧ ∀ c ∈ w, p c := by
  constructor
  · exact fun h => ⟨append_of_mem_runs h, forall_of_mem_runs h⟩
  · rintro ⟨rfl, hw⟩
    induction w with
    | nil =>
        cases s with
        | nil => simp [runs]
        | cons c s =>
            rw [List.nil_append, runs]
            split_ifs <;> simp
    | cons c w ih =>
        rw [List.forall_mem_cons] at hw
        simp only [List.cons_append, runs, if_pos hw.1, List.mem_append, List.mem_map]
        exact Or.inl ⟨(w, s), ih hw.2, rfl⟩

theorem mem_ends_star {p : Char → Bool} {prev : Option Char} {t w s : Text} :
    (w, s) ∈ (star p).ends prev t ↔ t = w ++ s ∧ ∀ c ∈ w, p c :=
  mem_runs_iff

theorem mem_ends_one {p : Char → Bool} {prev : Option Char} {t w s : Text} :
    (w, s) ∈ (one p).ends prev t ↔ ∃ c, p c ∧ w = [c] ∧ t = c :: s := by
  cases t with
  | nil => simp [ends]
  | cons d t =>
      rw [ends]
      split_ifs with hd
      · rw [List.mem_singleton, Prod.mk.injEq]
        constructor
        · rintro ⟨rfl, rfl⟩
          exact ⟨d, hd, rfl, rfl⟩
        · rintro ⟨c, -, rfl, heq⟩
          obtain ⟨rfl, rfl⟩ := List.cons.inj heq
          exact ⟨rfl, rfl⟩
      · constructor
        · intro h
          cases h
        · rintro ⟨c, hc, -, heq⟩
          obtain ⟨rfl, -⟩ := List.cons.inj heq
          exact (hd hc).elim

theorem mem_ends_char {c : Char} {prev : Option Char} {t w s : Text} :
    (w, s) ∈ (char c).ends prev t ↔ w = [c] ∧ t = c :: s := by
  simp [char, mem_ends_one]

theorem mem_ends_seq {a b : Pattern} {prev : Option Char} {t w s : Text} :
    (w, s) ∈ (seq a b).ends prev t ↔
      ∃ u v r, (u, r) ∈ a.ends prev t ∧ (v, s) ∈ b.ends (u.getLast?.or prev) r ∧ w = u ++ v := by
  simp only [ends, List.mem_flatMap, List.mem_map, Prod.exists, Prod.mk.injEq]
  constructor
  · rintro ⟨u, r, hu, v, s', hv, rfl, rfl⟩
    exact ⟨u, v, r, hu, hv, rfl⟩
  · rintro ⟨u, v, r, hu, hv, rfl⟩
    exact ⟨u, r, hu, v, s, hv, rfl, rfl⟩

/-! ## Patterns that do not look behind -/

def LookFree : Pattern → Prop
  | one _ => True
  | star _ => True
  | seq a b => a.LookFree ∧ b.LookFree
  | opt a => a.LookFree
  | notBehind _ => False

theorem ends_congr {a : Pattern} (ha : a.LookFree) (prev prev' : Option Char) (t : Text) :
    a.ends prev t = a.ends prev' t := by
  induction a generalizing prev prev' t with
  | one p => cases t <;> rfl
  | star p => rfl
  | seq a b iha ihb =>
      simp only [ends]
      rw [iha ha.1 prev prev']
      apply List.flatMap_congr
      intro r _
      rw [ihb ha.2 _ (r.1.getLast?.or prev')]
  | opt a iha => simp only [ends, iha ha prev prev']
  | notBehind p => exact ha.elim

theorem grouped_congr {a b : Pattern} (ha : a.LookFree) (hb : b.LookFree)
    (prev prev' : Option Char) (t : Text) : grouped a b prev t = grouped a b prev' t := by
  unfold grouped
  rw [ends_congr ha prev prev']
  apply congrArg List.head?
  apply List.flatMap_congr
  intro r _
  rw [ends_congr hb _ (r.1.getLast?.or prev')]

/-! ## Matchers -/

/-- The matches of a matcher are non-empty beginnings of the text. -/
structure Consumes (m : Matcher) : Prop where
  append : ∀ {prev t r}, m prev t = some r → ∃ rest, t = r.2 ++ rest
  ne_nil : ∀ {prev t r}, m prev t = some r → r.2 ≠ []

theorem Consumes.exists_shorter_rest {m : Matcher} (hm : Consumes m) {prev : Option Char}
    {t g w : Text} (h : m prev t = some (g, w)) :
    ∃ rest, t = w ++ rest ∧ rest.length < t.length := by
  obtain ⟨rest, hrest⟩ := hm.append h
  have htext : t = w ++ rest := hrest
  have hpos : 0 < w.length := List.length_pos_iff.mpr (hm.ne_nil h)
  refine ⟨rest, htext, ?_⟩
  rw [htext, List.length_append]
  omega

theorem consumes_whole {a : Pattern} (ha : a.NonNull) : Consumes a.whole where
  append h := by
    obtain ⟨-, rest, hr⟩ := whole_eq_some h
    exact ⟨rest, append_of_mem_ends hr⟩
  ne_nil h := by
    obtain ⟨-, rest, hr⟩ := whole_eq_some h
    exact ne_nil_of_mem_ends ha hr

/-- What a grouped pattern matches: the group, then the rest of the pattern. -/
theorem grouped_eq_some {a b : Pattern} {prev : Option Char} {t g w : Text}
    (h : grouped a b prev t = some (g, w)) :
    ∃ v s rest, (g, s) ∈ a.ends prev t ∧ (v, rest) ∈ b.ends (g.getLast?.or prev) s ∧
      w = g ++ v := by
  have hmem := List.mem_of_mem_head? h
  rw [List.mem_flatMap] at hmem
  obtain ⟨⟨g', s⟩, hg, hmem⟩ := hmem
  rw [List.mem_map] at hmem
  obtain ⟨⟨v, rest⟩, hv, heq⟩ := hmem
  obtain ⟨rfl, rfl⟩ := Prod.mk.inj heq
  exact ⟨v, s, rest, hg, hv, rfl⟩

/-- The group is matched in the first way that the pattern can go on from. -/
theorem grouped_of_first {a b : Pattern} {prev : Option Char} {t g s : Text}
    (ha : a.first prev t = some (g, s)) (hb : b.ends (g.getLast?.or prev) s ≠ []) :
    ∃ w, grouped a b prev t = some (g, w) := by
  obtain ⟨rest, hends⟩ := List.head?_eq_some_iff.mp ha
  obtain ⟨r, rs, hr⟩ := List.exists_cons_of_ne_nil hb
  exact ⟨g ++ r.1, by simp [grouped, hends, hr]⟩

theorem consumes_grouped {a b : Pattern} (ha : a.NonNull) : Consumes (grouped a b) where
  append h := by
    obtain ⟨v, s, rest, hg, hv, hw⟩ := grouped_eq_some h
    exact ⟨rest, by rw [hw, List.append_assoc, ← append_of_mem_ends hv, ← append_of_mem_ends hg]⟩
  ne_nil h := by
    obtain ⟨v, s, rest, hg, -, hw⟩ := grouped_eq_some h
    rw [hw]
    exact List.append_ne_nil_of_left_ne_nil (ne_nil_of_mem_ends ha hg) _

/-! ## Visited places -/

/-- The scan of `s ++ t` tries to match between `s` and `t`. -/
inductive Visits (m : Matcher) : Text → Text → Prop
  | start (t : Text) : Visits m [] t
  | miss {s t : Text} {c : Char} : Visits m s (c :: t) → m s.getLast? (c :: t) = none →
      Visits m (s ++ [c]) t
  | hit {s t g w : Text} : Visits m s (w ++ t) → m s.getLast? (w ++ t) = some (g, w) →
      Visits m (s ++ w) t

variable {m : Matcher}

theorem findAllFrom_skip (w t : Text) (prev : Option Char) :
    findAllFrom m prev w.length (w ++ t) = findAllFrom m (w.getLast?.or prev) 0 t := by
  induction w generalizing prev with
  | nil => simp
  | cons c w ih =>
      rw [List.length_cons, List.cons_append, findAllFrom, ih, List.getLast?_cons]
      cases w.getLast? <;> rfl

theorem findAllFrom_miss {c : Char} {t : Text} {prev : Option Char} (h : m prev (c :: t) = none) :
    findAllFrom m prev 0 (c :: t) = findAllFrom m (some c) 0 t := by
  rw [findAllFrom, h]

theorem findAllFrom_hit {g w t : Text} {prev : Option Char} (hw : w ≠ [])
    (h : m prev (w ++ t) = some (g, w)) :
    findAllFrom m prev 0 (w ++ t) = g :: findAllFrom m (w.getLast?.or prev) 0 t := by
  cases w with
  | nil => exact (hw rfl).elim
  | cons c w =>
      rw [List.cons_append] at h ⊢
      rw [findAllFrom, h]
      dsimp only
      rw [List.length_cons, Nat.add_sub_cancel, findAllFrom_skip, List.getLast?_cons]
      cases w.getLast? <;> rfl

variable (hm : Consumes m)

include hm

theorem findAllFrom_sublist_of_visits {s t : Text} (h : Visits m s t) :
    List.Sublist (findAllFrom m s.getLast? 0 t) (findAll m (s ++ t)) := by
  induction h with
  | start t => exact List.Sublist.refl _
  | @miss s t c _ hnone ih =>
      rw [findAllFrom_miss hnone] at ih
      simpa using ih
  | @hit s t g w _ hsome ih =>
      rw [findAllFrom_hit (hm.ne_nil hsome) hsome] at ih
      simpa using (List.sublist_cons_self _ _).trans ih

theorem exists_visit_of_mem_findAllFrom {g s t : Text} (hvisit : Visits m s t)
    (h : g ∈ findAllFrom m s.getLast? 0 t) :
    ∃ s' t' w, s ++ t = s' ++ t' ∧ Visits m s' t' ∧ m s'.getLast? t' = some (g, w) := by
  induction hn : t.length using Nat.strong_induction_on generalizing s t with
  | _ n ih =>
    cases t with
    | nil => simp [findAllFrom] at h
    | cons c t =>
        cases hmatch : m s.getLast? (c :: t) with
        | none =>
            rw [findAllFrom_miss hmatch] at h
            have hnext := ih t.length (by simp [← hn]) (.miss hvisit hmatch) (by simpa using h) rfl
            simpa using hnext
        | some r =>
            obtain ⟨g', w⟩ := r
            obtain ⟨rest, hrest, hlen⟩ := hm.exists_shorter_rest hmatch
            have hw := hm.ne_nil hmatch
            rw [hrest] at hvisit hmatch h ⊢
            rw [findAllFrom_hit hw hmatch] at h
            rcases List.mem_cons.mp h with rfl | h
            · exact ⟨s, w ++ rest, w, rfl, hvisit, hmatch⟩
            · have hnext := ih rest.length (hn ▸ hlen) (.hit hvisit hmatch) (by simpa using h) rfl
              simpa using hnext

/-- A scan reports the matches at the places it visits. -/
theorem mem_findAll_iff {g code : Text} :
    g ∈ findAll m code ↔
      ∃ s t w, code = s ++ t ∧ Visits m s t ∧ m s.getLast? t = some (g, w) := by
  constructor
  · exact exists_visit_of_mem_findAllFrom hm (.start code)
  · rintro ⟨s, t, w, rfl, hvisit, hmatch⟩
    apply (findAllFrom_sublist_of_visits hm hvisit).subset
    obtain ⟨rest, rfl⟩ := hm.append hmatch
    rw [findAllFrom_hit (hm.ne_nil hmatch) hmatch]
    exact List.mem_cons_self

/-- A place is visited, or a match at a visited place goes over it. -/
theorem visits_or_inside (s t : Text) :
    Visits m s t ∨ ∃ s' u v t' g, s = s' ++ u ∧ u ≠ [] ∧ t = v ++ t' ∧ v ≠ [] ∧
      Visits m s' (u ++ v ++ t') ∧ m s'.getLast? (u ++ v ++ t') = some (g, u ++ v) := by
  induction s using List.reverseRecOn generalizing t with
  | nil => exact Or.inl (.start t)
  | append_singleton s c ih =>
      rcases ih (c :: t) with hvisit | ⟨s', u, v, t', g, rfl, hu, ht, hv, hvisit, hmatch⟩
      · cases hmatch : m s.getLast? (c :: t) with
        | none => exact Or.inl (.miss hvisit hmatch)
        | some r =>
            obtain ⟨g, w⟩ := r
            obtain ⟨rest, hrest⟩ := hm.append hmatch
            cases w with
            | nil => exact (hm.ne_nil hmatch rfl).elim
            | cons d w =>
                obtain ⟨rfl, rfl⟩ := List.cons.inj hrest
                cases w with
                | nil => exact Or.inl (.hit hvisit hmatch)
                | cons d w =>
                    exact Or.inr ⟨s, [c], d :: w, rest, g, rfl, by simp, rfl, by simp, hvisit,
                      hmatch⟩
      · cases v with
        | nil => exact (hv rfl).elim
        | cons d v =>
            obtain ⟨rfl, rfl⟩ := List.cons.inj ht
            have happ : u ++ c :: v ++ t' = (u ++ [c]) ++ v ++ t' := by simp
            cases v with
            | nil =>
                have hnext := Visits.hit (w := u ++ [c]) (t := t') (by simpa using hvisit)
                  (by simpa using hmatch)
                exact Or.inl (by simpa using hnext)
            | cons e v =>
                exact Or.inr ⟨s', u ++ [c], e :: v, t', g, by simp, by simp, rfl, by simp,
                  by simpa using hvisit, by simpa using hmatch⟩

omit hm

/-! ## Cutting a scan -/

/-- Where nothing matches, the scan passes. -/
theorem findAllFrom_append_of_miss {s t : Text} {prev : Option Char}
    (h : ∀ u c v, s = u ++ c :: v → m (u.getLast?.or prev) (c :: v ++ t) = none) :
    findAllFrom m prev 0 (s ++ t) = findAllFrom m (s.getLast?.or prev) 0 t := by
  induction s generalizing prev with
  | nil => simp
  | cons c s ih =>
      have hmiss : m prev (c :: (s ++ t)) = none := by simpa using h [] c s rfl
      rw [List.cons_append, findAllFrom_miss hmiss, ih, List.getLast?_cons]
      · cases s.getLast? <;> rfl
      · intro u d v hs
        have hnext := h (c :: u) d v (by rw [hs, List.cons_append])
        rw [List.getLast?_cons] at hnext
        cases hu : u.getLast? <;> simpa [hu] using hnext

theorem findAllFrom_congr {t : Text} {prev prev' : Option Char} (h : m prev t = m prev' t) :
    findAllFrom m prev 0 t = findAllFrom m prev' 0 t := by
  cases t with
  | nil => rfl
  | cons c t => rw [findAllFrom, findAllFrom, h]

/-- A character that no match reaches cuts the scan. -/
theorem findAllFrom_append_cons (hm : Consumes m) {c : Char} {r : Text}
    (hcut : ∀ prev u, u ≠ [] → m prev (u ++ c :: r) = m prev u)
    (hmiss : ∀ prev, m prev (c :: r) = none) (prev : Option Char) (s : Text) :
    findAllFrom m prev 0 (s ++ c :: r) =
      findAllFrom m prev 0 s ++ findAllFrom m (some c) 0 r := by
  induction hn : s.length using Nat.strong_induction_on generalizing s prev with
  | _ n ih =>
    cases s with
    | nil => rw [List.nil_append, findAllFrom_miss (hmiss prev), findAllFrom, List.nil_append]
    | cons d s =>
        have hd := hcut prev (d :: s) (by simp)
        cases hmatch : m prev (d :: s) with
        | none =>
            rw [hmatch] at hd
            rw [List.cons_append] at hd ⊢
            rw [findAllFrom_miss hd, findAllFrom_miss hmatch]
            exact ih s.length (by simp [← hn]) _ s rfl
        | some p =>
            obtain ⟨g, w⟩ := p
            rw [hmatch] at hd
            obtain ⟨rest, hrest, hlen⟩ := hm.exists_shorter_rest hmatch
            have hw := hm.ne_nil hmatch
            rw [hrest] at hmatch hd ⊢
            rw [List.append_assoc] at hd ⊢
            rw [findAllFrom_hit hw hd, findAllFrom_hit hw hmatch, List.cons_append]
            exact congrArg _ (ih rest.length (hn ▸ hlen) _ rest rfl)

end TTCEvaluation.Pattern
