import Mathlib.Data.List.DropRight
import Mathlib.Data.List.Infix

/-!
# Segments of a list

General facts about contiguous segments.  A segment without the separator
cannot straddle a separator, a piece of a split is delimited by separators,
and trimming keeps everything but a border of dropped elements.
-/

namespace TTCEvaluation.Segments

variable {α : Type*}

/-! ## Segments and separators -/

/-- A segment that avoids `a` lies on one side of every occurrence of `a`. -/
theorem infix_append_cons_iff {w s t : List α} {a : α} (ha : a ∉ w) :
    w <:+: s ++ a :: t ↔ w <:+: s ∨ w <:+: t := by
  constructor
  · rintro ⟨u, v, huv⟩
    rw [List.append_assoc] at huv
    rcases List.append_eq_append_iff.mp huv with ⟨x, hs, hx⟩ | ⟨x, hu, hx⟩
    · -- the segment starts inside `s`
      rcases List.append_eq_append_iff.mp hx with ⟨y, hy, _⟩ | ⟨y, hw, hy⟩
      · exact Or.inl ⟨u, y, by rw [hs, hy, List.append_assoc]⟩
      · cases y with
        | nil => exact Or.inl ⟨u, [], by simp [hs, hw]⟩
        | cons b y =>
            obtain ⟨rfl, _⟩ := List.cons.inj hy
            exact (ha (by simp [hw])).elim
    · -- the segment starts after `s`
      cases x with
      | nil =>
          cases w with
          | nil => exact Or.inl ⟨[], s, rfl⟩
          | cons b w =>
              obtain ⟨rfl, _⟩ := List.cons.inj hx
              exact (ha List.mem_cons_self).elim
      | cons b x =>
          obtain ⟨_, hx⟩ := List.cons.inj hx
          exact Or.inr ⟨x, v, by rw [List.append_assoc]; exact hx.symm⟩
  · rintro (h | h)
    · exact List.infix_append_of_infix_left h
    · exact List.infix_append_of_infix_right (List.infix_cons h)

theorem infix_intercalate_iff {w : List α} {a : α} (ha : a ∉ w) {ls : List (List α)}
    (hls : ls ≠ []) : w <:+: [a].intercalate ls ↔ ∃ l ∈ ls, w <:+: l := by
  induction ls with
  | nil => exact (hls rfl).elim
  | cons l ls ih =>
      cases ls with
      | nil => simp
      | cons l' ls =>
          rw [List.intercalate_cons_cons, List.append_assoc, List.singleton_append,
            infix_append_cons_iff ha, ih (by simp)]
          simp only [List.mem_cons, exists_eq_or_imp]

theorem infix_filter_iff {p : α → Bool} {w l : List α} :
    w <:+: l.filter p ↔ ∃ m, m <:+: l ∧ m.filter p = w := by
  constructor
  · rintro ⟨u, v, h⟩
    obtain ⟨x, y, rfl, hx, rfl⟩ := List.filter_eq_append_iff.mp h.symm
    obtain ⟨u', m, rfl, -, hm⟩ := List.filter_eq_append_iff.mp hx
    exact ⟨m, ⟨u', y, rfl⟩, hm⟩
  · rintro ⟨m, hm, rfl⟩
    exact hm.filter p

/-! ## Delimited occurrences -/

/-- `w` occurs in `l` between elements satisfying `p` (or the ends of `l`). -/
def DelimitedIn (p : α → Bool) (w l : List α) : Prop :=
  ∃ s t, l = s ++ w ++ t ∧ (∀ c ∈ s.getLast?, p c) ∧ ∀ c ∈ t.head?, p c

variable {p q : α → Bool}

theorem DelimitedIn.refl (l : List α) : DelimitedIn p l l :=
  ⟨[], [], by simp, by simp, by simp⟩

theorem DelimitedIn.isInfix {w l : List α} (h : DelimitedIn p w l) : w <:+: l := by
  obtain ⟨s, t, rfl, _, _⟩ := h
  exact ⟨s, t, rfl⟩

theorem DelimitedIn.mono {w l : List α} (hpq : ∀ c, p c → q c) (h : DelimitedIn p w l) :
    DelimitedIn q w l := by
  obtain ⟨s, t, hl, hs, ht⟩ := h
  exact ⟨s, t, hl, fun c hc => hpq c (hs c hc), fun c hc => hpq c (ht c hc)⟩

theorem DelimitedIn.trans {w m l : List α} (h₁ : DelimitedIn p w m) (h₂ : DelimitedIn p m l) :
    DelimitedIn p w l := by
  obtain ⟨s, t, rfl, hs, ht⟩ := h₁
  obtain ⟨s', t', rfl, hs', ht'⟩ := h₂
  refine ⟨s' ++ s, t ++ t', by simp, ?_, ?_⟩
  · intro c hc
    rw [List.getLast?_append] at hc
    cases hlast : s.getLast? with
    | none => exact hs' c (by simpa [hlast] using hc)
    | some b => exact hs c (by simpa [hlast] using hc)
  · intro c hc
    rw [List.head?_append] at hc
    cases hhead : t.head? with
    | none => exact ht' c (by simpa [hhead] using hc)
    | some b => exact ht c (by simpa [hhead] using hc)

theorem DelimitedIn.append_left {w l s : List α} (h : DelimitedIn p w l)
    (hs : ∀ c ∈ s.getLast?, p c) : DelimitedIn p w (s ++ l) :=
  h.trans ⟨s, [], by simp, hs, by simp⟩

theorem DelimitedIn.append_right {w l t : List α} (h : DelimitedIn p w l)
    (ht : ∀ c ∈ t.head?, p c) : DelimitedIn p w (l ++ t) :=
  h.trans ⟨[], t, by simp, by simp, ht⟩

/-! ## Splitting at separators -/

theorem exists_split_at {l : List α} (h : ∃ c ∈ l, p c) :
    ∃ s c t, l = s ++ c :: t ∧ p c ∧ ∀ x ∈ s, p x = false := by
  obtain ⟨c, hc, hp⟩ := h
  have hfind : (l.find? p).isSome := by
    rw [List.find?_isSome]
    exact ⟨c, hc, hp⟩
  obtain ⟨b, hb⟩ := Option.isSome_iff_exists.mp hfind
  obtain ⟨hpb, s, t, hl, hs⟩ := List.find?_eq_some_iff_append.mp hb
  exact ⟨s, b, t, hl, hpb, fun x hx => by simpa using hs x hx⟩

/-- A list either has no separator, or is a separator-free part, a separator
and a rest: the recursion of a split. -/
@[elab_as_elim]
theorem separator_induction {motive : List α → Prop} (l : List α)
    (plain : ∀ l, (∀ c ∈ l, p c = false) → motive l)
    (step : ∀ s c t, (∀ x ∈ s, p x = false) → p c → motive t → motive (s ++ c :: t)) :
    motive l := by
  induction hn : l.length using Nat.strong_induction_on generalizing l with
  | _ n ih =>
    by_cases hsep : ∃ c ∈ l, p c
    · obtain ⟨s, c, t, rfl, hc, hs⟩ := exists_split_at hsep
      have hlen : t.length < n := by
        rw [← hn, List.length_append, List.length_cons]
        omega
      exact step s c t hs hc (ih _ hlen t rfl)
    · exact plain l fun c hc => by
        by_contra hpc
        exact hsep ⟨c, hc, by simpa using hpc⟩

theorem delimitedIn_of_mem_splitOnP {w l : List α} (h : w ∈ l.splitOnP p) : DelimitedIn p w l := by
  induction l using separator_induction (p := p) with
  | plain l hl =>
      rw [List.splitOnP_eq_singleton hl, List.mem_singleton] at h
      exact h ▸ DelimitedIn.refl _
  | step s c t hs hc ih =>
      rw [List.splitOnP_append_cons_of_forall_mem hs c hc, List.mem_cons] at h
      rcases h with rfl | h
      · exact (DelimitedIn.refl _).append_right (by simpa using hc)
      · have ht := (ih h).append_left (s := s ++ [c]) (by simpa using hc)
        simpa using ht

theorem not_sep_of_mem_splitOnP {w l : List α} (h : w ∈ l.splitOnP p) : ∀ c ∈ w, p c = false := by
  induction l using separator_induction (p := p) with
  | plain l hl =>
      rw [List.splitOnP_eq_singleton hl, List.mem_singleton] at h
      exact h ▸ hl
  | step s c t hs hc ih =>
      rw [List.splitOnP_append_cons_of_forall_mem hs c hc, List.mem_cons] at h
      rcases h with rfl | h
      · exact hs
      · exact ih h

/-! ## Trimming both ends -/

/-- Drop the elements satisfying `p` from both ends. -/
def trim (p : α → Bool) (l : List α) : List α := (l.dropWhile p).rdropWhile p

theorem trim_split (p : α → Bool) (l : List α) :
    ∃ s t, l = s ++ trim p l ++ t ∧ (∀ c ∈ s, p c) ∧ ∀ c ∈ t, p c := by
  refine ⟨l.takeWhile p, (l.dropWhile p).rtakeWhile p, ?_, ?_, ?_⟩
  · rw [trim, List.append_assoc, List.rdropWhile_append_rtakeWhile, List.takeWhile_append_dropWhile]
  · exact fun c hc => List.mem_takeWhile_imp hc
  · exact fun c hc => List.mem_rtakeWhile_imp hc

theorem delimitedIn_trim (p : α → Bool) (l : List α) : DelimitedIn p (trim p l) l := by
  obtain ⟨s, t, hl, hs, ht⟩ := trim_split p l
  exact ⟨s, t, hl, fun c hc => hs c (List.mem_of_mem_getLast? hc),
    fun c hc => ht c (List.mem_of_mem_head? hc)⟩

theorem mem_of_mem_trim {l : List α} {c : α} (h : c ∈ trim p l) : c ∈ l :=
  (delimitedIn_trim p l).isInfix.subset h

theorem mem_trim_of_mem {l : List α} {c : α} (h : c ∈ l) (hc : p c = false) : c ∈ trim p l := by
  obtain ⟨s, t, hl, hs, ht⟩ := trim_split p l
  rw [hl, List.mem_append, List.mem_append] at h
  rcases h with (h | h) | h
  · simp [hs c h] at hc
  · exact h
  · simp [ht c h] at hc

theorem trim_eq_self_of_forall {l : List α} (h : ∀ c ∈ l, p c = false) : trim p l = l := by
  have hdrop : l.dropWhile p = l := by
    cases l with
    | nil => rfl
    | cons a l => simp [h a]
  rw [trim, hdrop, List.rdropWhile_eq_self_iff]
  intro hl
  simp [h _ (List.getLast_mem hl)]

theorem infix_trim {w l : List α} (hw : ∀ c ∈ w, p c = false) (h : w <:+: l) :
    w <:+: trim p l := by
  obtain ⟨s, t, hl, hs, ht⟩ := trim_split p l
  have hnotMem {c : α} (hc : p c) : c ∉ w := fun hmem => by simp [hw c hmem] at hc
  rw [hl, List.append_assoc] at h
  have hleft : w <:+: trim p l ++ t := by
    clear hl
    induction s with
    | nil => exact h
    | cons c s ih =>
        rw [List.forall_mem_cons] at hs
        refine ih ?_ hs.2
        rcases (infix_append_cons_iff (s := []) (hnotMem hs.1)).mp h with h | h
        · rw [List.infix_nil.mp h]
          exact List.nil_infix
        · exact h
  cases t with
  | nil => rwa [List.append_nil] at hleft
  | cons c t =>
      rcases (infix_append_cons_iff (hnotMem (ht c List.mem_cons_self))).mp hleft with h | h
      · exact h
      · have hnil : w = [] := by
          apply List.eq_nil_iff_forall_not_mem.mpr
          intro d hd
          exact hnotMem (ht d (List.mem_cons_of_mem c (h.subset hd))) hd
        rw [hnil]
        exact List.nil_infix

theorem trim_append_left {s l : List α} (hs : ∀ c ∈ s, p c) : trim p (s ++ l) = trim p l := by
  rw [trim, List.dropWhile_append_of_pos hs, trim]

@[simp] theorem trim_trim (l : List α) : trim p (trim p l) = trim p l := by
  have hhead : (trim p l).dropWhile p = trim p l := by
    rw [List.dropWhile_eq_self_iff]
    intro hlen
    have hpre : trim p l <+: l.dropWhile p := List.rdropWhile_prefix _ _
    have hpos : 0 < (l.dropWhile p).length := hlen.trans_le hpre.length_le
    have hget : (trim p l)[0] = (l.dropWhile p)[0] := hpre.getElem hlen
    rw [hget]
    exact List.dropWhile_get_zero_not _ _ hpos
  rw [trim, hhead]
  exact List.rdropWhile_idempotent _ _

/-! ## The last element outside a class -/

/-- Two texts that end in the same way have the same last character outside a class. -/
theorem eq_of_append_cons_append {r s a b : List α} {x y : α}
    (ha : ∀ c ∈ a, p c) (hb : ∀ c ∈ b, p c) (hx : p x = false) (hy : p y = false)
    (h : r ++ x :: a = s ++ y :: b) : x = y := by
  have hend (z : List α) {e : List α} {c : α} (he : ∀ d ∈ e, p d) (hc : p c = false) :
      ((z ++ c :: e).rdropWhile p).getLast? = some c := by
    rw [List.append_cons, List.rdropWhile, List.reverse_append,
      List.dropWhile_append_of_pos (by simpa using he)]
    simp [hc]
  have hlast := hend r ha hx
  rw [h, hend s hb hy] at hlast
  exact (Option.some.inj hlast).symm

end TTCEvaluation.Segments
