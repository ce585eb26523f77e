import Mathlib.Data.List.Basic
import Mathlib.Logic.Function.Basic
import Mathlib.Tactic.Common

/-!
# Runs of writes and copies

A store gives the content under a key, if there is any.  A run of writes
determines the content of every key it writes to consistently, and a run of
copies whose destinations are not sources is a run of writes.
-/

namespace TTCEvaluation.Store

variable {κ ν : Type*} [DecidableEq κ]

def write (s : κ → Option ν) (k : κ) (v : ν) : κ → Option ν := Function.update s k (some v)

def writeAll (s : κ → Option ν) (writes : List (κ × ν)) : κ → Option ν :=
  writes.foldl (fun s w => write s w.1 w.2) s

def copy (s : κ → Option ν) (source target : κ) : κ → Option ν :=
  match s source with
  | none => s
  | some v => write s target v

def copyAll (s : κ → Option ν) (copies : List (κ × κ)) : κ → Option ν :=
  copies.foldl (fun s c => copy s c.1 c.2) s

/-! ## Writes -/

@[simp] theorem write_same (s : κ → Option ν) (k : κ) (v : ν) : write s k v k = some v := by
  rw [write, Function.update_self]

theorem write_of_ne (s : κ → Option ν) {k k' : κ} (v : ν) (h : k' ≠ k) : write s k v k' = s k' := by
  rw [write, Function.update_of_ne h]

@[simp] theorem writeAll_nil (s : κ → Option ν) : writeAll s [] = s := rfl

@[simp] theorem writeAll_cons (s : κ → Option ν) (w : κ × ν) (l : List (κ × ν)) :
    writeAll s (w :: l) = writeAll (write s w.1 w.2) l := rfl

theorem writeAll_append (s : κ → Option ν) (l l' : List (κ × ν)) :
    writeAll s (l ++ l') = writeAll (writeAll s l) l' :=
  List.foldl_append

theorem writeAll_of_notMem (s : κ → Option ν) {l : List (κ × ν)} {k : κ}
    (h : k ∉ l.map Prod.fst) : writeAll s l k = s k := by
  induction l generalizing s with
  | nil => rfl
  | cons w l ih =>
      rw [List.map_cons, List.mem_cons, not_or] at h
      rw [writeAll_cons, ih _ h.2, write_of_ne s w.2 h.1]

/-- If all writes to a key agree, it holds what was written. -/
theorem writeAll_of_agree (s : κ → Option ν) {l : List (κ × ν)} {k : κ} {v : ν}
    (hmem : (k, v) ∈ l) (hagree : ∀ w ∈ l, w.1 = k → w.2 = v) : writeAll s l k = some v := by
  induction l generalizing s with
  | nil => simp at hmem
  | cons w l ih =>
      rw [List.forall_mem_cons] at hagree
      rw [writeAll_cons]
      by_cases hl : k ∈ l.map Prod.fst
      · obtain ⟨w', hw', hk⟩ := List.mem_map.mp hl
        refine ih _ ?_ hagree.2
        rwa [← hk, ← hagree.2 w' hw' hk]
      · rcases List.mem_cons.mp hmem with rfl | hmem
        · rw [writeAll_of_notMem _ hl, write_same]
        · exact (hl (List.mem_map_of_mem hmem)).elim

/-- Under a key, a run of writes leaves its last write or what was there. -/
theorem writeAll_congr {s s' : κ → Option ν} {k : κ} (h : s k = s' k) (l : List (κ × ν)) :
    writeAll s l k = writeAll s' l k := by
  induction l generalizing s s' with
  | nil => exact h
  | cons w l ih =>
      apply ih
      change write s w.1 w.2 k = write s' w.1 w.2 k
      by_cases hk : k = w.1
      · rw [hk, write_same, write_same]
      · rw [write_of_ne s w.2 hk, write_of_ne s' w.2 hk, h]

theorem exists_writeAll_of_mem (s : κ → Option ν) {l : List (κ × ν)} {k : κ}
    (h : k ∈ l.map Prod.fst) : ∃ v, (k, v) ∈ l ∧ ∀ s', writeAll s' l k = some v := by
  induction l generalizing s with
  | nil => simp at h
  | cons w l ih =>
      by_cases hl : k ∈ l.map Prod.fst
      · obtain ⟨v, hv, hwrites⟩ := ih s hl
        exact ⟨v, List.mem_cons_of_mem w hv, fun s' => hwrites _⟩
      · obtain rfl : k = w.1 := by
          rw [List.map_cons, List.mem_cons] at h
          exact h.resolve_right hl
        refine ⟨w.2, List.mem_cons_self, fun s' => ?_⟩
        rw [writeAll_cons, writeAll_of_notMem _ hl, write_same]

@[simp] theorem writeAll_writeAll (s : κ → Option ν) (l : List (κ × ν)) :
    writeAll (writeAll s l) l = writeAll s l := by
  funext k
  by_cases h : k ∈ l.map Prod.fst
  · obtain ⟨v, -, hwrites⟩ := exists_writeAll_of_mem s h
    rw [hwrites, hwrites]
  · exact writeAll_of_notMem _ h

/-! ## Copies -/

@[simp] theorem copyAll_cons (s : κ → Option ν) (c : κ × κ) (l : List (κ × κ)) :
    copyAll s (c :: l) = copyAll (copy s c.1 c.2) l := rfl

theorem copy_of_ne (s : κ → Option ν) {source target k : κ} (h : k ≠ target) :
    copy s source target k = s k := by
  unfold copy
  cases s source with
  | none => rfl
  | some v => exact write_of_ne s v h

/-- What the copies write, read off the store they start from. -/
def copyWrites (s : κ → Option ν) (copies : List (κ × κ)) : List (κ × ν) :=
  copies.filterMap fun c => (s c.1).map fun v => (c.2, v)

omit [DecidableEq κ] in
theorem copyWrites_congr {s s' : κ → Option ν} {l : List (κ × κ)} (h : ∀ c ∈ l, s c.1 = s' c.1) :
    copyWrites s l = copyWrites s' l :=
  List.filterMap_congr fun c hc => by rw [h c hc]

theorem copyAll_eq_writeAll {s : κ → Option ν} {l : List (κ × κ)}
    (h : ∀ c ∈ l, ∀ d ∈ l, c.1 ≠ d.2) : copyAll s l = writeAll s (copyWrites s l) := by
  -- the copies read the start store `s` off the current store `s'`
  suffices H : ∀ (l' : List (κ × κ)) (s' : κ → Option ν), l' ⊆ l → (∀ c ∈ l, s' c.1 = s c.1) →
      copyAll s' l' = writeAll s' (copyWrites s l') from
    H l s (List.Subset.refl l) fun _ _ => rfl
  intro l' s' hsub hread
  induction l' generalizing s' with
  | nil => rfl
  | cons c l' ih =>
      rw [List.cons_subset] at hsub
      have hread' : ∀ d ∈ l, copy s' c.1 c.2 d.1 = s d.1 := fun d hd => by
        rw [copy_of_ne s' (h d hd c hsub.1), hread d hd]
      rw [copyAll_cons, ih _ hsub.2 hread', copy, hread c hsub.1, copyWrites]
      cases hc : s c.1 with
      | none => simp [hc, copyWrites]
      | some v => simp [hc, copyWrites]

section

variable {s : κ → Option ν} {l : List (κ × κ)} (hl : ∀ c ∈ l, ∀ d ∈ l, c.1 ≠ d.2)

include hl

theorem copyAll_of_notMem {k : κ} (h : k ∉ l.map Prod.snd) : copyAll s l k = s k := by
  rw [copyAll_eq_writeAll hl]
  refine writeAll_of_notMem s fun hmem => h ?_
  simp only [copyWrites, List.mem_map, List.mem_filterMap, Option.map_eq_some_iff] at hmem ⊢
  obtain ⟨_, ⟨c, hc, v, -, rfl⟩, rfl⟩ := hmem
  exact ⟨c, hc, rfl⟩

theorem copyAll_congr {s' : κ → Option ν} (hsource : ∀ c ∈ l, s c.1 = s' c.1) {k : κ}
    (h : s k = s' k) : copyAll s l k = copyAll s' l k := by
  rw [copyAll_eq_writeAll hl, copyAll_eq_writeAll hl, copyWrites_congr hsource]
  exact writeAll_congr h _

theorem copyAll_copyAll : copyAll (copyAll s l) l = copyAll s l := by
  have hsource : ∀ c ∈ l, copyAll s l c.1 = s c.1 := by
    intro c hc
    refine copyAll_of_notMem hl fun hmem => ?_
    obtain ⟨d, hd, heq⟩ := List.mem_map.mp hmem
    exact hl c hc d hd heq.symm
  calc
    copyAll (copyAll s l) l = writeAll (copyAll s l) (copyWrites (copyAll s l) l) :=
      copyAll_eq_writeAll hl
    _ = writeAll (copyAll s l) (copyWrites s l) := by rw [copyWrites_congr hsource]
    _ = copyAll s l := by rw [copyAll_eq_writeAll hl, writeAll_writeAll]

/-- A target that is copied to from one source only holds the content of that source. -/
theorem copyAll_of_agree {source target : κ} {v : ν} (hmem : (source, target) ∈ l)
    (hv : s source = some v) (hagree : ∀ c ∈ l, c.2 = target → c.1 = source) :
    copyAll s l target = some v := by
  rw [copyAll_eq_writeAll hl]
  refine writeAll_of_agree s ?_ ?_
  · exact List.mem_filterMap.mpr ⟨(source, target), hmem, by simp [hv]⟩
  · intro w hw htarget
    simp only [copyWrites, List.mem_filterMap, Option.map_eq_some_iff] at hw
    obtain ⟨c, hc, v', hv', rfl⟩ := hw
    rw [hagree c hc htarget, hv] at hv'
    exact (Option.some.inj hv').symm

end

end TTCEvaluation.Store
