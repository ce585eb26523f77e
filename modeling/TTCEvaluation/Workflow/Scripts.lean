import Mathlib.Data.Finset.Basic
import Mathlib.Data.List.Nodup

/-!
# Scripts on a shared state

A script takes its input from some places of a shared state and writes to
others.  Scripts that do not touch each other's places commute, so two
schedules that keep dependent scripts in order come to the same; and a script
whose places nobody has written to since it ran has nothing left to do.
-/

namespace TTCEvaluation.Workflow

variable {S κ E : Type*} {V : κ → Type*}

/-- The two states look the same at the places. -/
def Agree (view : ∀ k, S → V k) (K : Finset κ) (s s' : S) : Prop := ∀ k ∈ K, view k s = view k s'

namespace Agree

variable {view : ∀ k, S → V k} {K L : Finset κ} {s s' s'' : S}

theorem refl (view : ∀ k, S → V k) (K : Finset κ) (s : S) : Agree view K s s := fun _ _ => rfl

theorem trans (h : Agree view K s s') (h' : Agree view K s' s'') : Agree view K s s'' :=
  fun k hk => (h k hk).trans (h' k hk)

theorem mono (h : Agree view K s s') (hKL : L ⊆ K) : Agree view L s s' := fun k hk => h k (hKL hk)

end Agree

variable [DecidableEq κ]

/-- A command on the state: what it takes from the places it reads determines whether it fails and
what it writes, also if it fails. -/
structure Script (view : ∀ k, S → V k) (E : Type*) where
  Input : Type
  input : S → Input
  error : Input → Option E
  put : Input → S → S
  reads : Finset κ
  writes : Finset κ
  disjoint : Disjoint reads writes
  input_congr : ∀ {s s' : S}, Agree view reads s s' → input s = input s'
  put_frame : ∀ (x : Input) (s : S), ∀ k ∉ writes, view k (put x s) = view k s
  put_congr : ∀ (x : Input) {s s' : S}, Agree view (reads ∪ writes) s s' →
    Agree view writes (put x s) (put x s')
  put_put : ∀ (x : Input) (s : S), put x (put x s) = put x s

variable {view : ∀ k, S → V k}

namespace Script

def run (a : Script view E) (s : S) : S := a.put (a.input s) s

def failure (a : Script view E) (s : S) : Option E := a.error (a.input s)

/-- The script would succeed and change nothing. -/
def UpToDate (a : Script view E) (s : S) : Prop := a.failure s = none ∧ a.run s = s

/-- Neither script writes where the other one reads or writes. -/
def Independent (a b : Script view E) : Prop :=
  Disjoint a.writes (b.reads ∪ b.writes) ∧ Disjoint b.writes (a.reads ∪ a.writes)

theorem Independent.symm {a b : Script view E} (h : a.Independent b) : b.Independent a :=
  ⟨h.2, h.1⟩

/-- A run leaves the places alone that it does not write to. -/
theorem agree_run (a : Script view E) (s : S) {K : Finset κ} (h : Disjoint a.writes K) :
    Agree view K (a.run s) s :=
  fun k hk => a.put_frame _ s k fun hmem => Finset.disjoint_left.mp h hmem hk

theorem input_run (a : Script view E) (s : S) : a.input (a.run s) = a.input s :=
  a.input_congr (a.agree_run s a.disjoint.symm)

@[simp] theorem run_run (a : Script view E) (s : S) : a.run (a.run s) = a.run s := by
  change a.put (a.input (a.run s)) (a.run s) = a.run s
  rw [input_run]
  exact a.put_put _ s

theorem failure_run (a : Script view E) (s : S) : a.failure (a.run s) = a.failure s :=
  congrArg a.error (a.input_run s)

theorem run_congr (a : Script view E) {s s' : S} (h : Agree view (a.reads ∪ a.writes) s s') :
    Agree view a.writes (a.run s) (a.run s') := by
  have hinput : a.input s = a.input s' := a.input_congr (h.mono Finset.subset_union_left)
  change Agree view a.writes (a.put (a.input s) s) (a.put (a.input s') s')
  rw [hinput]
  exact a.put_congr _ h

end Script

/-- Run the scripts one after the other, whether they fail or not. -/
def runAll (l : List (Script view E)) (s : S) : S := l.foldl (fun s a => a.run s) s

@[simp] theorem runAll_nil (s : S) : runAll ([] : List (Script view E)) s = s := rfl

@[simp] theorem runAll_cons (a : Script view E) (l : List (Script view E)) (s : S) :
    runAll (a :: l) s = runAll l (a.run s) := rfl

@[simp] theorem runAll_append (l l' : List (Script view E)) (s : S) :
    runAll (l ++ l') s = runAll l' (runAll l s) :=
  List.foldl_append

/-- What each run preserves, a whole schedule preserves. -/
theorem runAll_induction {P : S → Prop} {l : List (Script view E)}
    (hstep : ∀ a ∈ l, ∀ s, P s → P (a.run s)) {s : S} (hs : P s) : P (runAll l s) := by
  induction l generalizing s with
  | nil => exact hs
  | cons a l ih =>
      rw [List.forall_mem_cons] at hstep
      exact ih hstep.2 (hstep.1 s hs)

theorem agree_runAll {l : List (Script view E)} {K : Finset κ}
    (h : ∀ a ∈ l, Disjoint a.writes K) (s : S) : Agree view K (runAll l s) s :=
  runAll_induction (P := fun s' => Agree view K s' s)
    (fun a ha s' hs' => (a.agree_run s' (h a ha)).trans hs') (Agree.refl view K s)

/-! ## Reordering -/

/-- No script reads what a later one writes. -/
def IsSchedule (l : List (Script view E)) : Prop :=
  l.Pairwise fun a b => Disjoint a.reads b.writes

/-- In a schedule every script fails, or not, as it would at the end. -/
theorem IsSchedule.failure_eq {before after : List (Script view E)} {a : Script view E}
    (h : IsSchedule (before ++ a :: after)) (s : S) :
    a.failure (runAll before s) = a.failure (runAll (before ++ a :: after) s) := by
  obtain ⟨-, hafter, -⟩ := List.pairwise_append.mp h
  have hagree : Agree view a.reads (runAll after (a.run (runAll before s)))
      (a.run (runAll before s)) :=
    agree_runAll (fun b hb => ((List.pairwise_cons.mp hafter).1 b hb).symm) _
  rw [runAll_append, runAll_cons, Script.failure, Script.failure, a.input_congr hagree,
    a.input_run]

section

variable (hview : ∀ s s' : S, (∀ k, view k s = view k s') → s = s')

include hview

theorem run_comm {a b : Script view E} (h : a.Independent b) (s : S) :
    a.run (b.run s) = b.run (a.run s) := by
  -- at each place at most one of the two has written
  have hside {a b : Script view E} (h : a.Independent b) {k : κ} (hk : k ∈ a.writes) :
      view k (a.run (b.run s)) = view k (b.run (a.run s)) := by
    calc
      view k (a.run (b.run s)) = view k (a.run s) := a.run_congr (b.agree_run s h.2) k hk
      _ = view k (b.run (a.run s)) :=
        (b.put_frame _ _ k fun hmem =>
          Finset.disjoint_left.mp h.1 hk (Finset.mem_union_right _ hmem)).symm
  apply hview
  intro k
  by_cases ha : k ∈ a.writes
  · exact hside h ha
  · by_cases hb : k ∈ b.writes
    · exact (hside h.symm hb).symm
    · calc
        view k (a.run (b.run s)) = view k (b.run s) := a.put_frame _ _ k ha
        _ = view k s := b.put_frame _ _ k hb
        _ = view k (a.run s) := (a.put_frame _ _ k ha).symm
        _ = view k (b.run (a.run s)) := (b.put_frame _ _ k hb).symm

theorem runAll_run_comm {a : Script view E} {l : List (Script view E)}
    (h : ∀ b ∈ l, b.Independent a) (s : S) : runAll l (a.run s) = a.run (runAll l s) := by
  induction l generalizing s with
  | nil => rfl
  | cons b l ih =>
      rw [List.forall_mem_cons] at h
      rw [runAll_cons, runAll_cons, run_comm hview h.1, ih h.2]

/-- Two schedules of the same scripts, none of which reads what a later one writes, leave the same
state if no two of the scripts write to the same place. -/
theorem runAll_eq_of_schedules {es es' : List (Script view E)} (hperm : es.Perm es')
    (hwrites : es.Pairwise fun a b => Disjoint a.writes b.writes) (h : IsSchedule es)
    (h' : IsSchedule es') (s : S) : runAll es s = runAll es' s := by
  induction es' generalizing es s with
  | nil => rw [hperm.eq_nil]
  | cons c cs ih =>
      obtain ⟨l, r, rfl⟩ := List.append_of_mem (hperm.mem_iff.mpr List.mem_cons_self)
      have hrest : (l ++ r).Perm cs := (List.perm_middle.symm.trans hperm).cons_inv
      have hsub : List.Sublist (l ++ r) (l ++ c :: r) :=
        (List.sublist_cons_self c r).append_left l
      obtain ⟨hc, hcs⟩ := List.pairwise_cons.mp h'
      -- what stands before `c` in one schedule and behind it in the other is independent of it
      have hfirst : ∀ b ∈ l, b.Independent c := by
        intro b hb
        have hafter : Disjoint c.reads b.writes :=
          hc b (hrest.mem_iff.mp (List.mem_append_left r hb))
        have hbefore : Disjoint b.reads c.writes :=
          (List.pairwise_append.mp h).2.2 b hb c List.mem_cons_self
        have hapart : Disjoint b.writes c.writes :=
          (List.pairwise_append.mp hwrites).2.2 b hb c List.mem_cons_self
        exact ⟨Finset.disjoint_union_right.mpr ⟨hafter.symm, hapart⟩,
          Finset.disjoint_union_right.mpr ⟨hbefore.symm, hapart.symm⟩⟩
      rw [runAll_append, runAll_cons, ← runAll_run_comm hview hfirst, ← runAll_append, runAll_cons]
      exact ih hrest (hwrites.sublist hsub) (h.sublist hsub) hcs _

end

/-! ## Settled scripts -/

/-- None of the scripts writes to a place of the script. -/
def Undisturbed (a : Script view E) (after : List (Script view E)) : Prop :=
  ∀ b ∈ after, Disjoint b.writes (a.reads ∪ a.writes)

namespace Undisturbed

variable {a : Script view E} {after : List (Script view E)}

theorem failure_eq (h : Undisturbed a after) (s : S) :
    a.failure (runAll after (a.run s)) = a.failure s := by
  have hagree : Agree view a.reads (runAll after (a.run s)) (a.run s) :=
    agree_runAll (fun b hb => (h b hb).mono_right Finset.subset_union_left) _
  rw [Script.failure, a.input_congr hagree]
  exact a.failure_run s

theorem run_eq (hview : ∀ s s' : S, (∀ k, view k s = view k s') → s = s')
    (h : Undisturbed a after) (s : S) :
    a.run (runAll after (a.run s)) = runAll after (a.run s) := by
  have hagree := agree_runAll h (a.run s)
  apply hview
  intro k
  by_cases hk : k ∈ a.writes
  · calc
      _ = view k (a.run (a.run s)) := a.run_congr hagree k hk
      _ = view k (a.run s) := by rw [a.run_run]
      _ = _ := (hagree k (Finset.mem_union_right _ hk)).symm
  · exact a.put_frame _ _ k hk

end Undisturbed

/-- The script has run with success, and since then nothing wrote to its places. -/
def Settled (a : Script view E) (l : List (Script view E)) (s : S) : Prop :=
  ∃ before after, l = before ++ a :: after ∧ a.failure (runAll before s) = none ∧
    Undisturbed a after

/-- Running a settled script again succeeds and changes nothing. -/
theorem Settled.upToDate (hview : ∀ s s' : S, (∀ k, view k s = view k s') → s = s')
    {a : Script view E} {l : List (Script view E)} {s : S} (h : Settled a l s) :
    a.UpToDate (runAll l s) := by
  obtain ⟨before, after, rfl, hsuccess, hafter⟩ := h
  rw [runAll_append, runAll_cons]
  exact ⟨(hafter.failure_eq _).trans hsuccess, hafter.run_eq hview _⟩

/-- Every script succeeds at its turn. -/
def Succeeds (l : List (Script view E)) (s : S) : Prop :=
  ∀ before a after, l = before ++ a :: after → a.failure (runAll before s) = none

section

variable {l : List (Script view E)}
  (h : l.Pairwise fun a b => Disjoint b.writes (a.reads ∪ a.writes))

include h

theorem undisturbed_of_pairwise {before after : List (Script view E)} {a : Script view E}
    (hl : l = before ++ a :: after) : Undisturbed a after := by
  subst hl
  exact (List.pairwise_cons.mp (List.pairwise_append.mp h).2.1).1

theorem run_eq_of_mem (hview : ∀ s s' : S, (∀ k, view k s = view k s') → s = s')
    {a : Script view E} (ha : a ∈ l) (s : S) : a.run (runAll l s) = runAll l s := by
  obtain ⟨before, after, hl⟩ := List.append_of_mem ha
  have hafter := undisturbed_of_pairwise h hl
  rw [hl, runAll_append, runAll_cons]
  exact hafter.run_eq hview _

/-- If nobody writes to a place that was used before, the end tells which scripts failed. -/
theorem succeeds_iff (s : S) : Succeeds l s ↔ ∀ a ∈ l, a.failure (runAll l s) = none := by
  have hend {before after : List (Script view E)} {a : Script view E}
      (hl : l = before ++ a :: after) :
      a.failure (runAll l s) = a.failure (runAll before s) := by
    have hafter := undisturbed_of_pairwise h hl
    rw [hl, runAll_append, runAll_cons]
    exact hafter.failure_eq _
  constructor
  · intro hsucceeds a ha
    obtain ⟨before, after, hl⟩ := List.append_of_mem ha
    rw [hend hl]
    exact hsucceeds before a after hl
  · intro hall before a after hl
    rw [← hend hl]
    refine hall a ?_
    rw [hl]
    exact List.mem_append_right _ List.mem_cons_self

theorem settled_of_succeeds {s : S} (hsucceeds : Succeeds l s) {a : Script view E} (ha : a ∈ l) :
    Settled a l s := by
  obtain ⟨before, after, hl⟩ := List.append_of_mem ha
  exact ⟨before, after, hl, hsucceeds before a after hl, undisturbed_of_pairwise h hl⟩

end

/-! ## Places that nobody reads -/

section

variable {D : Finset κ} {s s' : S}

/-- A script that does not touch the places of `D` keeps two states alike apart from them. -/
theorem same_run_of_disjoint {a : Script view E} (ha : Disjoint (a.reads ∪ a.writes) D)
    (hsame : ∀ k ∉ D, view k s = view k s') : ∀ k ∉ D, view k (a.run s) = view k (a.run s') := by
  intro k hk
  by_cases hwrites : k ∈ a.writes
  · exact a.run_congr (fun j hj => hsame j (Finset.disjoint_left.mp ha hj)) k hwrites
  · calc
      view k (a.run s) = view k s := a.put_frame _ s k hwrites
      _ = view k s' := hsame k hk
      _ = view k (a.run s') := (a.put_frame _ s' k hwrites).symm

/-- Two schedules that differ in scripts which write to the places of `D` alone, while the others do
not touch these, keep two states alike apart from them. -/
theorem same_runAll {α : Type*} {script script' : α → Script view E} {l : List α}
    (h : ∀ a ∈ l, script a = script' a ∧ Disjoint ((script a).reads ∪ (script a).writes) D ∨
      (script a).writes ⊆ D ∧ (script' a).writes ⊆ D)
    (hsame : ∀ k ∉ D, view k s = view k s') :
    ∀ k ∉ D, view k (runAll (l.map script) s) = view k (runAll (l.map script') s') := by
  induction l generalizing s s' with
  | nil => exact hsame
  | cons a l ih =>
      rw [List.forall_mem_cons] at h
      obtain ⟨ha, hl⟩ := h
      refine ih hl fun k hk => ?_
      rcases ha with ⟨heq, hdisjoint⟩ | ⟨hwrites, hwrites'⟩
      · rw [← heq]
        exact same_run_of_disjoint hdisjoint hsame k hk
      · calc
          view k ((script a).run s) = view k s :=
            (script a).put_frame _ s k fun hmem => hk (hwrites hmem)
          _ = view k s' := hsame k hk
          _ = view k ((script' a).run s') :=
            ((script' a).put_frame _ s' k fun hmem => hk (hwrites' hmem)).symm

end

/-! ## Affected scripts -/

section

variable {α : Type*}

/-- The items of a schedule that have to run again once the places of `D` have changed: those that
use a changed place, or one that an affected item before them writes to. -/
def affected (reads writes : α → Finset κ) : Finset κ → List α → List α
  | _, [] => []
  | D, a :: l =>
      if Disjoint (reads a ∪ writes a) D then affected reads writes D l
      else a :: affected reads writes (D ∪ writes a) l

variable {reads writes : α → Finset κ}

theorem affected_cons (D : Finset κ) (a : α) (l : List α) :
    affected reads writes D (a :: l) =
      if Disjoint (reads a ∪ writes a) D then affected reads writes D l
      else a :: affected reads writes (D ∪ writes a) l :=
  rfl

theorem affected_sublist (D : Finset κ) (l : List α) :
    List.Sublist (affected reads writes D l) l := by
  induction l generalizing D with
  | nil => exact List.Sublist.refl _
  | cons a l ih =>
      rw [affected_cons]
      split_ifs
      · exact (ih D).cons a
      · exact (ih _).cons_cons a

/-- A script with nothing to do still has nothing to do if only other places have changed. -/
theorem run_eq_of_unchanged (hview : ∀ s s' : S, (∀ k, view k s = view k s') → s = s')
    {a : Script view E} {s s₀ : S} (hdone : a.run s₀ = s₀)
    (h : Agree view (a.reads ∪ a.writes) s s₀) : a.run s = s := by
  apply hview
  intro k
  by_cases hk : k ∈ a.writes
  · calc
      view k (a.run s) = view k (a.run s₀) := a.run_congr h k hk
      _ = view k s₀ := by rw [hdone]
      _ = view k s := (h k (Finset.mem_union_right _ hk)).symm
  · exact a.put_frame _ s k hk

variable {script : α → Script view E} (hreads : ∀ a, (script a).reads = reads a)
  (hwrites : ∀ a, (script a).writes = writes a)
  (hview : ∀ s s' : S, (∀ k, view k s = view k s') → s = s')

include hwrites

theorem same_run {D : Finset κ} {s s₀ : S} (hsame : ∀ k ∉ D, view k s = view k s₀) (a : α) :
    ∀ k ∉ D ∪ writes a, view k ((script a).run s) = view k s₀ := by
  intro k hk
  obtain ⟨hkD, hka⟩ := Finset.notMem_union.mp hk
  rw [← hwrites] at hka
  exact ((script a).put_frame _ s k hka).trans (hsame k hkD)

include hreads

theorem agree_of_disjoint {D : Finset κ} {s s₀ : S} (hsame : ∀ k ∉ D, view k s = view k s₀) {a : α}
    (ha : Disjoint (reads a ∪ writes a) D) :
    Agree view ((script a).reads ∪ (script a).writes) s s₀ := by
  rw [hreads, hwrites]
  exact fun k hk => hsame k (Finset.disjoint_left.mp ha hk)

include hview

/-- Once the places of `D` have changed in a state in which no script has anything to do, running the
affected ones in their order comes to the same as running all. -/
theorem runAll_affected {l : List α} {s₀ : S} (hdone : ∀ a ∈ l, (script a).run s₀ = s₀)
    {D : Finset κ} {s : S} (hsame : ∀ k ∉ D, view k s = view k s₀) :
    runAll ((affected reads writes D l).map script) s = runAll (l.map script) s := by
  induction l generalizing D s with
  | nil => rfl
  | cons a l ih =>
      rw [List.forall_mem_cons] at hdone
      rw [affected_cons]
      split_ifs with ha
      · have hrun := run_eq_of_unchanged hview hdone.1 (agree_of_disjoint hreads hwrites hsame ha)
        rw [List.map_cons, runAll_cons, hrun]
        exact ih hdone.2 hsame
      · exact ih hdone.2 (same_run hwrites hsame a)

/-- A script that is not affected ends as it did before the change. -/
theorem failure_of_notMem_affected {before after : List α} {a : α} {s₀ : S}
    (hdone : ∀ b ∈ before, (script b).run s₀ = s₀) {D : Finset κ} {s : S}
    (hsame : ∀ k ∉ D, view k s = view k s₀)
    (ha : a ∉ affected reads writes D (before ++ a :: after)) :
    (script a).failure (runAll (before.map script) s) = (script a).failure s₀ := by
  induction before generalizing D s with
  | nil =>
      rw [List.nil_append, affected_cons] at ha
      split_ifs at ha with hdisjoint
      · have hagree := agree_of_disjoint hreads hwrites hsame hdisjoint
        exact congrArg (script a).error
          ((script a).input_congr (hagree.mono Finset.subset_union_left))
      · exact (ha List.mem_cons_self).elim
  | cons b before ih =>
      rw [List.forall_mem_cons] at hdone
      rw [List.cons_append, affected_cons] at ha
      rw [List.map_cons, runAll_cons]
      split_ifs at ha with hdisjoint
      · have hrun :=
          run_eq_of_unchanged hview hdone.1 (agree_of_disjoint hreads hwrites hsame hdisjoint)
        rw [hrun]
        exact ih hdone.2 hsame ha
      · exact ih hdone.2 (same_run hwrites hsame b) fun hmem =>
          ha (List.mem_cons_of_mem _ hmem)

end

end TTCEvaluation.Workflow
