import Mathlib.Logic.Relation
import Mathlib.Data.Option.Basic

/-!
# Deterministic machines driven by a list of actions

A machine is a function `step : σ → α → Option σ`: the action names who moves
and what the environment answers, `none` says that the action is not enabled.
A *run* performs a list of actions; a *guarded* run moreover meets a condition
on the state before each of its steps. Invariants are proved for one step and
hold along every guarded run (`Runs.invariant`).
-/

namespace OpencodeA2a.Machine

variable {σ α : Type}

/-- The state reached by performing the actions in order. -/
def run (step : σ → α → Option σ) : σ → List α → Option σ
  | s, [] => some s
  | s, a :: as => (step s a).bind fun t => run step t as

/-- The runs of a machine all of whose steps meet `ok`. -/
inductive Runs (step : σ → α → Option σ) (ok : σ → α → Prop) : σ → List α → σ → Prop
  | nil (s : σ) : Runs step ok s [] s
  | cons {s t u : σ} {a : α} {as : List α} :
      ok s a → step s a = some t → Runs step ok t as u → Runs step ok s (a :: as) u

/-- Reachability: some run, with no condition on its steps. -/
def Reachable (step : σ → α → Option σ) (s t : σ) : Prop :=
  ∃ as, run step s as = some t

variable {step : σ → α → Option σ} {ok ok' : σ → α → Prop}

/-- The state after a list of actions that are all enabled in turn. -/
def after (step : σ → α → Option σ) (s : σ) (as : List α)
    (h : (run step s as).isSome = true) : σ :=
  (run step s as).get h

theorem run_after {s : σ} {as : List α} (h : (run step s as).isSome = true) :
    run step s as = some (after step s as h) := by
  unfold after
  exact (Option.some_get h).symm

theorem run_append (s : σ) (as bs : List α) :
    run step s (as ++ bs) = (run step s as).bind fun t => run step t bs := by
  induction as generalizing s with
  | nil => rfl
  | cons a as ih =>
      simp only [List.cons_append, run]
      cases step s a with
      | none => rfl
      | some t => exact ih t

/-- A run of actions that meet the condition in every state. -/
theorem runs_of_run {s t : σ} {as : List α} (hok : ∀ a ∈ as, ∀ s, ok s a)
    (h : run step s as = some t) : Runs step ok s as t := by
  induction as generalizing s with
  | nil =>
      cases h
      exact .nil _
  | cons a as ih =>
      obtain ⟨u, hstep, hrest⟩ := Option.bind_eq_some_iff.mp h
      refine .cons (hok a (List.mem_cons_self ..) s) hstep (ih ?_ hrest)
      intro b hb
      exact hok b (List.mem_cons_of_mem a hb)

/-- The machine whose steps are stopped where the check fails. -/
def restrict (step : σ → α → Option σ) (check : σ → α → Bool) (s : σ) (a : α) : Option σ :=
  if check s a then step s a else none

/-- A guarded run, by a check that can be computed along it. -/
theorem runs_of_restrict (check : σ → α → Bool) (hcheck : ∀ s a, check s a = true → ok s a)
    {s t : σ} {as : List α} (h : run (restrict step check) s as = some t) :
    Runs step ok s as t := by
  induction as generalizing s with
  | nil =>
      cases h
      exact .nil _
  | cons a as ih =>
      obtain ⟨u, hstep, hrest⟩ := Option.bind_eq_some_iff.mp h
      unfold restrict at hstep
      split at hstep
      · rename_i hc
        exact .cons (hcheck s a hc) hstep (ih hrest)
      · cases hstep

/-- Every run of the machine is a run under the condition that asks nothing. -/
theorem runs_iff_run {s t : σ} {as : List α} :
    Runs step (fun _ _ => True) s as t ↔ run step s as = some t := by
  constructor
  · intro h
    induction h with
    | nil s => rfl
    | cons _ hstep _ ih => simp only [run, hstep, Option.bind_some, ih]
  · intro h
    exact runs_of_run (fun _ _ _ => trivial) h

theorem Runs.mono {s t : σ} {as : List α} (hok : ∀ s a, ok s a → ok' s a)
    (h : Runs step ok s as t) : Runs step ok' s as t := by
  induction h with
  | nil s => exact .nil s
  | cons ha hstep _ ih => exact .cons (hok _ _ ha) hstep ih

/-- What one guarded step preserves, every guarded run preserves. -/
theorem Runs.invariant {I : σ → Prop}
    (hpres : ∀ s a t, I s → ok s a → step s a = some t → I t)
    {s t : σ} {as : List α} (h : Runs step ok s as t) (hs : I s) : I t := by
  induction h with
  | nil s => exact hs
  | cons ha hstep _ ih => exact ih (hpres _ _ _ hs ha hstep)

/-- An invariant may be used to show that the steps of a run meet a condition. -/
theorem Runs.strengthen {I : σ → Prop}
    (hpres : ∀ s a t, I s → ok s a → step s a = some t → I t)
    (hok : ∀ s a, I s → ok s a → ok' s a) {s t : σ} {as : List α} (h : Runs step ok s as t)
    (hs : I s) : Runs step ok' s as t := by
  induction h with
  | nil s => exact .nil s
  | cons ha hstep _ ih => exact .cons (hok _ _ hs ha) hstep (ih (hpres _ _ _ hs ha hstep))

/-- What is noted at each step of a run, in order. -/
def gather {β : Type} (step : σ → α → Option σ) (note : σ → α → List β) : σ → List α → List β
  | _, [] => []
  | s, a :: as =>
      match step s a with
      | none => []
      | some t => note s a ++ gather step note t as

/-- An invariant about the state and what has been noted so far. -/
theorem Runs.gather_invariant {β : Type} {note : σ → α → List β} {I : List β → σ → Prop}
    (hpres : ∀ bs s a t, I bs s → ok s a → step s a = some t → I (bs ++ note s a) t)
    {s t : σ} {as : List α} (h : Runs step ok s as t) {bs : List β} (hs : I bs s) :
    I (bs ++ gather step note s as) t := by
  induction h generalizing bs with
  | nil s =>
      show I (bs ++ []) s
      rw [List.append_nil]
      exact hs
  | cons ha hstep _ ih =>
      have hnext := ih (hpres _ _ _ _ hs ha hstep)
      rw [List.append_assoc] at hnext
      simp only [gather, hstep]
      exact hnext

/-- An invariant about the state and the actions that led to it. -/
theorem Runs.actions_invariant {I : List α → σ → Prop}
    (hpres : ∀ bs s a t, I bs s → ok s a → step s a = some t → I (bs ++ [a]) t)
    {s t : σ} {as bs : List α} (h : Runs step ok s as t) (hs : I bs s) : I (bs ++ as) t := by
  induction h generalizing bs with
  | nil s =>
      rw [List.append_nil]
      exact hs
  | cons ha hstep _ ih =>
      have hnext := ih (hpres _ _ _ _ hs ha hstep)
      rwa [List.append_assoc] at hnext

/-- The unguarded case of `Runs.invariant`. -/
theorem Reachable.invariant {I : σ → Prop}
    (hpres : ∀ s a t, I s → step s a = some t → I t)
    {s t : σ} (h : Reachable step s t) (hs : I s) : I t := by
  obtain ⟨as, has⟩ := h
  exact (runs_iff_run.mpr has).invariant (fun s a t hi _ => hpres s a t hi) hs

theorem Reachable.refl (s : σ) : Reachable step s s := ⟨[], rfl⟩

theorem Runs.reachable {s t : σ} {as : List α} (h : Runs step ok s as t) :
    Reachable step s t :=
  ⟨as, runs_iff_run.mp (h.mono fun _ _ _ => trivial)⟩

/-- Each step that the actions make from `s` on is in the relation. -/
def Along (step : σ → α → Option σ) (P : σ → α → σ → Prop) : σ → List α → Prop
  | _, [] => True
  | s, a :: as => ∀ t, step s a = some t → P s a t ∧ Along step P t as

/-- Where each step from a state of the invariant is in the relation exactly under a condition
on that state, and keeps the invariant under it, the steps of a run are in the relation exactly
when the run is guarded by the condition. -/
theorem along_iff_runs {P : σ → α → σ → Prop} {I : σ → Prop}
    (hP : ∀ s a t, I s → step s a = some t → (P s a t ↔ ok s a))
    (hpres : ∀ s a t, I s → ok s a → step s a = some t → I t) {s t : σ} {as : List α} (hs : I s)
    (h : run step s as = some t) : Along step P s as ↔ Runs step ok s as t := by
  induction as generalizing s with
  | nil =>
      cases h
      exact iff_of_true trivial (.nil _)
  | cons a as ih =>
      obtain ⟨u, hstep, hrest⟩ := Option.bind_eq_some_iff.mp h
      constructor
      · intro halong
        obtain ⟨hfirst, hmore⟩ := halong u hstep
        have hok := (hP s a u hs hstep).mp hfirst
        exact .cons hok hstep ((ih (hpres s a u hs hok hstep) hrest).mp hmore)
      · intro hruns u' hstep'
        rw [hstep] at hstep'
        cases hstep'
        cases hruns with
        | cons hok hstep' hmore =>
            rw [hstep] at hstep'
            cases hstep'
            exact ⟨(hP s a u hs hstep).mpr hok, (ih (hpres s a u hs hok hstep) hrest).mpr hmore⟩

end OpencodeA2a.Machine
