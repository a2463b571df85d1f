import Mathlib.Data.List.Basic
import Mathlib.Logic.Basic

/-!
# Checks that name a fault

A check accepts a value or rejects it with an error. It *locates* the faults `F` when it
accepts exactly where there is none and rejects with one that is there. The faults are
stated without an order, while the check looks for them one after the other and stops at
the first: which one it names is its own affair, that it names one is what counts. Checks
are put together in sequence, over a list, and under a condition, and so are their faults.
-/

namespace OpencodeA2a.Checks

variable {ε α : Type} {F G : ε → Prop} {c d : Except ε Unit}

def Locates (F : ε → Prop) (c : Except ε Unit) : Prop :=
  match c with
  | .ok _ => ∀ e, ¬ F e
  | .error e => F e

/-- `if not condition: raise error` -/
def require (condition : Bool) (error : ε) : Except ε Unit :=
  if condition then .ok () else .error error

/-- The check of each member at its index, counted from `i`. -/
def each (check : ℕ → α → Except ε Unit) : ℕ → List α → Except ε Unit
  | _, [] => .ok ()
  | i, a :: l => do
      check i a
      each check (i + 1) l

/-- The check of a value where there is one. -/
def given (check : α → Except ε Unit) : Option α → Except ε Unit
  | none => .ok ()
  | some a => check a

theorem Locates.congr (h : Locates F c) (hFG : ∀ e, F e ↔ G e) : Locates G c := by
  cases c with
  | ok u => exact fun e he => h e ((hFG e).mpr he)
  | error e => exact (hFG e).mp h

theorem locates_ok (h : ∀ e, ¬ F e) : Locates F (.ok ()) := h

theorem locates_error {e : ε} (h : F e) : Locates F (.error e) := h

theorem locates_require (condition : Bool) (error : ε) :
    Locates (fun e => condition = false ∧ e = error) (require condition error) := by
  cases condition with
  | true => exact fun e he => Bool.noConfusion he.1
  | false => exact ⟨rfl, rfl⟩

theorem Locates.seq (hc : Locates F c) (hd : Locates G d) :
    Locates (fun e => F e ∨ G e) (c >>= fun _ => d) := by
  cases c with
  | error e => exact .inl hc
  | ok u =>
      show Locates _ d
      cases d with
      | ok v => exact fun e he => he.elim (hc e) (hd e)
      | error e => exact .inr hd

theorem Locates.when (b : Prop) [Decidable b] (hc : Locates F c) :
    Locates (fun e => b ∧ F e) (if b then c else .ok ()) := by
  by_cases hb : b
  · rw [if_pos hb]
    exact hc.congr fun e => (and_iff_right hb).symm
  · rw [if_neg hb]
    exact locates_ok fun e he => hb he.1

theorem locates_each {F : ℕ → α → ε → Prop} {check : ℕ → α → Except ε Unit} {l : List α}
    (h : ∀ i, ∀ a ∈ l, Locates (F i a) (check i a)) (i : ℕ) :
    Locates (fun e => ∃ j a, l[j]? = some a ∧ F (i + j) a e) (each check i l) := by
  induction l generalizing i with
  | nil =>
      rintro e ⟨j, a, ha, -⟩
      simp at ha
  | cons b l ih =>
      refine ((h i b List.mem_cons_self).seq
        (ih (fun i a ha => h i a (List.mem_cons_of_mem b ha)) (i + 1))).congr ?_
      intro e
      constructor
      · rintro (he | ⟨j, a, ha, he⟩)
        · exact ⟨0, b, rfl, he⟩
        · refine ⟨j + 1, a, ha, ?_⟩
          rwa [Nat.add_comm j 1, ← Nat.add_assoc]
      · rintro ⟨j, a, ha, he⟩
        cases j with
        | zero =>
            cases ha
            exact .inl he
        | succ j =>
            refine .inr ⟨j, a, ha, ?_⟩
            rwa [Nat.add_assoc, Nat.add_comm 1 j]

/-- The check of each member, where the index does not matter. -/
theorem locates_each_mem {F : α → ε → Prop} {check : α → Except ε Unit} {l : List α}
    (h : ∀ a ∈ l, Locates (F a) (check a)) (i : ℕ) :
    Locates (fun e => ∃ a ∈ l, F a e) (each (fun _ => check) i l) := by
  refine (locates_each (fun _ a ha => h a ha) i).congr ?_
  intro e
  constructor
  · rintro ⟨j, a, ha, he⟩
    exact ⟨a, List.mem_of_getElem? ha, he⟩
  · rintro ⟨a, ha, he⟩
    obtain ⟨j, hj⟩ := List.getElem?_of_mem ha
    exact ⟨j, a, hj, he⟩

theorem locates_given {F : α → ε → Prop} {check : α → Except ε Unit}
    (h : ∀ a, Locates (F a) (check a)) (o : Option α) :
    Locates (fun e => ∃ a, o = some a ∧ F a e) (given check o) := by
  cases o with
  | none =>
      rintro e ⟨a, ⟨⟩, -⟩
  | some a =>
      refine (h a).congr fun e => ⟨fun he => ⟨a, rfl, he⟩, ?_⟩
      rintro ⟨b, ⟨⟩, he⟩
      exact he

end OpencodeA2a.Checks
