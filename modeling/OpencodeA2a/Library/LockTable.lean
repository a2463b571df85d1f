import Mathlib.Logic.Function.Basic

/-!
# Scoped locks, by holder

A table of locks maps a key to the process inside the lock's block. Entering a
block takes a free lock; `leave` drops the lock of a block that was left. Each
process is inside at most one block of a table, so "who holds what" is a
function `cur` of the process, and both operations keep the table in step with
it.
-/

namespace OpencodeA2a.LockTable

variable {κ π : Type} [DecidableEq κ]

def enter (f : κ → Option π) (k : κ) (p : π) : κ → Option π :=
  Function.update f k (some p)

/-- `cur` is the block the process was in, `nxt` the one it is in now. -/
def leave (f : κ → Option π) (cur nxt : Option κ) : κ → Option π :=
  match cur with
  | some k => if nxt = some k then f else Function.update f k none
  | none => f

theorem enter_eq_some_iff {f : κ → Option π} {k : κ} {p : π} (hfree : f k = none)
    (hp : ∀ k, f k ≠ some p) (k' : κ) (q : π) :
    enter f k p k' = some q ↔ (q = p ∧ k' = k) ∨ (q ≠ p ∧ f k' = some q) := by
  unfold enter
  by_cases hk : k' = k
  · subst hk
    simp only [Function.update_self, Option.some.injEq, and_true, hfree, reduceCtorEq,
      and_false, or_false]
    exact eq_comm
  · simp only [Function.update_of_ne hk, hk, and_false, false_or]
    constructor
    · intro h
      refine ⟨?_, h⟩
      rintro rfl
      exact hp _ h
    · exact And.right

theorem leave_eq_some_iff {f : κ → Option π} {cur nxt : Option κ} {p : π}
    (hp : ∀ k, f k = some p ↔ cur = some k) (hnxt : nxt = cur ∨ nxt = none)
    (k : κ) (q : π) :
    leave f cur nxt k = some q ↔ (q = p ∧ nxt = some k) ∨ (q ≠ p ∧ f k = some q) := by
  -- a key somebody else holds is not the key the process leaves
  have hother : ∀ k q, q ≠ p → f k = some q → cur ≠ some k := by
    intro k q hq hk hcur
    have := (hp k).mpr hcur
    rw [hk] at this
    exact hq (Option.some.inj this)
  have hkept : ∀ k, f k = some q ↔ (q = p ∧ cur = some k) ∨ (q ≠ p ∧ f k = some q) := by
    intro k
    by_cases hq : q = p
    · subst hq
      simp only [true_and, ne_eq, not_true_eq_false, false_and, or_false]
      exact hp k
    · simp [hq]
  cases cur with
  | none =>
      have hn : nxt = none := by rcases hnxt with h | h <;> exact h
      subst hn
      exact hkept k
  | some k₀ =>
      rcases hnxt with rfl | rfl
      · simp only [leave, if_true]
        exact hkept k
      · simp only [leave, reduceCtorEq, if_false, and_false, false_or]
        by_cases hk : k = k₀
        · subst hk
          simp only [Function.update_self, reduceCtorEq, false_iff, not_and]
          intro hq hf
          exact hother k q hq hf rfl
        · simp only [Function.update_of_ne hk]
          constructor
          · intro hf
            refine ⟨?_, hf⟩
            rintro rfl
            exact hk (Option.some.inj ((hp k).mp hf)).symm
          · exact And.right

/-- One move of `p` in the table: it enters a free block from outside, or stays
in or leaves the block it is in. -/
def Moves (f f' : κ → Option π) (cur nxt : Option κ) (p : π) : Prop :=
  (cur = none ∧ ∃ k, nxt = some k ∧ f k = none ∧ f' = enter f k p) ∨
    ((nxt = cur ∨ nxt = none) ∧ f' = leave f cur nxt)

/-- After a move `p` holds `nxt` and nobody else's locks have changed. -/
theorem Moves.eq_some_iff {f f' : κ → Option π} {cur nxt : Option κ} {p : π}
    (h : Moves f f' cur nxt p) (hp : ∀ k, f k = some p ↔ cur = some k) (k : κ) (q : π) :
    f' k = some q ↔ (q = p ∧ nxt = some k) ∨ (q ≠ p ∧ f k = some q) := by
  rcases h with ⟨hcur, k₀, rfl, hfree, rfl⟩ | ⟨hnxt, rfl⟩
  · have hout : ∀ k, f k ≠ some p := by
      intro k hk
      have := (hp k).mp hk
      rw [hcur] at this
      cases this
    simp only [enter_eq_some_iff hfree hout, Option.some.injEq, @eq_comm _ k₀ k]
  · exact leave_eq_some_iff hp hnxt k q

end OpencodeA2a.LockTable
