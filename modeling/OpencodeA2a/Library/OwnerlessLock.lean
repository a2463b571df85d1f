import Mathlib.Data.List.Basic

/-!
# A lock without an owner

A lock that anybody may release, with a queue of waiters, as in cooperative schedulers: a
release frees the lock and wakes the first waiter, who takes it when it comes to run; a
waiter that was cancelled leaves the queue and passes on a wake that was meant for it. As
long as the queue is in order, nobody is awake while the lock is taken.
-/

namespace OpencodeA2a.OwnerlessLock

inductive Waiter where
  | pending
  | woken
  | cancelled
deriving DecidableEq

structure Lock (ι : Type) where
  locked : Bool := false
  waiters : List (ι × Waiter) := []

namespace Lock

variable {ι : Type} (l : Lock ι)

/-- Whether `acquire` takes the lock at once. -/
def free : Bool := !l.locked && l.waiters.all fun w => w.2 = .cancelled

def take : Lock ι := { l with locked := true }

def wait (i : ι) : Lock ι := { l with waiters := l.waiters ++ [(i, .pending)] }

def wakeFirst : Lock ι :=
  match l.waiters with
  | (i, .pending) :: ws => { l with waiters := (i, .woken) :: ws }
  | _ => l

def release : Lock ι := { l with locked := false }.wakeFirst

section Waiters

variable [DecidableEq ι] (i : ι)

def isWoken : Bool := l.waiters.contains (i, .woken)

def leave : Lock ι := { l with waiters := l.waiters.filter fun w => w.1 ≠ i }

/-- A waiter that was woken takes the lock. -/
def resume : Lock ι := (l.leave i).take

/-- The wait of `i` is cancelled, if it is not over. -/
def cancel : Lock ι :=
  { l with waiters := l.waiters.map fun w => if w = (i, .pending) then (i, .cancelled) else w }

/-- A waiter is thrown out of its wait. -/
def abandon : Lock ι :=
  let l := l.leave i
  if l.locked then l else l.wakeFirst

end Waiters

/-! ## The queue in order -/

/-- Only the first waiter may be awake, and none while the lock is taken. -/
structure Orderly : Prop where
  locked : l.locked = true → ∀ w ∈ l.waiters, w.2 ≠ .woken
  tail : ∀ w ∈ l.waiters.tail, w.2 ≠ .woken

variable {l}

@[simp] theorem wakeFirst_locked : l.wakeFirst.locked = l.locked := by
  unfold wakeFirst
  split <;> rfl

@[simp] theorem release_locked : l.release.locked = false := wakeFirst_locked

theorem not_locked_of_free (h : l.free = true) : l.locked = false := by
  rw [free, Bool.and_eq_true, Bool.not_eq_true'] at h
  exact h.1

theorem Orderly.empty : Orderly ({} : Lock ι) := by
  constructor
  · intro _ w hw
    cases hw
  · intro w hw
    cases hw

theorem Orderly.take (hfree : l.free = true) : l.take.Orderly := by
  rw [free, Bool.and_eq_true, List.all_eq_true] at hfree
  have hnone : ∀ w ∈ l.waiters, w.2 ≠ .woken := by
    intro w hw
    rw [of_decide_eq_true (hfree.2 w hw)]
    exact Waiter.noConfusion
  exact ⟨fun _ => hnone, fun w hw => hnone w (List.mem_of_mem_tail hw)⟩

theorem Orderly.wait (h : l.Orderly) (i : ι) : (l.wait i).Orderly := by
  constructor
  · intro hlocked w hw
    rcases List.mem_append.mp hw with hw | hw
    · exact h.locked hlocked w hw
    · rw [List.mem_singleton] at hw
      subst hw
      exact Waiter.noConfusion
  · intro w hw
    have htail := h.tail
    cases hws : l.waiters with
    | nil =>
        simp only [Lock.wait, hws, List.nil_append, List.tail_cons] at hw
        cases hw
    | cons v ws =>
        simp only [Lock.wait, hws, List.cons_append, List.tail_cons, List.mem_append,
          List.mem_singleton] at hw htail
        rcases hw with hw | rfl
        · exact htail w hw
        · exact Waiter.noConfusion

theorem Orderly.wakeFirst (h : l.Orderly) (hlocked : l.locked = false) :
    l.wakeFirst.Orderly := by
  constructor
  · intro hl
    rw [wakeFirst_locked, hlocked] at hl
    cases hl
  · intro w hw
    unfold Lock.wakeFirst at hw
    split at hw
    · rename_i i ws hws
      have htail := h.tail
      rw [hws] at htail
      exact htail w hw
    · exact h.tail w hw

theorem Orderly.release (h : l.Orderly) : l.release.Orderly := by
  have hfreed : Orderly { l with locked := false } := by
    refine ⟨fun hl => ?_, h.tail⟩
    cases hl
  exact hfreed.wakeFirst rfl

section Waiters

variable [DecidableEq ι]

@[simp] theorem abandon_locked (i : ι) : (l.abandon i).locked = l.locked := by
  unfold abandon
  simp only
  split
  · rfl
  · exact wakeFirst_locked

theorem Orderly.not_locked_of_woken (h : l.Orderly) {i : ι} (hi : l.isWoken i = true) :
    l.locked = false := by
  rw [Bool.eq_false_iff]
  intro hlocked
  exact h.locked hlocked _ (List.contains_iff_mem.mp hi) rfl

theorem Orderly.cancel (h : l.Orderly) (i : ι) : (l.cancel i).Orderly := by
  have hkeeps : ∀ w : ι × Waiter, w.2 ≠ .woken →
      (if w = (i, .pending) then (i, .cancelled) else w).2 ≠ Waiter.woken := by
    intro w hw
    split
    · exact Waiter.noConfusion
    · exact hw
  constructor
  · intro hlocked w hw
    obtain ⟨v, hv, rfl⟩ := List.mem_map.mp hw
    exact hkeeps v (h.locked hlocked v hv)
  · intro w hw
    simp only [Lock.cancel, ← List.map_tail] at hw
    obtain ⟨v, hv, rfl⟩ := List.mem_map.mp hw
    exact hkeeps v (h.tail v hv)

theorem Orderly.leave (h : l.Orderly) (i : ι) : (l.leave i).Orderly := by
  constructor
  · intro hlocked w hw
    exact h.locked hlocked w (List.mem_of_mem_filter hw)
  · intro w hw
    have htail := h.tail
    cases hws : l.waiters with
    | nil =>
        simp only [Lock.leave, hws, List.filter_nil] at hw
        cases hw
    | cons v ws =>
        simp only [Lock.leave, hws, List.filter_cons] at hw htail
        split at hw
        · exact htail w (List.mem_of_mem_filter hw)
        · exact htail w (List.mem_of_mem_filter (List.mem_of_mem_tail hw))

/-- A waiter that is awake is the first one: without it, nobody is awake. -/
theorem Orderly.resume (h : l.Orderly) {i : ι} (hi : l.isWoken i = true) :
    (l.resume i).Orderly := by
  have hnone : ∀ w ∈ (l.leave i).waiters, w.2 ≠ .woken := by
    intro w hw
    obtain ⟨hmem, hne⟩ := List.mem_filter.mp hw
    have hne : w.1 ≠ i := of_decide_eq_true hne
    have hwoken : (i, Waiter.woken) ∈ l.waiters := List.contains_iff_mem.mp hi
    have htail := h.tail
    cases hws : l.waiters with
    | nil =>
        rw [hws] at hmem
        cases hmem
    | cons v ws =>
        rw [hws] at hmem hwoken htail
        rcases List.mem_cons.mp hwoken with rfl | hlater
        · rcases List.mem_cons.mp hmem with rfl | hmem
          · exact absurd rfl hne
          · exact htail w hmem
        · exact absurd rfl (htail _ hlater)
  exact ⟨fun _ => hnone, (h.leave i).tail⟩

theorem Orderly.abandon (h : l.Orderly) (i : ι) : (l.abandon i).Orderly := by
  unfold Lock.abandon
  simp only
  split
  · exact h.leave i
  · rename_i hlocked
    exact (h.leave i).wakeFirst (Bool.not_eq_true _ ▸ hlocked)

end Waiters

end Lock

end OpencodeA2a.OwnerlessLock
