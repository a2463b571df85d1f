import Mathlib.Data.Finset.Card
import Mathlib.Logic.Function.Basic
import OpencodeA2a.Library.Machine
import OpencodeA2a.Library.OwnerlessLock

/-!
# The budget of concurrent upstream calls

`_FastFailConcurrencyBudget` of the upstream client, with any number of tasks that come to
`reserve` and leave it side by side. Either end of the reservation takes an `asyncio.Lock`, and a
task may be cancelled while it waits for it: in front of the body it would go without a slot, and
behind it the slot would be lost. It never comes to that, as nothing is awaited under the lock.
-/

namespace OpencodeA2a.Extension

open OpencodeA2a.OwnerlessLock (Lock)

/-! ## §1  Reservations -/

/-- How the body of a reservation ends. -/
inductive BodyEnd where
  | returned
  | raised
  | cancelled
deriving DecidableEq

inductive ReservationEnd where
  /-- `UpstreamConcurrencyLimitError` -/
  | refused
  /-- cancelled in a wait for the lock -/
  | abandoned
  | done (e : BodyEnd)
deriving DecidableEq

inductive Reservation where
  /-- waits for the lock in front of the body -/
  | entering
  /-- in the body, with a slot -/
  | inside
  /-- in the body of a budget without a limit -/
  | unlimited
  /-- waits for the lock behind the body -/
  | exiting (e : BodyEnd)
  | ended (e : ReservationEnd)
deriving DecidableEq

structure BudgetState (ι : Type) where
  limit : ℕ
  inflight : ℕ := 0
  lock : Lock ι := {}
  tasks : ι → Option Reservation := fun _ => none

/-- `__init__` -/
def BudgetState.init (ι : Type) (limit : ℤ) : BudgetState ι where
  limit := limit.toNat

inductive BudgetAction (ι : Type) where
  /-- a task comes to `reserve` -/
  | reserve (i : ι)
  /-- the body is over -/
  | leave (i : ι) (e : BodyEnd)
  /-- a waiter that was woken goes on with the lock -/
  | resume (i : ι)
  /-- `task.cancel()`, while the task waits for the lock -/
  | cancel (i : ι)
  /-- a waiter is thrown out of its wait -/
  | abandon (i : ι)

variable {ι : Type}

namespace BudgetState

section Steps

variable [DecidableEq ι]

def setTask (s : BudgetState ι) (i : ι) (r : Reservation) : BudgetState ι :=
  { s with tasks := Function.update s.tasks i (some r) }

/-- The block under the lock in front of the body, with the lock taken. -/
def claimSlot (s : BudgetState ι) (i : ι) : BudgetState ι :=
  if s.limit ≤ s.inflight then
    { s with lock := s.lock.release }.setTask i (.ended .refused)
  else
    { s with lock := s.lock.release, inflight := s.inflight + 1 }.setTask i .inside

/-- The block under the lock behind the body. -/
def returnSlot (s : BudgetState ι) (i : ι) (e : BodyEnd) : BudgetState ι :=
  { s with
    lock := s.lock.release
    inflight := if 0 < s.inflight then s.inflight - 1 else s.inflight }.setTask i (.ended (.done e))

/-- `async with self._lock` in front of the body. -/
def enter (s : BudgetState ι) (i : ι) : BudgetState ι :=
  if s.lock.free then { s with lock := s.lock.take }.claimSlot i
  else { s with lock := s.lock.wait i }.setTask i .entering

/-- `async with self._lock` behind the body. -/
def exit (s : BudgetState ι) (i : ι) (e : BodyEnd) : BudgetState ι :=
  if s.lock.free then { s with lock := s.lock.take }.returnSlot i e
  else { s with lock := s.lock.wait i }.setTask i (.exiting e)

def step (s : BudgetState ι) : BudgetAction ι → Option (BudgetState ι)
  | .reserve i =>
      match s.tasks i with
      | none => some (if s.limit = 0 then s.setTask i .unlimited else s.enter i)
      | some _ => none
  | .leave i e =>
      match s.tasks i with
      | some .inside => some (s.exit i e)
      | some .unlimited => some (s.setTask i (.ended (.done e)))
      | _ => none
  | .resume i =>
      if s.lock.isWoken i then
        match s.tasks i with
        | some .entering => some ({ s with lock := s.lock.resume i }.claimSlot i)
        | some (.exiting e) => some ({ s with lock := s.lock.resume i }.returnSlot i e)
        | _ => none
      else none
  | .cancel i =>
      match s.tasks i with
      | some .entering | some (.exiting _) => some { s with lock := s.lock.cancel i }
      | _ => none
  | .abandon i =>
      match s.tasks i with
      | some .entering | some (.exiting _) =>
          if s.lock.isWoken i || s.lock.waiters.contains (i, .cancelled) then
            some ({ s with lock := s.lock.abandon i }.setTask i (.ended .abandoned))
          else none
      | _ => none

end Steps

/-! ## §2  What holds throughout -/

/-- The tasks that hold a slot are as many as are counted, and nobody has to wait for the lock. -/
structure Sound (s : BudgetState ι) (slots : Finset ι) : Prop where
  held : ∀ i, i ∈ slots ↔ s.tasks i = some .inside
  counted : s.inflight = slots.card
  bounded : slots.card ≤ s.limit
  idle : s.lock = {}
  unwaiting : ∀ i r, s.tasks i = some r → r ≠ .entering ∧ ∀ e, r ≠ .exiting e
  limited : ∀ i, s.tasks i = some .unlimited → s.limit = 0

variable {s t : BudgetState ι} {slots : Finset ι} {i : ι}

theorem sound_init (limit : ℤ) : (BudgetState.init ι limit).Sound ∅ where
  held := fun i => by simp [BudgetState.init]
  counted := rfl
  bounded := Nat.zero_le _
  idle := rfl
  unwaiting := by rintro i r ⟨⟩
  limited := by rintro i ⟨⟩

theorem Sound.free (h : s.Sound slots) : s.lock.free = true := by
  rw [h.idle]
  rfl

variable [DecidableEq ι]

/-- A task that waits for nothing changes its place; `slots'` are the tasks with a slot then. -/
theorem Sound.setTask (h : s.Sound slots) {r : Reservation} {n : ℕ} {slots' : Finset ι}
    (hslots : ∀ j, j ∈ slots' ↔ if j = i then r = .inside else j ∈ slots)
    (hcounted : n = slots'.card) (hbounded : slots'.card ≤ s.limit)
    (hunwaiting : r ≠ .entering ∧ ∀ e, r ≠ .exiting e) (hlimited : r = .unlimited → s.limit = 0) :
    ({ s with lock := {}, inflight := n }.setTask i r).Sound slots' where
  held := fun j => by
    rw [hslots j]
    by_cases hj : j = i
    · subst hj
      simp [BudgetState.setTask]
    · simp [BudgetState.setTask, hj, h.held j]
  counted := hcounted
  bounded := hbounded
  idle := rfl
  unwaiting := by
    intro j r' hr'
    by_cases hj : j = i
    · subst hj
      simp only [BudgetState.setTask, Function.update_self, Option.some.injEq] at hr'
      exact hr' ▸ hunwaiting
    · simp only [BudgetState.setTask, Function.update_of_ne hj] at hr'
      exact h.unwaiting j r' hr'
  limited := by
    intro j hr'
    by_cases hj : j = i
    · subst hj
      simp only [BudgetState.setTask, Function.update_self, Option.some.injEq] at hr'
      exact hlimited hr'
    · simp only [BudgetState.setTask, Function.update_of_ne hj] at hr'
      exact h.limited j hr'

/-- A task without a slot goes where it has none. -/
theorem Sound.setTask_outside (h : s.Sound slots) {r : Reservation} (hi : s.tasks i ≠ some .inside)
    (hr : r ≠ .inside) (hunwaiting : r ≠ .entering ∧ ∀ e, r ≠ .exiting e)
    (hlimited : r = .unlimited → s.limit = 0) : (s.setTask i r).Sound slots := by
  have hmem : i ∉ slots := fun hmem => hi ((h.held i).mp hmem)
  have hset : ({ s with lock := {}, inflight := s.inflight }.setTask i r).Sound slots := by
    refine h.setTask (fun j => ?_) h.counted h.bounded hunwaiting hlimited
    by_cases hj : j = i
    · subst hj
      simp [hmem, hr]
    · simp [hj]
  rwa [← h.idle] at hset

/-- With the lock in hand and a slot left the task goes in, and else it is refused. -/
theorem Sound.claimSlot (h : s.Sound slots) (hi : s.tasks i = none) :
    ∃ slots', ({ s with lock := s.lock.take }.claimSlot i).Sound slots' := by
  have hrelease : s.lock.take.release = {} := by rw [h.idle]; rfl
  have hmem : i ∉ slots := by rw [h.held, hi]; rintro ⟨⟩
  unfold BudgetState.claimSlot
  dsimp only
  rw [hrelease]
  split
  · refine ⟨slots, h.setTask (fun j => ?_) h.counted h.bounded (by simp) (by simp)⟩
    by_cases hj : j = i
    · subst hj
      simp [hmem]
    · simp [hj]
  · rename_i hroom
    have hcard : (insert i slots).card = slots.card + 1 := Finset.card_insert_of_notMem hmem
    refine ⟨insert i slots, h.setTask (fun j => ?_) ?_ ?_ (by simp) (by simp)⟩
    · by_cases hj : j = i <;> simp [hj]
    · rw [hcard, h.counted]
    · rw [hcard, ← h.counted]
      exact Nat.lt_of_not_le hroom

/-- The task that leaves gives back the slot that it holds. -/
theorem Sound.returnSlot (h : s.Sound slots) (hi : s.tasks i = some .inside) (e : BodyEnd) :
    ({ s with lock := s.lock.take }.returnSlot i e).Sound (slots.erase i) := by
  have hrelease : s.lock.take.release = {} := by rw [h.idle]; rfl
  have hmem : i ∈ slots := (h.held i).mpr hi
  have hcard : (slots.erase i).card = slots.card - 1 := Finset.card_erase_of_mem hmem
  unfold BudgetState.returnSlot
  dsimp only
  rw [hrelease]
  refine h.setTask (fun j => ?_) ?_ ?_ (by simp) (by simp)
  · by_cases hj : j = i <;> simp [hj]
  · have hpos : 0 < s.inflight := by
      rw [h.counted]
      exact Finset.card_pos.mpr ⟨i, hmem⟩
    rw [if_pos hpos, h.counted, hcard]
  · exact (Finset.card_erase_le).trans h.bounded

theorem Sound.step (h : s.Sound slots) {a : BudgetAction ι} (hstep : s.step a = some t) :
    ∃ slots', t.Sound slots' := by
  cases a with
  | reserve i =>
      unfold BudgetState.step at hstep
      dsimp only at hstep
      split at hstep
      · rename_i hi
        cases hstep
        split
        · rename_i hlimit
          exact ⟨slots, h.setTask_outside (by simp [hi]) (by simp) (by simp) fun _ => hlimit⟩
        · unfold BudgetState.enter
          rw [if_pos h.free]
          exact h.claimSlot hi
      · cases hstep
  | leave i e =>
      unfold BudgetState.step at hstep
      dsimp only at hstep
      split at hstep
      · rename_i hi
        cases hstep
        unfold BudgetState.exit
        rw [if_pos h.free]
        exact ⟨_, h.returnSlot hi e⟩
      · rename_i hi
        cases hstep
        exact ⟨slots, h.setTask_outside (by simp [hi]) (by simp) (by simp) (by simp)⟩
      · cases hstep
  | resume i =>
      have hwoken : s.lock.isWoken i = false := by rw [h.idle]; rfl
      unfold BudgetState.step at hstep
      dsimp only at hstep
      rw [hwoken] at hstep
      cases hstep
  | cancel i =>
      unfold BudgetState.step at hstep
      dsimp only at hstep
      split at hstep
      · rename_i hi
        exact absurd rfl (h.unwaiting i _ hi).1
      · rename_i e hi
        exact absurd rfl ((h.unwaiting i _ hi).2 e)
      · cases hstep
  | abandon i =>
      unfold BudgetState.step at hstep
      dsimp only at hstep
      split at hstep
      · rename_i hi
        exact absurd rfl (h.unwaiting i _ hi).1
      · rename_i e hi
        exact absurd rfl ((h.unwaiting i _ hi).2 e)
      · cases hstep

/-- A task that comes to a limited budget is refused exactly when the slots are taken. -/
theorem Sound.refused_iff (h : s.Sound slots) (hstep : s.step (.reserve i) = some t) :
    t.tasks i = some (.ended .refused) ↔ 0 < s.limit ∧ slots.card = s.limit := by
  unfold BudgetState.step at hstep
  dsimp only at hstep
  split at hstep
  · cases hstep
    split
    · rename_i hlimit
      simp [BudgetState.setTask, hlimit]
    · rename_i hlimit
      have hpos : 0 < s.limit := Nat.pos_of_ne_zero hlimit
      have hbounded := h.bounded
      unfold BudgetState.enter BudgetState.claimSlot
      rw [if_pos h.free]
      dsimp only
      rw [h.counted]
      split
      · simp [BudgetState.setTask]
        omega
      · simp [BudgetState.setTask]
        omega
  · cases hstep

section Limit

@[simp] theorem limit_setTask {r : Reservation} : (s.setTask i r).limit = s.limit := rfl

@[simp] theorem limit_claimSlot : (s.claimSlot i).limit = s.limit := by
  unfold claimSlot
  split <;> rfl

@[simp] theorem limit_returnSlot {e : BodyEnd} : (s.returnSlot i e).limit = s.limit := rfl

@[simp] theorem limit_enter : (s.enter i).limit = s.limit := by
  unfold enter
  split <;> simp

@[simp] theorem limit_exit {e : BodyEnd} : (s.exit i e).limit = s.limit := by
  unfold exit
  split <;> rfl

theorem limit_step {a : BudgetAction ι} (hstep : s.step a = some t) : t.limit = s.limit := by
  unfold step at hstep
  split at hstep
  · split at hstep
    · cases hstep
      split <;> simp
    · cases hstep
  · split at hstep <;> cases hstep <;> simp
  · split at hstep
    · split at hstep <;> cases hstep <;> simp
    · cases hstep
  · split at hstep <;> cases hstep <;> rfl
  · split at hstep
    · split at hstep <;> cases hstep
      rfl
    · split at hstep <;> cases hstep
      rfl
    · cases hstep

end Limit

/-- In every state that the tasks can reach, however they come, go and are cancelled, as many calls
are counted as have a slot, at most as many as the limit allows; a task is refused exactly when
they are all taken, and nobody ever waits for the lock. -/
theorem budget_exact (limit : ℤ) (h : Machine.Reachable step (init ι limit) s) :
    ∃ slots : Finset ι, (∀ i, i ∈ slots ↔ s.tasks i = some .inside) ∧ s.inflight = slots.card ∧
      slots.card ≤ limit.toNat ∧ s.lock.waiters = [] ∧
      ∀ i t, s.step (.reserve i) = some t →
        (t.tasks i = some (.ended .refused) ↔ 0 < limit ∧ slots.card = limit.toNat) := by
  obtain ⟨⟨slots, hsound⟩, hlimit⟩ :
      (∃ slots, s.Sound slots) ∧ s.limit = limit.toNat := by
    refine h.invariant (I := fun s => (∃ slots, s.Sound slots) ∧ s.limit = limit.toNat) ?_
      ⟨⟨∅, sound_init limit⟩, rfl⟩
    rintro s a t ⟨⟨slots, hs⟩, hlimit⟩ hstep
    exact ⟨hs.step hstep, (limit_step hstep).trans hlimit⟩
  refine ⟨slots, hsound.held, hsound.counted, hlimit ▸ hsound.bounded, by rw [hsound.idle],
    fun i t hstep => ?_⟩
  rw [hsound.refused_iff hstep, hlimit]
  exact and_congr_left fun _ => by omega

theorem budget_exact_one :
    ∃ slots : Finset ℕ, (∀ i, i ∈ slots ↔ ((init ℕ 1).enter 0).tasks i = some .inside) ∧
      ((init ℕ 1).enter 0).inflight = slots.card ∧ slots.card ≤ (1 : ℤ).toNat ∧
      ((init ℕ 1).enter 0).lock.waiters = [] ∧
      ∀ i t, ((init ℕ 1).enter 0).step (.reserve i) = some t →
        (t.tasks i = some (.ended .refused) ↔ 0 < (1 : ℤ) ∧ slots.card = (1 : ℤ).toNat) :=
  budget_exact 1 ⟨[.reserve 0], rfl⟩

end BudgetState

end OpencodeA2a.Extension
