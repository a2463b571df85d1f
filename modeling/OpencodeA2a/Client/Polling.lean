import OpencodeA2a.Server.Payloads
import Mathlib.Algebra.Order.Floor.Ring
import Mathlib.Data.Rat.Floor
import Mathlib.Tactic.Linarith
import Mathlib.Tactic.Positivity

/-!
# Polling after a send

`client/polling.py` and the loop of `A2AClient._poll_task_until_terminal`. Seconds are
rational numbers. The clock is read once for the deadline and once in every round.
-/

namespace OpencodeA2a.Client

open OpencodeA2a.Stream (Text)
open OpencodeA2a.Server (Task TaskState Payload)

/-! ## §1  The policy -/

structure PollingFallbackPolicy where
  enabled : Bool := false
  initialIntervalSeconds : ℚ := 1 / 2
  maxIntervalSeconds : ℚ := 2
  backoffMultiplier : ℚ := 2
  timeoutSeconds : ℚ := 10

namespace PollingFallbackPolicy

/-- `state in _AUTO_POLLING_TASK_STATES` -/
def shouldPollState : TaskState → Bool
  | .submitted | .working | .unspecified => true
  | .completed | .failed | .canceled | .rejected | .inputRequired | .authRequired => false

/-- What waits for the caller. -/
def isInterventionState : TaskState → Bool
  | .inputRequired | .authRequired => true
  | .unspecified | .submitted | .working | .completed | .failed | .canceled | .rejected => false

def nextIntervalSeconds (policy : PollingFallbackPolicy) (current : ℚ) : ℚ :=
  min (max current 0 * policy.backoffMultiplier) policy.maxIntervalSeconds

/-- `validate_polling_fallback_policy`; the error is the text of the `ValueError`. -/
def validate (policy : PollingFallbackPolicy) : Except Text Unit :=
  if policy.initialIntervalSeconds ≤ 0 then
    .error "A2A_CLIENT_POLLING_FALLBACK_INITIAL_INTERVAL_SECONDS must be positive".toList
  else if policy.maxIntervalSeconds ≤ 0 then
    .error "A2A_CLIENT_POLLING_FALLBACK_MAX_INTERVAL_SECONDS must be positive".toList
  else if policy.backoffMultiplier < 1 then
    .error ("A2A_CLIENT_POLLING_FALLBACK_BACKOFF_MULTIPLIER must be greater than or ".toList ++
      "equal to 1".toList)
  else if policy.timeoutSeconds ≤ 0 then
    .error "A2A_CLIENT_POLLING_FALLBACK_TIMEOUT_SECONDS must be positive".toList
  else if policy.maxIntervalSeconds < policy.initialIntervalSeconds then
    .error ("A2A_CLIENT_POLLING_FALLBACK_MAX_INTERVAL_SECONDS must be greater than or ".toList ++
      "equal to A2A_CLIENT_POLLING_FALLBACK_INITIAL_INTERVAL_SECONDS".toList)
  else .ok ()

/-- What the validation lets through. -/
structure Valid (policy : PollingFallbackPolicy) : Prop where
  initial : 0 < policy.initialIntervalSeconds
  multiplier : 1 ≤ policy.backoffMultiplier
  timeout : 0 < policy.timeoutSeconds
  most : policy.initialIntervalSeconds ≤ policy.maxIntervalSeconds

variable {policy : PollingFallbackPolicy}

theorem validate_eq_ok : policy.validate = .ok () ↔ policy.Valid := by
  unfold validate
  constructor
  · intro h
    split at h
    · cases h
    split at h
    · cases h
    split at h
    · cases h
    split at h
    · cases h
    split at h
    · cases h
    constructor <;> linarith
  · intro h
    have hmost := h.initial.trans_le h.most
    rw [if_neg (not_le.mpr h.initial), if_neg (not_le.mpr hmost), if_neg (not_lt.mpr h.multiplier),
      if_neg (not_le.mpr h.timeout), if_neg (not_lt.mpr h.most)]

/-- A state is polled, or ends the polling. -/
theorem shouldPollState_eq_false (state : TaskState) :
    shouldPollState state = false ↔ state.isTerminal ∨ isInterventionState state := by
  cases state <;> decide

/-- Backing off never goes below the initial interval. -/
theorem Valid.le_next (h : policy.Valid) {interval : ℚ}
    (hinterval : policy.initialIntervalSeconds ≤ interval) :
    policy.initialIntervalSeconds ≤ policy.nextIntervalSeconds interval := by
  have hinitial := h.initial
  unfold nextIntervalSeconds
  apply le_min _ h.most
  rw [max_eq_left (hinitial.le.trans hinterval)]
  calc policy.initialIntervalSeconds ≤ interval := hinterval
    _ ≤ interval * policy.backoffMultiplier :=
        le_mul_of_one_le_right (hinitial.le.trans hinterval) h.multiplier

end PollingFallbackPolicy

/-! ## §2  The loop -/

/-- What a poll of a task meets: the readings of the clock, the first for the deadline and one
for each round behind it, and what each call of `GetTask` returns or raises. -/
structure Peer (ε : Type) where
  clock : ℕ → ℚ
  getTask : ℕ → Text → Except ε Task

inductive PollOutcome (ε : Type) where
  | returned (task : Task)
  /-- `A2ATimeoutError` -/
  | timedOut
  | raised (error : ε)

section Loop

variable {ε : Type} (policy : PollingFallbackPolicy) (peer : Peer ε)

def deadline : ℚ := peer.clock 0 + policy.timeoutSeconds

/-- Time left at the check of a round, that many calls of `GetTask` being over. -/
def remaining (calls : ℕ) : ℚ := deadline policy peer - peer.clock (calls + 1)

/-- The interval after that many calls. -/
def intervalAfter : ℕ → ℚ
  | 0 => policy.initialIntervalSeconds
  | calls + 1 => policy.nextIntervalSeconds (intervalAfter calls)

/-- What `_sleep` is asked for. -/
def delay (calls : ℕ) : ℚ := min (intervalAfter policy calls) (remaining policy peer calls)

/-- The rounds of `_poll_task_until_terminal` from the one with so many calls behind it; none
when `rounds` of them do not end it. -/
def pollRounds : (rounds calls : ℕ) → Task → Option (PollOutcome ε × ℕ)
  | 0, _, _ => none
  | rounds + 1, calls, task =>
      if task.status.state.isTerminal then some (.returned task, calls)
      else if PollingFallbackPolicy.shouldPollState task.status.state = false then
        some (.returned task, calls)
      else if remaining policy peer calls ≤ 0 then some (.timedOut, calls)
      else
        -- here it sleeps
        match peer.getTask calls task.id with
        | .error e => some (.raised e, calls + 1)
        | .ok task => pollRounds rounds (calls + 1) task

/-- How `_poll_task_until_terminal` ends, with the number of its calls of `GetTask`. -/
def pollTaskUntilTerminal (rounds : ℕ) (task : Task) : Option (PollOutcome ε × ℕ) :=
  pollRounds policy peer rounds 0 task

/-- The clock does not go back, and advances over each sleep by at least its delay. -/
structure Advances : Prop where
  start : peer.clock 0 ≤ peer.clock 1
  sleep : ∀ calls, 0 < remaining policy peer calls →
    peer.clock (calls + 1) + delay policy peer calls ≤ peer.clock (calls + 2)

end Loop

/-! ## §3  The budget -/

section Budget

variable {ε : Type} {policy : PollingFallbackPolicy} {peer : Peer ε} {task : Task}
  {rounds calls n : ℕ} {outcome : PollOutcome ε}

theorem le_intervalAfter (h : policy.Valid) (calls : ℕ) :
    policy.initialIntervalSeconds ≤ intervalAfter policy calls := by
  induction calls with
  | zero => exact le_rfl
  | succ calls ih => exact h.le_next ih

/-- Every call so far has taken the initial interval, or the time is up. -/
def Elapsed (policy : PollingFallbackPolicy) (peer : Peer ε) (calls : ℕ) : Prop :=
  calls * policy.initialIntervalSeconds ≤ peer.clock (calls + 1) - peer.clock 0 ∨
    remaining policy peer calls ≤ 0

theorem elapsed_zero (hclock : Advances policy peer) : Elapsed policy peer 0 := by
  left
  have hstart := hclock.start
  simpa using hstart

theorem Elapsed.sleep (h : Elapsed policy peer calls) (hvalid : policy.Valid)
    (hclock : Advances policy peer) (hleft : 0 < remaining policy peer calls) :
    Elapsed policy peer (calls + 1) := by
  have hsleep := hclock.sleep calls hleft
  rcases h with h | h
  · rcases le_total (intervalAfter policy calls) (remaining policy peer calls) with hfull | hclipped
    · left
      have hinterval := le_intervalAfter hvalid calls
      rw [delay, min_eq_left hfull] at hsleep
      push_cast
      linarith
    · -- the last sleep reaches the deadline
      right
      rw [delay, min_eq_right hclipped] at hsleep
      unfold remaining at *
      linarith
  · exact absurd hleft (not_lt.mpr h)

/-- The most calls that a policy has time for. -/
def budget (policy : PollingFallbackPolicy) : ℕ :=
  ⌈policy.timeoutSeconds / policy.initialIntervalSeconds⌉₊

theorem Elapsed.lt_budget (h : Elapsed policy peer calls) (hvalid : policy.Valid)
    (hleft : 0 < remaining policy peer calls) : calls < budget policy := by
  rcases h with h | h
  · unfold budget
    rw [Nat.lt_ceil, lt_div_iff₀ hvalid.initial]
    unfold remaining deadline at hleft
    linarith
  · exact absurd hleft (not_lt.mpr h)

/-- How a poll may end, with so many calls of `GetTask`. -/
def Ends (policy : PollingFallbackPolicy) (peer : Peer ε) (calls : ℕ) : PollOutcome ε → Prop
  | .returned task =>
      task.status.state.isTerminal ∨ PollingFallbackPolicy.isInterventionState task.status.state
  | .timedOut => deadline policy peer ≤ peer.clock (calls + 1)
  | .raised e => ∃ call < calls, ∃ taskId, peer.getTask call taskId = .error e

theorem pollRounds_ends (h : pollRounds policy peer rounds calls task = some (outcome, n)) :
    Ends policy peer n outcome := by
  induction rounds generalizing calls task with
  | zero => cases h
  | succ rounds ih =>
      unfold pollRounds at h
      split at h
      · rename_i hterminal
        cases h
        exact Or.inl hterminal
      split at h
      · rename_i hstop
        cases h
        exact (PollingFallbackPolicy.shouldPollState_eq_false _).mp hstop
      split at h
      · rename_i hleft
        cases h
        unfold remaining at hleft
        exact sub_nonpos.mp hleft
      split at h
      · rename_i e he
        cases h
        exact ⟨calls, Nat.lt_succ_self calls, task.id, he⟩
      · exact ih h

/-- More rounds change nothing. -/
theorem pollRounds_mono (h : pollRounds policy peer rounds calls task = some (outcome, n))
    {more : ℕ} (hmore : rounds ≤ more) :
    pollRounds policy peer more calls task = some (outcome, n) := by
  induction rounds generalizing calls task more with
  | zero => cases h
  | succ rounds ih =>
      obtain ⟨more, rfl⟩ := Nat.exists_eq_add_of_lt (Nat.lt_of_succ_le hmore)
      unfold pollRounds at h ⊢
      split at h
      · rename_i hterminal
        rwa [if_pos hterminal]
      rename_i hterminal
      rw [if_neg hterminal]
      split at h
      · rename_i hstop
        rwa [if_pos hstop]
      rename_i hstop
      rw [if_neg hstop]
      split at h
      · rename_i hleft
        rwa [if_pos hleft]
      rename_i hleft
      rw [if_neg hleft]
      cases hreply : peer.getTask calls task.id with
      | error e =>
          rw [hreply] at h
          exact h
      | ok task =>
          rw [hreply] at h
          exact ih h (Nat.le_add_right _ _)

theorem pollRounds_budget (hvalid : policy.Valid) (hclock : Advances policy peer)
    (h : Elapsed policy peer calls) (hrounds : budget policy < calls + rounds)
    (hcalls : calls ≤ budget policy) :
    ∃ outcome n, pollRounds policy peer rounds calls task = some (outcome, n) ∧
      n ≤ budget policy := by
  induction rounds generalizing calls task with
  | zero => omega
  | succ rounds ih =>
      unfold pollRounds
      split
      · exact ⟨_, _, rfl, hcalls⟩
      split
      · exact ⟨_, _, rfl, hcalls⟩
      split
      · exact ⟨_, _, rfl, hcalls⟩
      · rename_i hleft
        have hless := h.lt_budget hvalid (not_le.mp hleft)
        cases peer.getTask calls task.id with
        | error e => exact ⟨_, _, rfl, hless⟩
        | ok task => exact ih (h.sleep hvalid hclock (not_le.mp hleft)) (by omega) hless

/-- A poll ends within its budget: with a terminal task or one that waits for the caller, with
the timeout, or with what a call of `GetTask` raised. -/
theorem poll_ends_within_budget (hvalid : policy.validate = .ok ())
    (hclock : Advances policy peer) (task : Task) :
    ∃ outcome calls, calls ≤ 1 + ⌈policy.timeoutSeconds / policy.initialIntervalSeconds⌉₊ ∧
      Ends policy peer calls outcome ∧
      ∀ rounds, 1 + ⌈policy.timeoutSeconds / policy.initialIntervalSeconds⌉₊ ≤ rounds →
        pollTaskUntilTerminal policy peer rounds task = some (outcome, calls) := by
  have hvalid := PollingFallbackPolicy.validate_eq_ok.mp hvalid
  have hpoll : ∃ outcome n, pollRounds policy peer (1 + budget policy) 0 task = some (outcome, n) ∧
      n ≤ budget policy :=
    pollRounds_budget hvalid hclock (elapsed_zero hclock) (by omega) (Nat.zero_le _)
  obtain ⟨outcome, calls, hpoll, hcalls⟩ := hpoll
  refine ⟨outcome, calls, ?_, pollRounds_ends hpoll, ?_⟩
  · exact hcalls.trans (Nat.le_add_left _ _)
  · intro rounds hrounds
    exact pollRounds_mono hpoll hrounds

end Budget

/-- A peer that takes two seconds for each call, and is done at its third. -/
def slowPeer : Peer Unit where
  clock := fun reading => 2 * reading
  getTask := fun call taskId =>
    .ok { id := taskId, status := { state := if call < 2 then .working else .completed } }

theorem slowPeer_ends_within_budget :
    ∃ outcome calls, calls ≤ 1 + 20 ∧ Ends {} slowPeer calls outcome ∧
      ∀ rounds, 1 + 20 ≤ rounds →
        pollTaskUntilTerminal {} slowPeer rounds
          { id := "t".toList, status := { state := .submitted } } = some (outcome, calls) := by
  have hclock : Advances {} slowPeer := by
    constructor
    · norm_num [slowPeer]
    · intro calls hleft
      have hmost : delay {} slowPeer calls ≤ 2 := by
        apply (min_le_left _ _).trans
        cases calls with
        | zero => norm_num [intervalAfter]
        | succ calls => exact min_le_right _ _
      simp only [slowPeer] at *
      push_cast
      linarith
  rw [← show ⌈(10 : ℚ) / (1 / 2)⌉₊ = 20 by norm_num]
  exact poll_ends_within_budget (by decide +kernel) hclock _

end OpencodeA2a.Client
