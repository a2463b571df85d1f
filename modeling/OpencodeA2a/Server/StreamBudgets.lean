import Mathlib.Data.Rat.Defs
import Mathlib.Algebra.Order.Ring.Unbundled.Rat
import Mathlib.Algebra.BigOperators.Group.List.Basic

/-!
# The budgets of a stream

`apply_stream_budget` of `server/runtime_limits.py`. A source answers each request after a
delay, with an event or with its end. A request that takes as long as the idle budget is
cancelled, and ends with the `TimeoutError` of `asyncio.wait_for`.
-/

namespace OpencodeA2a.Server

/-! ## §1  Sources and consumers -/

/-- The budgets; one that is not positive is disabled. -/
structure StreamBudgets where
  maxBytes : ℤ
  maxDurationSeconds : ℚ
  idleTimeoutSeconds : ℚ

/-- An event: how long the request for it takes, and the clock's reading afterwards. -/
structure Arrival (α : Type) where
  delay : ℚ
  now : ℚ
  event : α

/-- How it goes on behind the events that the consumer takes and asks on after. -/
inductive Finish (α ε : Type) where
  /-- the consumer waits -/
  | waiting
  /-- `StopAsyncIteration` -/
  | ends (delay : ℚ)
  | raises (delay : ℚ) (error : ε)
  /-- the consumer takes one more event and closes the generator -/
  | leaves (arrival : Arrival α)
  /-- the consumer is cancelled while it waits -/
  | cancelled

/-- The argument of `_reject_budget`. -/
inductive BudgetReason where
  | idleTimeout
  | durationBudget
  | byteBudget
deriving DecidableEq

inductive StreamExit (ε : Type) where
  | returned
  /-- `StreamBudgetExceeded` -/
  | exceeded (reason : BudgetReason)
  | raised (error : ε)
  | left
  | cancelled
deriving DecidableEq

/-- What the consumer sees, and how often the source is closed. -/
structure BudgetedStream (α ε : Type) where
  delivered : List α
  exit : Option (StreamExit ε)
  closes : ℕ

variable {α ε : Type}

/-- The `finally` clause. -/
def BudgetedStream.leave (delivered : List α) (exit : StreamExit ε) : BudgetedStream α ε :=
  ⟨delivered, some exit, 1⟩

/-! ## §2  The loop -/

/-- `started_at` and `total_bytes` -/
structure BudgetState where
  startedAt : Option ℚ
  totalBytes : ℤ

section Loop

variable (b : StreamBudgets) (sizeOf : α → ℤ) (isTimeout : ε → Bool)

/-- `asyncio.wait_for` times out. -/
def timesOut (delay : ℚ) : Prop := 0 < b.idleTimeoutSeconds ∧ b.idleTimeoutSeconds ≤ delay

instance (delay : ℚ) : Decidable (timesOut b delay) := inferInstanceAs (Decidable (_ ∧ _))

/-- `now - started_at >= max_duration_seconds` -/
def overdue (startedAt : Option ℚ) (now : ℚ) : Bool :=
  match startedAt with
  | none => false
  | some startedAt => decide (b.maxDurationSeconds ≤ now - startedAt)

/-- The loop's body for an event, up to its `yield`. -/
def enter (s : BudgetState) (a : Arrival α) : Except BudgetReason BudgetState :=
  if timesOut b a.delay then .error .idleTimeout
  else
    if 0 < b.maxDurationSeconds ∧ overdue b s.startedAt a.now then .error .durationBudget
    else
      let startedAt := if 0 < b.maxDurationSeconds then some (s.startedAt.getD a.now) else s.startedAt
      let totalBytes := if 0 < b.maxBytes then s.totalBytes + sizeOf a.event else s.totalBytes
      if 0 < b.maxBytes ∧ b.maxBytes < totalBytes then .error .byteBudget
      else .ok ⟨startedAt, totalBytes⟩

/-- `apply_stream_budget`, from a state of its loop on; `isTimeout` is
`isinstance(error, TimeoutError)`. -/
def streamFrom (s : BudgetState) : List (Arrival α) → Finish α ε → BudgetedStream α ε
  | [], .waiting => ⟨[], none, 0⟩
  | [], .ends delay =>
      .leave [] (if timesOut b delay then .exceeded .idleTimeout else .returned)
  | [], .raises delay error =>
      -- the clause does not tell the timeout of `wait_for` from the source's own
      .leave [] (if timesOut b delay ∨ isTimeout error then .exceeded .idleTimeout
        else .raised error)
  | [], .leaves a =>
      match enter b sizeOf s a with
      | .error reason => .leave [] (.exceeded reason)
      | .ok _ => .leave [a.event] .left
  | [], .cancelled => .leave [] .cancelled
  | a :: arrivals, finish =>
      match enter b sizeOf s a with
      | .error reason => .leave [] (.exceeded reason)
      | .ok s =>
          let streamed := streamFrom s arrivals finish
          { streamed with delivered := a.event :: streamed.delivered }

def applyStreamBudget (arrivals : List (Arrival α)) (finish : Finish α ε) : BudgetedStream α ε :=
  streamFrom b sizeOf isTimeout ⟨none, 0⟩ arrivals finish

end Loop

/-! ## §3  What the budgets allow -/

section Budgets

variable (b : StreamBudgets) (sizeOf : α → ℤ)

/-- After the events in front of it, an event exceeds an enabled budget. -/
structure Fits (front : List (Arrival α)) (a : Arrival α) : Prop where
  idle : 0 < b.idleTimeoutSeconds → a.delay < b.idleTimeoutSeconds
  duration : 0 < b.maxDurationSeconds → ∀ first, front.head? = some first →
    a.now - first.now < b.maxDurationSeconds
  bytes : 0 < b.maxBytes →
    (front.map fun a => sizeOf a.event).sum + sizeOf a.event ≤ b.maxBytes

/-- Behind others, events are within the enabled budgets. -/
def WithinBudgets (front arrivals : List (Arrival α)) : Prop :=
  ∀ before a after, arrivals = before ++ a :: after → Fits b sizeOf (front ++ before) a

/-- All the events the consumer asks for. -/
def allArrivals (arrivals : List (Arrival α)) : Finish α ε → List (Arrival α)
  | .leaves a => arrivals ++ [a]
  | .waiting | .ends _ | .raises _ _ | .cancelled => arrivals

/-- The end of the source comes too late. -/
def Finish.late : Finish α ε → Prop
  | .ends delay | .raises delay _ => timesOut b delay
  | .waiting | .leaves _ | .cancelled => False

/-- How the source, or the consumer, ends it. -/
def Finish.exit : Finish α ε → Option (StreamExit ε)
  | .waiting => none
  | .ends _ => some .returned
  | .raises _ error => some (.raised error)
  | .leaves _ => some .left
  | .cancelled => some .cancelled

/-- Behind others, the source is streamed as its budgets ask for: delivered are the events up to
the first that does not fit; `StreamBudgetExceeded` is raised where a budget is exceeded, and
else it ends as the source does; and the source is closed. -/
structure Exact (front arrivals : List (Arrival α)) (finish : Finish α ε)
    (streamed : BudgetedStream α ε) : Prop where
  delivered : ∃ n, streamed.delivered = ((allArrivals arrivals finish).take n).map Arrival.event ∧
    WithinBudgets b sizeOf front ((allArrivals arrivals finish).take n) ∧
    ∀ m, n < m → m ≤ (allArrivals arrivals finish).length →
      ¬ WithinBudgets b sizeOf front ((allArrivals arrivals finish).take m)
  exceeded : (∃ reason, streamed.exit = some (.exceeded reason)) ↔
    ¬ WithinBudgets b sizeOf front (allArrivals arrivals finish) ∨ finish.late b
  unchanged : WithinBudgets b sizeOf front (allArrivals arrivals finish) → ¬ finish.late b →
    streamed.exit = finish.exit
  closed : streamed.exit ≠ none → streamed.closes = 1

variable {b sizeOf} {front arrivals rest : List (Arrival α)} {a : Arrival α} {finish : Finish α ε}

theorem withinBudgets_nil : WithinBudgets b sizeOf front [] := by
  intro before a after hsplit
  cases before <;> cases hsplit

theorem withinBudgets_cons : WithinBudgets b sizeOf front (a :: arrivals) ↔
    Fits b sizeOf front a ∧ WithinBudgets b sizeOf (front ++ [a]) arrivals := by
  constructor
  · intro h
    constructor
    · have hfirst := h [] a arrivals rfl
      rwa [List.append_nil] at hfirst
    · rintro before a' after rfl
      have hlater := h (a :: before) a' after rfl
      rwa [List.append_cons] at hlater
  · rintro ⟨hfirst, hlater⟩ before a' after hsplit
    cases before with
    | nil =>
        cases hsplit
        rwa [List.append_nil]
    | cons a'' before =>
        cases hsplit
        rw [List.append_cons]
        exact hlater before a' after rfl

theorem allArrivals_cons : allArrivals (a :: arrivals) finish = a :: allArrivals arrivals finish := by
  cases finish <;> rfl

/-- Nothing is delivered of what begins with an event that does not fit. -/
theorem Exact.of_not_fits (hnot : ¬ Fits b sizeOf front a) (harrivals :
    allArrivals arrivals finish = a :: rest) (reason : BudgetReason) :
    Exact b sizeOf front arrivals finish (.leave [] (.exceeded reason)) := by
  have hout : ∀ m, 0 < m → ¬ WithinBudgets b sizeOf front ((a :: rest).take m) := by
    intro m hm hwithin
    cases m with
    | zero => exact absurd hm (lt_irrefl 0)
    | succ m => exact hnot (withinBudgets_cons.mp hwithin).1
  have hall : ¬ WithinBudgets b sizeOf front (a :: rest) := fun h => hnot (withinBudgets_cons.mp h).1
  constructor
  · refine ⟨0, rfl, withinBudgets_nil, ?_⟩
    rw [harrivals]
    exact fun m hm _ => hout m hm
  · rw [harrivals]
    exact iff_of_true ⟨reason, rfl⟩ (Or.inl hall)
  · rw [harrivals]
    exact fun hwithin => absurd hwithin hall
  · exact fun _ => rfl

/-- An event that fits is delivered, and the rest goes on behind it. -/
theorem exact_cons_iff (hfits : Fits b sizeOf front a) {streamed : BudgetedStream α ε} :
    Exact b sizeOf front (a :: arrivals) finish
        { streamed with delivered := a.event :: streamed.delivered } ↔
      Exact b sizeOf (front ++ [a]) arrivals finish streamed := by
  have hwithin : ∀ l, WithinBudgets b sizeOf front (a :: l) ↔
      WithinBudgets b sizeOf (front ++ [a]) l := fun l =>
    withinBudgets_cons.trans (and_iff_right hfits)
  constructor
  · rintro ⟨⟨n, hdelivered, hn, hlongest⟩, hexceeded, hunchanged, hclosed⟩
    rw [allArrivals_cons] at *
    cases n with
    | zero => cases hdelivered
    | succ n =>
        refine ⟨⟨n, List.tail_eq_of_cons_eq hdelivered, (hwithin _).mp hn, ?_⟩, ?_, ?_, hclosed⟩
        · intro m hm hle hwith
          exact hlongest (m + 1) (Nat.succ_lt_succ hm) (Nat.succ_le_succ hle) ((hwithin _).mpr hwith)
        · rwa [hwithin] at hexceeded
        · intro hwith
          exact hunchanged ((hwithin _).mpr hwith)
  · rintro ⟨⟨n, hdelivered, hn, hlongest⟩, hexceeded, hunchanged, hclosed⟩
    refine ⟨⟨n + 1, ?_, ?_, ?_⟩, ?_, ?_, hclosed⟩
    · rw [allArrivals_cons, List.take_succ_cons, List.map_cons, ← hdelivered]
    · rw [allArrivals_cons, List.take_succ_cons, hwithin]
      exact hn
    · rw [allArrivals_cons]
      intro m hm hle hwith
      cases m with
      | zero => exact absurd hm (Nat.not_lt_zero _)
      | succ m =>
          exact hlongest m (Nat.lt_of_succ_lt_succ hm) (Nat.le_of_succ_le_succ hle)
            ((hwithin _).mp hwith)
    · rw [allArrivals_cons, hwithin]
      exact hexceeded
    · rw [allArrivals_cons, hwithin]
      exact hunchanged

/-! ## §4  The loop keeps what the budgets ask about -/

/-- The loop's state behind some events. -/
def stateBehind (b : StreamBudgets) (sizeOf : α → ℤ) (front : List (Arrival α)) : BudgetState where
  startedAt := if 0 < b.maxDurationSeconds then front.head?.map Arrival.now else none
  totalBytes := if 0 < b.maxBytes then (front.map fun a => sizeOf a.event).sum else 0

theorem overdue_iff (hduration : 0 < b.maxDurationSeconds) {now : ℚ} :
    overdue b (stateBehind b sizeOf front).startedAt now = true ↔
      ∃ first, front.head? = some first ∧ b.maxDurationSeconds ≤ now - first.now := by
  unfold stateBehind
  rw [if_pos hduration]
  cases front.head? with
  | none => simp [overdue]
  | some first => simp [overdue]

theorem totalBytes_append (hbytes : 0 < b.maxBytes) :
    (stateBehind b sizeOf front).totalBytes + sizeOf a.event =
      (front.map fun a => sizeOf a.event).sum + sizeOf a.event := by
  unfold stateBehind
  rw [if_pos hbytes]

theorem enter_of_fits (h : Fits b sizeOf front a) :
    enter b sizeOf (stateBehind b sizeOf front) a = .ok (stateBehind b sizeOf (front ++ [a])) := by
  unfold enter
  rw [if_neg, if_neg]
  · simp only
    rw [if_neg]
    · unfold stateBehind
      congr 1
      congr 1
      · split
        · cases front <;> rfl
        · rfl
      · split
        · rw [List.map_append, List.sum_append]
          simp
        · rfl
    · rintro ⟨hbytes, hover⟩
      rw [if_pos hbytes, totalBytes_append hbytes] at hover
      exact absurd (h.bytes hbytes) (not_le.mpr hover)
  · rintro ⟨hduration, hover⟩
    obtain ⟨first, hfirst, hle⟩ := (overdue_iff hduration).mp hover
    exact absurd (h.duration hduration first hfirst) (not_lt.mpr hle)
  · rintro ⟨hidle, hle⟩
    exact absurd (h.idle hidle) (not_lt.mpr hle)

theorem enter_of_not_fits (h : ¬ Fits b sizeOf front a) :
    ∃ reason, enter b sizeOf (stateBehind b sizeOf front) a = .error reason := by
  cases henter : enter b sizeOf (stateBehind b sizeOf front) a with
  | error reason => exact ⟨reason, rfl⟩
  | ok s =>
      unfold enter at henter
      split at henter
      · cases henter
      rename_i hidle
      split at henter
      · cases henter
      rename_i hduration
      have hbytes : ¬ (0 < b.maxBytes ∧ b.maxBytes < (if 0 < b.maxBytes then
          (stateBehind b sizeOf front).totalBytes + sizeOf a.event
          else (stateBehind b sizeOf front).totalBytes)) := by
        intro hover
        rw [if_pos hover] at henter
        cases henter
      refine absurd ⟨?_, ?_, ?_⟩ h
      · intro hpos
        exact not_le.mp fun hle => hidle ⟨hpos, hle⟩
      · intro hpos first hfirst
        exact not_le.mp fun hle => hduration ⟨hpos, (overdue_iff hpos).mpr ⟨first, hfirst, hle⟩⟩
      · intro hpos
        rw [if_pos hpos, totalBytes_append hpos] at hbytes
        exact not_lt.mp fun hlt => hbytes ⟨hpos, hlt⟩

/-! ## §5  Every source -/

/-- The source raises no `TimeoutError` of its own, in time and behind events that fit. -/
def NoOwnTimeout (b : StreamBudgets) (sizeOf : α → ℤ) (isTimeout : ε → Bool)
    (front arrivals : List (Arrival α)) (finish : Finish α ε) : Prop :=
  ∀ delay error, finish = .raises delay error → WithinBudgets b sizeOf front arrivals →
    ¬ timesOut b delay → isTimeout error = false

variable {isTimeout : ε → Bool}

/-- An end without another event. -/
theorem exact_of_end (hnone : allArrivals [] finish = []) {exit : Option (StreamExit ε)} {closes : ℕ}
    (hexceeded : (∃ reason, exit = some (.exceeded reason)) ↔ finish.late b)
    (hunchanged : ¬ finish.late b → exit = finish.exit)
    (hclosed : exit ≠ none → closes = 1) :
    Exact b sizeOf front [] finish ⟨[], exit, closes⟩ := by
  constructor
  · rw [hnone]
    refine ⟨0, rfl, withinBudgets_nil, ?_⟩
    intro m hm hle
    exact absurd hm (not_lt.mpr hle)
  · rw [hnone, hexceeded]
    exact (or_iff_right (not_not.mpr withinBudgets_nil)).symm
  · exact fun _ => hunchanged
  · exact hclosed

theorem exact_nil_iff (front : List (Arrival α)) (finish : Finish α ε) :
    Exact b sizeOf front [] finish
        (streamFrom b sizeOf isTimeout (stateBehind b sizeOf front) [] finish) ↔
      NoOwnTimeout b sizeOf isTimeout front [] finish := by
  cases finish with
  | waiting =>
      refine iff_of_true (exact_of_end rfl ?_ ?_ ?_) ?_
      · exact iff_of_false (by simp) id
      · exact fun _ => rfl
      · exact fun h => absurd rfl h
      · rintro delay error ⟨⟩
  | ends delay =>
      refine iff_of_true (exact_of_end rfl ?_ ?_ ?_) ?_
      · by_cases hlate : timesOut b delay
        · rw [if_pos hlate]
          exact iff_of_true ⟨_, rfl⟩ hlate
        · rw [if_neg hlate]
          exact iff_of_false (by simp) hlate
      · intro hnot
        have hintime : ¬ timesOut b delay := hnot
        rw [if_neg hintime]
        rfl
      · exact fun _ => rfl
      · rintro _ error ⟨⟩
  | raises delay error =>
      unfold streamFrom
      by_cases hlate : timesOut b delay
      · rw [if_pos (Or.inl hlate)]
        refine iff_of_true (exact_of_end rfl ?_ ?_ ?_) ?_
        · exact iff_of_true ⟨_, rfl⟩ hlate
        · exact fun hnot => absurd hlate hnot
        · exact fun _ => rfl
        · rintro _ _ ⟨⟩ - hnot
          exact absurd hlate hnot
      · cases htimeout : isTimeout error with
        | true =>
            rw [if_pos (Or.inr rfl)]
            refine iff_of_false ?_ ?_
            · intro h
              cases h.unchanged withinBudgets_nil hlate
            · intro h
              rw [h delay error rfl withinBudgets_nil hlate] at htimeout
              cases htimeout
        | false =>
            rw [if_neg (by simp [hlate])]
            refine iff_of_true (exact_of_end rfl ?_ ?_ ?_) ?_
            · exact iff_of_false (by simp) hlate
            · exact fun _ => rfl
            · exact fun _ => rfl
            · rintro _ _ ⟨⟩ - -
              exact htimeout
  | leaves a =>
      unfold streamFrom
      by_cases hfits : Fits b sizeOf front a
      · simp only [enter_of_fits hfits]
        refine iff_of_true ?_ ?_
        · have hwithin : WithinBudgets b sizeOf front [a] :=
            withinBudgets_cons.mpr ⟨hfits, withinBudgets_nil⟩
          refine ⟨⟨1, rfl, hwithin, ?_⟩, ?_, ?_, fun _ => rfl⟩
          · intro m hm hle
            exact absurd hm (not_lt.mpr hle)
          · apply iff_of_false (by simp [BudgetedStream.leave])
            rintro (hover | hlate)
            · exact hover hwithin
            · exact hlate
          · exact fun _ _ => rfl
        · rintro _ _ ⟨⟩
      · obtain ⟨reason, hreason⟩ := enter_of_not_fits hfits
        simp only [hreason]
        refine iff_of_true (Exact.of_not_fits hfits rfl reason) ?_
        rintro _ _ ⟨⟩
  | cancelled =>
      refine iff_of_true (exact_of_end rfl ?_ ?_ ?_) ?_
      · exact iff_of_false (by simp) id
      · exact fun _ => rfl
      · exact fun _ => rfl
      · rintro delay error ⟨⟩

theorem exact_iff (front arrivals : List (Arrival α)) (finish : Finish α ε) :
    Exact b sizeOf front arrivals finish
        (streamFrom b sizeOf isTimeout (stateBehind b sizeOf front) arrivals finish) ↔
      NoOwnTimeout b sizeOf isTimeout front arrivals finish := by
  induction arrivals generalizing front with
  | nil => exact exact_nil_iff front finish
  | cons a arrivals ih =>
      unfold streamFrom
      by_cases hfits : Fits b sizeOf front a
      · simp only [enter_of_fits hfits]
        rw [exact_cons_iff hfits, ih]
        unfold NoOwnTimeout
        rw [withinBudgets_cons, and_iff_right hfits]
      · obtain ⟨reason, hreason⟩ := enter_of_not_fits hfits
        simp only [hreason]
        refine iff_of_true (Exact.of_not_fits hfits allArrivals_cons reason) ?_
        intro delay error _ hwithin
        exact absurd (withinBudgets_cons.mp hwithin).1 hfits

theorem stateBehind_nil : stateBehind b sizeOf [] = ⟨none, 0⟩ := by
  unfold stateBehind
  congr 1 <;> split <;> rfl

end Budgets

/-- The budgets are exact, and the wrapper transparent, exactly if the source raises no
`TimeoutError` of its own in time and behind events that are all within the budgets. -/
theorem stream_budget_exact_iff (b : StreamBudgets) (sizeOf : α → ℤ) (isTimeout : ε → Bool)
    (arrivals : List (Arrival α)) (finish : Finish α ε) :
    Exact b sizeOf [] arrivals finish (applyStreamBudget b sizeOf isTimeout arrivals finish) ↔
      NoOwnTimeout b sizeOf isTimeout [] arrivals finish := by
  unfold applyStreamBudget
  rw [← stateBehind_nil]
  exact exact_iff [] arrivals finish

/-- Without the condition the claim is false: with every budget disabled, a source whose own
`TimeoutError` is the first thing to happen ends as if the idle budget had been exceeded. -/
theorem own_timeout_rejected :
    (applyStreamBudget ⟨0, 0, 0⟩ (fun _ : ℕ => 0) (fun _ : Unit => true) []
        (.raises 1 ())).exit = some (.exceeded .idleTimeout) ∧
      ¬ Exact ⟨0, 0, 0⟩ (fun _ : ℕ => 0) [] [] (.raises 1 ())
        (applyStreamBudget ⟨0, 0, 0⟩ (fun _ : ℕ => 0) (fun _ : Unit => true) []
          (.raises 1 ())) := by
  have hexit : (applyStreamBudget ⟨0, 0, 0⟩ (fun _ : ℕ => 0) (fun _ : Unit => true) []
      (.raises 1 ())).exit = some (.exceeded .idleTimeout) := by
    decide +kernel
  refine ⟨hexit, ?_⟩
  intro h
  have hraised := h.unchanged withinBudgets_nil fun hlate => absurd hlate.1 (lt_irrefl 0)
  rw [hexit] at hraised
  cases hraised

end OpencodeA2a.Server
