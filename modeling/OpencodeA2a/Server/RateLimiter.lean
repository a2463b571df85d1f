import OpencodeA2a.Library.Dict
import OpencodeA2a.Library.Timed
import Mathlib.Algebra.Order.Field.Rat
import Mathlib.Data.Rat.Cast.Order
import Mathlib.Data.List.Dedup
import Mathlib.Tactic.Linarith

/-!
# The sliding-window rate limiter

`SlidingWindowRateLimiter` of `server/runtime_limits.py`. Each key has the times
of its admitted requests, pruned when the key is asked for; a call holds the
limiter's lock from its clock reading to its end, so a call is one step. Times
are rationals.
-/

namespace OpencodeA2a.Server

/-! ## §1  The limiter -/

/-- The arguments that the constructor lets through. -/
structure RateLimits where
  maxRequests : ℤ
  windowSeconds : ℚ
  maxKeys : ℤ
  maxRequests_pos : 0 < maxRequests
  windowSeconds_pos : 0 < windowSeconds
  maxKeys_pos : 0 < maxKeys

/-- `SlidingWindowRateLimiter` -/
structure RateLimiter (κ : Type) where
  limits : RateLimits
  entries : Dict κ (List ℚ)

inductive LimiterCall (κ : Type) where
  | checkAndRecord (key : κ)
  | retryAfter (key : κ)
deriving DecidableEq

inductive LimiterReply where
  | admitted (b : Bool)
  | seconds (r : ℚ)
deriving DecidableEq

def LimiterCall.key {κ : Type} : LimiterCall κ → κ
  | .checkAndRecord key | .retryAfter key => key

namespace RateLimiter

variable {κ : Type} [DecidableEq κ]

def initial (κ : Type) (limits : RateLimits) : RateLimiter κ := ⟨limits, .empty⟩

omit [DecidableEq κ] in
@[simp] theorem limits_initial (limits : RateLimits) : (initial κ limits).limits = limits := rfl

/-- `__init__`, with the text of its `ValueError` -/
def make (κ : Type) (maxRequests : ℤ) (windowSeconds : ℚ) (maxKeys : ℤ) :
    Except String (RateLimiter κ) :=
  if hrequests : maxRequests ≤ 0 then .error "max_requests must be greater than 0"
  else if hwindow : windowSeconds ≤ 0 then .error "window_seconds must be greater than 0"
  else if hkeys : maxKeys ≤ 0 then .error "max_keys must be greater than 0"
  else .ok (initial κ ⟨maxRequests, windowSeconds, maxKeys, not_le.mp hrequests,
    not_le.mp hwindow, not_le.mp hkeys⟩)

variable (l : RateLimiter κ)

/-- `_prune` -/
def prune (times : List ℚ) (now : ℚ) : List ℚ :=
  times.dropWhile fun e => l.limits.windowSeconds ≤ now - e

/-- `_evict_if_needed`: the key that was inserted first goes. -/
def evictIfNeeded : RateLimiter κ :=
  if (l.entries.items.length : ℤ) ≤ l.limits.maxKeys then l
  else
    match l.entries.items with
    | [] => l
    | stale :: _ => { l with entries := l.entries.pop stale.1 }

/-- The deque of the key holds these times now. -/
def setTimes (key : κ) (times : List ℚ) : RateLimiter κ :=
  { l with entries := l.entries.set key times }

/-- `check_and_record` -/
def checkAndRecord (now : ℚ) (key : κ) : RateLimiter κ × Bool :=
  let times := l.prune ((l.entries.get? key).getD []) now
  if l.limits.maxRequests ≤ times.length then (l.setTimes key times, false)
  else ((l.setTimes key (times ++ [now])).evictIfNeeded, true)

/-- `retry_after` -/
def retryAfter (now : ℚ) (key : κ) : RateLimiter κ × ℚ :=
  match l.entries.get? key with
  | none | some [] => (l, l.limits.windowSeconds)
  | some times =>
      let times := l.prune times now
      match times with
      | [] => (l.setTimes key times, l.limits.windowSeconds)
      | oldest :: _ => (l.setTimes key times, max 0 (oldest + l.limits.windowSeconds - now))

def perform (now : ℚ) : LimiterCall κ → RateLimiter κ × LimiterReply
  | .checkAndRecord key => ((l.checkAndRecord now key).1, .admitted (l.checkAndRecord now key).2)
  | .retryAfter key => ((l.retryAfter now key).1, .seconds (l.retryAfter now key).2)

/-- After calls, each at its time. -/
def after (calls : List (ℚ × LimiterCall κ)) : RateLimiter κ :=
  calls.foldl (fun l c => (l.perform c.1 c.2).1) l

/-- The times at which the calls admit a check of the key. -/
def admissions (k : κ) : RateLimiter κ → List (ℚ × LimiterCall κ) → List ℚ
  | _, [] => []
  | l, (now, call) :: calls =>
      (if call = .checkAndRecord k ∧ (l.perform now call).2 = .admitted true then [now] else []) ++
        admissions k (l.perform now call).1 calls

/-- The times in the window that ends at `now`. -/
def inWindow (limits : RateLimits) (now : ℚ) (times : List ℚ) : List ℚ :=
  times.filter fun e => now - limits.windowSeconds < e ∧ e ≤ now

/-! ## §2  The table is bounded -/

section Table

variable {l}

theorem length_evictIfNeeded
    (h : (l.entries.items.length : ℤ) ≤ l.limits.maxKeys + 1) :
    (l.evictIfNeeded.entries.items.length : ℤ) ≤ l.limits.maxKeys := by
  unfold evictIfNeeded
  split
  · assumption
  · rename_i hfull
    have hpositive := l.limits.maxKeys_pos
    split
    · rename_i hnil
      rw [hnil]
      exact hpositive.le
    · rename_i stale items hitems
      have hget : l.entries.get? stale.1 = some stale.2 := by
        rw [Dict.get?_eq_some, hitems]
        exact List.mem_cons_self ..
      have hlength := Dict.length_pop hget
      show ((l.entries.pop stale.1).items.length : ℤ) ≤ l.limits.maxKeys
      omega

/-- A key that is not in the table has room for a request. -/
theorem not_full_of_none (now : ℚ) {key : κ} (h : l.entries.get? key = none) :
    ¬ l.limits.maxRequests ≤ (l.prune ((l.entries.get? key).getD []) now).length := by
  have hpositive := l.limits.maxRequests_pos
  rw [h]
  show ¬ l.limits.maxRequests ≤ ((0 : ℕ) : ℤ)
  omega

theorem limits_checkAndRecord (now : ℚ) (key : κ) :
    (l.checkAndRecord now key).1.limits = l.limits := by
  unfold checkAndRecord evictIfNeeded
  simp only
  split
  · rfl
  · split
    · rfl
    · split <;> rfl

theorem limits_retryAfter (now : ℚ) (key : κ) :
    (l.retryAfter now key).1.limits = l.limits := by
  unfold retryAfter
  split
  · rfl
  · rfl
  · simp only
    split <;> rfl

theorem limits_perform (now : ℚ) (call : LimiterCall κ) :
    (l.perform now call).1.limits = l.limits := by
  cases call with
  | checkAndRecord key => exact limits_checkAndRecord now key
  | retryAfter key => exact limits_retryAfter now key

theorem length_checkAndRecord (h : (l.entries.items.length : ℤ) ≤ l.limits.maxKeys) (now : ℚ)
    (key : κ) :
    ((l.checkAndRecord now key).1.entries.items.length : ℤ) ≤ l.limits.maxKeys := by
  unfold checkAndRecord
  simp only
  cases hget : l.entries.get? key with
  | none =>
      have hroom := not_full_of_none now hget
      rw [hget] at hroom
      rw [if_neg hroom]
      apply length_evictIfNeeded
      show ((l.entries.set key _).items.length : ℤ) ≤ l.limits.maxKeys + 1
      rw [Dict.length_set_of_none hget]
      omega
  | some times =>
      split
      · show ((l.entries.set key _).items.length : ℤ) ≤ l.limits.maxKeys
        rwa [Dict.length_set_of_some hget]
      · apply length_evictIfNeeded
        show ((l.entries.set key _).items.length : ℤ) ≤ l.limits.maxKeys + 1
        rw [Dict.length_set_of_some hget]
        omega

theorem length_retryAfter (now : ℚ) (key : κ) :
    (l.retryAfter now key).1.entries.items.length = l.entries.items.length := by
  unfold retryAfter
  split
  · rfl
  · rfl
  · rename_i times hget
    simp only
    split <;> exact Dict.length_set_of_some hget _

theorem length_perform (h : (l.entries.items.length : ℤ) ≤ l.limits.maxKeys) (now : ℚ)
    (call : LimiterCall κ) :
    ((l.perform now call).1.entries.items.length : ℤ) ≤ l.limits.maxKeys := by
  cases call with
  | checkAndRecord key => exact length_checkAndRecord h now key
  | retryAfter key =>
      show (((l.retryAfter now key).1.entries.items.length : ℕ) : ℤ) ≤ l.limits.maxKeys
      rwa [length_retryAfter]

theorem limits_after (calls : List (ℚ × LimiterCall κ)) : (l.after calls).limits = l.limits := by
  induction calls generalizing l with
  | nil => rfl
  | cons c calls ih =>
      have hrest : ((l.perform c.1 c.2).1.after calls).limits = (l.perform c.1 c.2).1.limits := ih
      exact hrest.trans (limits_perform c.1 c.2)

theorem after_append (calls calls' : List (ℚ × LimiterCall κ)) :
    l.after (calls ++ calls') = (l.after calls).after calls' :=
  List.foldl_append ..

theorem length_after (h : (l.entries.items.length : ℤ) ≤ l.limits.maxKeys)
    (calls : List (ℚ × LimiterCall κ)) :
    ((l.after calls).entries.items.length : ℤ) ≤ l.limits.maxKeys := by
  induction calls generalizing l with
  | nil => exact h
  | cons c calls ih =>
      have hstep := length_perform h c.1 c.2
      have hlimits : (l.perform c.1 c.2).1.limits = l.limits := limits_perform c.1 c.2
      rw [← hlimits] at hstep ⊢
      exact ih hstep

end Table

/-! ## §3  What the table has of a key -/

section Held

variable {l}

/-- The times that the table has of the key. -/
def held (l : RateLimiter κ) (k : κ) : List ℚ := (l.entries.get? k).getD []

variable {now : ℚ} {call : LimiterCall κ} {k : κ}

theorem held_setTimes (key : κ) (times : List ℚ) :
    (l.setTimes key times).held k = if k = key then times else l.held k := by
  unfold held setTimes
  rw [Dict.get?_set]
  split <;> rfl

/-- An eviction drops a key or nothing. -/
theorem held_evictIfNeeded : (l.evictIfNeeded.held k).Sublist (l.held k) := by
  unfold evictIfNeeded
  split
  · exact .refl _
  · split
    · exact .refl _
    · unfold held
      dsimp only
      rw [Dict.get?_pop]
      split
      · exact List.nil_sublist _
      · exact .refl _

theorem held_retryAfter (key : κ) : ((l.retryAfter now key).1.held k).Sublist (l.held k) := by
  have hprune : ∀ times, l.entries.get? key = some times →
      ((l.setTimes key (l.prune times now)).held k).Sublist (l.held k) := by
    intro times hget
    rw [held_setTimes]
    split
    · rename_i hk
      subst hk
      unfold held
      rw [hget]
      exact List.dropWhile_sublist _
    · exact .refl _
  unfold retryAfter
  split
  · exact .refl _
  · exact .refl _
  · rename_i times hne hget
    dsimp only
    split <;> exact hprune times hget

/-- The times after a check, which has been admitted or not. -/
theorem held_checkAndRecord (key : κ) :
    ((l.checkAndRecord now key).1.held k).Sublist (l.held k) ∨
      (k = key ∧ (l.checkAndRecord now key).2 = true ∧
        ((l.prune (l.held k) now).length : ℤ) < l.limits.maxRequests ∧
        ((l.checkAndRecord now key).1.held k).Sublist (l.prune (l.held k) now ++ [now])) := by
  unfold checkAndRecord
  dsimp only
  split
  · left
    rw [held_setTimes]
    split
    · rename_i hk
      rw [hk]
      exact List.dropWhile_sublist _
    · exact .refl _
  · rename_i hroom
    have hevict := held_evictIfNeeded (k := k)
      (l := l.setTimes key (l.prune ((l.entries.get? key).getD []) now ++ [now]))
    rw [held_setTimes] at hevict
    split at hevict
    · rename_i hk
      subst hk
      exact .inr ⟨rfl, rfl, not_le.mp hroom, hevict⟩
    · exact .inl hevict

/-- A call that admits no check of the key adds nothing to its times. -/
theorem held_perform (h : ¬ (call = .checkAndRecord k ∧ (l.perform now call).2 = .admitted true)) :
    ((l.perform now call).1.held k).Sublist (l.held k) := by
  cases call with
  | retryAfter key => exact held_retryAfter key
  | checkAndRecord key =>
      have hcases := @held_checkAndRecord _ _ l now k key
      rcases hcases with hkept | ⟨rfl, hadmitted, -, -⟩
      · exact hkept
      · exact absurd ⟨rfl, congrArg LimiterReply.admitted hadmitted⟩ h

/-- No key ever has more times than requests are allowed. -/
theorem full_perform (h : ∀ k, ((l.held k).length : ℤ) ≤ l.limits.maxRequests) (k : κ) :
    (((l.perform now call).1.held k).length : ℤ) ≤ l.limits.maxRequests := by
  have hkept : ((l.perform now call).1.held k).Sublist (l.held k) →
      (((l.perform now call).1.held k).length : ℤ) ≤ l.limits.maxRequests := by
    intro hsub
    have hlength := hsub.length_le
    have := h k
    omega
  cases call with
  | retryAfter key => exact hkept (held_retryAfter key)
  | checkAndRecord key =>
      have hcases := @held_checkAndRecord _ _ l now k key
      rcases hcases with hsub | ⟨-, -, hroom, hsub⟩
      · exact hkept hsub
      · have hlength := hsub.length_le
        rw [List.length_append, List.length_singleton] at hlength
        show ((((l.checkAndRecord now key).1.held k).length : ℕ) : ℤ) ≤ _
        omega

theorem held_after {calls : List (ℚ × LimiterCall κ)} (h : admissions k l calls = []) :
    ((l.after calls).held k).Sublist (l.held k) := by
  induction calls generalizing l with
  | nil => exact .refl _
  | cons c calls ih =>
      obtain ⟨hfirst, hrest⟩ := List.append_eq_nil_iff.mp h
      refine (ih hrest).trans (held_perform ?_)
      intro hadmitted
      rw [if_pos hadmitted] at hfirst
      cases hfirst

theorem full_after (h : ∀ k, ((l.held k).length : ℤ) ≤ l.limits.maxRequests)
    (calls : List (ℚ × LimiterCall κ)) (k : κ) :
    (((l.after calls).held k).length : ℤ) ≤ l.limits.maxRequests := by
  induction calls generalizing l with
  | nil => exact h k
  | cons c calls ih =>
      have hlimits : (l.perform c.1 c.2).1.limits = l.limits := limits_perform c.1 c.2
      rw [← hlimits]
      refine ih fun k => ?_
      rw [hlimits]
      exact full_perform h k

theorem checkAndRecord_eq_true {key : κ} : (l.checkAndRecord now key).2 = true ↔
    ((l.prune (l.held key) now).length : ℤ) < l.limits.maxRequests := by
  unfold checkAndRecord held
  dsimp only
  split
  · rename_i hfull
    simp [hfull]
  · rename_i hroom
    simp [not_le.mp hroom]

omit [DecidableEq κ] in
theorem prune_congr {l' : RateLimiter κ} (h : l.limits = l'.limits) :
    l.prune = l'.prune := by
  unfold prune
  rw [h]

omit [DecidableEq κ] in
/-- When the oldest of its times has left the window there is room for the key. -/
theorem length_prune_lt {oldest : ℚ} {rest times : List ℚ} (hsub : times.Sublist (oldest :: rest))
    (hold : l.limits.windowSeconds ≤ now - oldest) :
    (l.prune times now).length < (oldest :: rest).length := by
  rw [List.length_cons, Nat.lt_succ_iff]
  rcases List.sublist_cons_iff.mp hsub with hrest | ⟨times', rfl, hrest⟩
  · exact ((List.dropWhile_sublist _).trans hrest).length_le
  · unfold prune
    rw [List.dropWhile_cons_of_pos (by simpa using hold)]
    exact ((List.dropWhile_sublist _).trans hrest).length_le

/-- At the time that `retry_after` tells there is room for the key. -/
theorem room_after_retryAfter {key : κ} {times : List ℚ}
    (hfull : ((l.held key).length : ℤ) ≤ l.limits.maxRequests)
    (hsub : times.Sublist ((l.retryAfter now key).1.held key)) :
    ((l.prune times (now + (l.retryAfter now key).2)).length : ℤ) < l.limits.maxRequests := by
  have hpositive := l.limits.maxRequests_pos
  have hnone : times = [] → ∀ t, ((l.prune times t).length : ℤ) < l.limits.maxRequests := by
    rintro rfl t
    exact hpositive
  unfold retryAfter at hsub ⊢
  cases hget : l.entries.get? key with
  | none =>
      simp only [hget, held, Option.getD_none] at hsub
      exact hnone (List.sublist_nil.mp hsub) _
  | some recorded =>
      cases recorded with
      | nil =>
          simp only [hget, held, Option.getD_some] at hsub
          exact hnone (List.sublist_nil.mp hsub) _
      | cons first others =>
          have hheld : l.held key = first :: others := by
            unfold held
            rw [hget]
            rfl
          cases hpruned : l.prune (first :: others) now with
          | nil =>
              simp only [hget, hpruned, held_setTimes, if_pos] at hsub
              exact hnone (List.sublist_nil.mp hsub) _
          | cons oldest rest =>
              simp only [hget, hpruned, held_setTimes, if_pos] at hsub ⊢
              have hkept : (oldest :: rest).length ≤ (first :: others).length := by
                rw [← hpruned]
                exact (List.dropWhile_sublist _).length_le
              have hlonger := le_max_right 0 (oldest + l.limits.windowSeconds - now)
              have hgone := @length_prune_lt _ l (now + max 0 (oldest + l.limits.windowSeconds - now))
                _ _ _ hsub (by linarith)
              rw [hheld] at hfull
              omega

end Held

/-! ## §4  The log of the admitted requests -/

section Log

variable {l}

omit [DecidableEq κ] in
/-- What expires from the front of a sorted list is what a filter drops. -/
theorem prune_eq {times : List ℚ} (h : times.Pairwise (· ≤ ·)) (now : ℚ) :
    l.prune times now = times.filter fun e => now - l.limits.windowSeconds < e := by
  unfold prune
  induction times with
  | nil => rfl
  | cons e times ih =>
      rw [List.pairwise_cons] at h
      by_cases he : l.limits.windowSeconds ≤ now - e
      · have hold : ¬ now - l.limits.windowSeconds < e := by linarith
        rw [List.dropWhile_cons_of_pos (by simpa using he), ih h.2,
          List.filter_cons_of_neg (by simpa using hold)]
      · have hnew : ∀ x ∈ e :: times, now - l.limits.windowSeconds < x := by
          rw [not_le] at he
          intro x hx
          rcases List.mem_cons.mp hx with rfl | hx
          · linarith
          · have := h.1 x hx
            linarith
        rw [List.dropWhile_cons_of_neg (by simpa using he), eq_comm, List.filter_eq_self]
        simpa using hnew

/-- The table of a limiter that has room for all keys `known`, beside the log of the admitted
requests: a key has the log's times, but for some that have left the window. -/
structure Tracks (known : List κ) (l : RateLimiter κ) (now : ℚ) (log : κ → List ℚ) : Prop where
  room : (known.length : ℤ) ≤ l.limits.maxKeys
  known : ∀ k ∈ l.entries.keys, k ∈ known
  sorted : ∀ k, (log k).Pairwise (· ≤ ·)
  past : ∀ k, ∀ e ∈ log k, e ≤ now
  kept : ∀ k, ((l.entries.get? k).getD []).Sublist (log k)
  recent : ∀ k, ((l.entries.get? k).getD []).filter (fun e => now - l.limits.windowSeconds < e) =
    (log k).filter fun e => now - l.limits.windowSeconds < e
  full : ∀ k, (((l.entries.get? k).getD []).length : ℤ) ≤ l.limits.maxRequests

variable {known : List κ} {now t : ℚ} {log log' : κ → List ℚ} {key : κ}

/-- What is in the window later was in it before. -/
theorem filter_later (h : now ≤ t) (w : ℚ) (xs : List ℚ) :
    xs.filter (fun e => t - w < e) = (xs.filter fun e => now - w < e).filter fun e => t - w < e := by
  rw [List.filter_filter]
  refine List.filter_congr fun e _ => ?_
  have hmono : t - w < e → now - w < e := fun he => by linarith
  simpa using hmono

theorem tracks_initial {limits : RateLimits} (h : (known.length : ℤ) ≤ limits.maxKeys) :
    Tracks known (initial κ limits) now fun _ => [] := by
  refine ⟨h, ?_, fun _ => .nil, ?_, fun _ => .slnil, fun _ => rfl, ?_⟩
  · exact fun k hk => by cases hk
  · exact fun k e he => by cases he
  · exact fun _ => limits.maxRequests_pos.le

theorem Tracks.later (h : Tracks known l now log) (ht : now ≤ t) : Tracks known l t log := by
  refine ⟨h.room, h.known, h.sorted, ?_, h.kept, ?_, h.full⟩
  · exact fun k e he => (h.past k e he).trans ht
  · intro k
    rw [filter_later ht, h.recent k, ← filter_later ht]

variable (key) in
/-- What the limiter finds in the window is what the log has in it. -/
theorem Tracks.prune (h : Tracks known l now log) :
    l.prune ((l.entries.get? key).getD []) now = inWindow l.limits now (log key) := by
  rw [prune_eq ((h.sorted key).sublist (h.kept key)), h.recent key]
  refine List.filter_congr fun e he => ?_
  have hpast := h.past key e he
  simp [hpast]

variable (key) in
theorem Tracks.length_prune (h : Tracks known l now log) :
    ((l.prune ((l.entries.get? key).getD []) now).length : ℤ) ≤ l.limits.maxRequests := by
  have hle : (l.prune ((l.entries.get? key).getD []) now).length ≤
      ((l.entries.get? key).getD []).length := (List.dropWhile_sublist _).length_le
  have := h.full key
  omega

/-- The key gets new times; the log may have one more of the key, too. -/
theorem Tracks.set (h : Tracks known l now log) (hkey : key ∈ known) {times : List ℚ}
    (hother : ∀ k, k ≠ key → log' k = log k) (hsorted : (log' key).Pairwise (· ≤ ·))
    (hpast : ∀ e ∈ log' key, e ≤ now) (hkept : times.Sublist (log' key))
    (hrecent : times.filter (fun e => now - l.limits.windowSeconds < e) =
      (log' key).filter fun e => now - l.limits.windowSeconds < e)
    (hfull : (times.length : ℤ) ≤ l.limits.maxRequests) :
    Tracks known (l.setTimes key times) now log' := by
  have hget : ∀ k, ((l.entries.set key times).get? k).getD [] =
      if k = key then times else (l.entries.get? k).getD [] := by
    intro k
    rw [Dict.get?_set]
    split <;> rfl
  have hcases : ∀ (P : List ℚ → List ℚ → Prop), P times (log' key) →
      (∀ k, P ((l.entries.get? k).getD []) (log k)) →
      ∀ k, P (((l.entries.set key times).get? k).getD []) (log' k) := by
    intro P hself hrest k
    rw [hget]
    split
    · rename_i hk
      rw [hk]
      exact hself
    · rename_i hk
      rw [hother k hk]
      exact hrest k
  refine ⟨h.room, ?_, ?_, ?_, ?_, ?_, ?_⟩
  · intro k hk
    rcases Dict.mem_keys_assign.mp hk with rfl | hk
    · exact hkey
    · exact h.known k hk
  · exact hcases (fun _ log => log.Pairwise (· ≤ ·)) hsorted h.sorted
  · exact hcases (fun _ log => ∀ e ∈ log, e ≤ now) hpast h.past
  · exact hcases List.Sublist hkept h.kept
  · exact hcases (fun times log => times.filter (fun e => now - l.limits.windowSeconds < e) =
      log.filter fun e => now - l.limits.windowSeconds < e) hrecent h.recent
  · exact hcases (fun times _ => (times.length : ℤ) ≤ l.limits.maxRequests) hfull h.full

/-- Nothing is evicted while there is room for all keys. -/
theorem Tracks.evictIfNeeded (h : Tracks known l now log) : l.evictIfNeeded = l := by
  unfold RateLimiter.evictIfNeeded
  have hlength := Dict.length_le_of_keys h.known
  have hroom := h.room
  rw [if_pos (by omega)]

/-- Pruning alone. -/
theorem Tracks.pruned (h : Tracks known l now log) (hkey : key ∈ known) :
    Tracks known (l.setTimes key (l.prune ((l.entries.get? key).getD []) now)) now log := by
  apply h.set hkey (fun _ _ => rfl) (h.sorted key) (h.past key)
  · exact (List.dropWhile_sublist _).trans (h.kept key)
  · rw [prune_eq ((h.sorted key).sublist (h.kept key)), List.filter_filter]
    simp only [Bool.and_self]
    exact h.recent key
  · exact h.length_prune key

/-- The log after a call. -/
def logged (log : κ → List ℚ) (now : ℚ) (call : LimiterCall κ) (reply : LimiterReply) (k : κ) :
    List ℚ :=
  log k ++ if call = .checkAndRecord k ∧ reply = .admitted true then [now] else []

theorem Tracks.checkAndRecord (h : Tracks known l now log) (hkey : key ∈ known) :
    Tracks known (l.checkAndRecord now key).1 now
      (logged log now (.checkAndRecord key) (.admitted (l.checkAndRecord now key).2)) := by
  have hunfold : l.checkAndRecord now key =
      if l.limits.maxRequests ≤ (l.prune ((l.entries.get? key).getD []) now).length then
        (l.setTimes key (l.prune ((l.entries.get? key).getD []) now), false)
      else ((l.setTimes key
        (l.prune ((l.entries.get? key).getD []) now ++ [now])).evictIfNeeded, true) := rfl
  rw [hunfold]
  split
  · have hlog : logged log now (.checkAndRecord key) (.admitted false) = log := by
      ext1 k
      simp [logged]
    rw [hlog]
    exact h.pruned hkey
  · rename_i hroom
    have hself : logged log now (.checkAndRecord key) (.admitted true) key = log key ++ [now] := by
      simp [logged]
    have hset : Tracks known
        (l.setTimes key (l.prune ((l.entries.get? key).getD []) now ++ [now])) now
        (logged log now (.checkAndRecord key) (.admitted true)) := by
      apply h.set hkey
      · intro k hk
        simp [logged, Ne.symm hk]
      · rw [hself, List.pairwise_append]
        refine ⟨h.sorted key, List.pairwise_singleton _ _, ?_⟩
        intro e he x hx
        rw [List.mem_singleton.mp hx]
        exact h.past key e he
      · rw [hself]
        intro e he
        rcases List.mem_append.mp he with he | he
        · exact h.past key e he
        · exact (List.mem_singleton.mp he).le
      · rw [hself]
        exact ((List.dropWhile_sublist _).trans (h.kept key)).append (List.Sublist.refl _)
      · rw [hself, List.filter_append, List.filter_append,
          prune_eq ((h.sorted key).sublist (h.kept key)), List.filter_filter]
        simp only [Bool.and_self]
        rw [h.recent key]
      · rw [List.length_append, List.length_singleton]
        push_cast
        omega
    rw [hset.evictIfNeeded]
    exact hset

theorem Tracks.retryAfter (h : Tracks known l now log) (hkey : key ∈ known) :
    Tracks known (l.retryAfter now key).1 now log := by
  unfold RateLimiter.retryAfter
  split
  · exact h
  · exact h
  · rename_i times hget
    have hpruned := h.pruned hkey
    rw [hget] at hpruned
    simp only
    split <;> exact hpruned

theorem Tracks.perform (h : Tracks known l now log) (ht : now ≤ t) {call : LimiterCall κ}
    (hkey : call.key ∈ known) :
    Tracks known (l.perform t call).1 t (logged log t call (l.perform t call).2) := by
  have ht' := h.later ht
  cases call with
  | checkAndRecord key => exact ht'.checkAndRecord hkey
  | retryAfter key =>
      have hlog : logged log t (.retryAfter key) (l.perform t (.retryAfter key)).2 = log := by
        ext1 k
        simp [logged]
      rw [hlog]
      exact ht'.retryAfter hkey

theorem admissions_append (k : κ) (calls calls' : List (ℚ × LimiterCall κ)) :
    admissions k l (calls ++ calls') = admissions k l calls ++ admissions k (l.after calls) calls' := by
  induction calls generalizing l with
  | nil => rfl
  | cons c calls ih =>
      simp only [List.cons_append, admissions, ih, List.append_assoc]
      rfl

/-- A limiter that has room for every key of its history. -/
theorem tracks_after {limits : RateLimits} {calls : List (ℚ × LimiterCall κ)}
    (hroom : (known.length : ℤ) ≤ limits.maxKeys) (hclock : Chronological calls)
    (hlast : ∀ c ∈ calls, c.1 ≤ t) (hkeys : ∀ c ∈ calls, c.2.key ∈ known) :
    Tracks known ((initial κ limits).after calls) t
      fun k => admissions k (initial κ limits) calls := by
  have hrun := hclock.invariant (f := fun l c => (l.perform c.1 c.2).1)
    (I := fun calls now l => l = (initial κ limits).after calls ∧
      Tracks known l now fun k => admissions k (initial κ limits) calls)
    (s := initial κ limits) (P := fun c => c.2.key ∈ known) ?_ ?_ ?_ hkeys hlast
  · exact hrun.2
  · exact fun _ => ⟨rfl, tracks_initial hroom⟩
  · exact fun _ _ _ _ h ht => ⟨h.1, h.2.later ht⟩
  · rintro calls now l call hkey ⟨rfl, h⟩
    have hlog : (fun k => admissions k (initial κ limits) (calls ++ [(now, call)])) =
        logged (fun k => admissions k (initial κ limits) calls) now call
          (((initial κ limits).after calls).perform now call).2 := by
      ext1 k
      rw [admissions_append]
      simp only [admissions, logged, List.append_nil]
    refine ⟨(after_append calls [(now, call)]).symm, ?_⟩
    rw [hlog]
    exact h.perform le_rfl hkey

end Log

/-! ## §5  The window -/

section Window

variable {l} {known : List κ} {now t u : ℚ} {log : κ → List ℚ} {key : κ}

variable (key) in
theorem Tracks.admits (h : Tracks known l now log) :
    (l.checkAndRecord now key).2 = true ↔
      ((inWindow l.limits now (log key)).length : ℤ) < l.limits.maxRequests := by
  rw [checkAndRecord_eq_true, held, h.prune key]

variable (key) in
/-- While the window is full, `retry_after` tells when the oldest request in it leaves. -/
theorem Tracks.retryAfter_eq (h : Tracks known l now log)
    (hfull : l.limits.maxRequests ≤ (inWindow l.limits now (log key)).length) :
    ∃ oldest rest, inWindow l.limits now (log key) = oldest :: rest ∧
      (l.retryAfter now key).2 = oldest + l.limits.windowSeconds - now := by
  have hpositive := l.limits.maxRequests_pos
  have hprune := h.prune key
  cases hwindow : inWindow l.limits now (log key) with
  | nil =>
      rw [hwindow] at hfull
      exact absurd hfull (not_le.mpr hpositive)
  | cons oldest rest =>
      refine ⟨oldest, rest, rfl, ?_⟩
      rw [hwindow] at hprune
      have hmem : oldest ∈ inWindow l.limits now (log key) := by
        rw [hwindow]
        exact List.mem_cons_self ..
      have hrecent : now - l.limits.windowSeconds < oldest := by
        have := (List.mem_filter.mp hmem).2
        simp only [Bool.decide_and, Bool.and_eq_true, decide_eq_true_eq] at this
        exact this.1
      unfold RateLimiter.retryAfter
      cases hget : l.entries.get? key with
      | none =>
          rw [hget] at hprune
          cases hprune
      | some times =>
          cases times with
          | nil =>
              rw [hget] at hprune
              cases hprune
          | cons e times =>
              rw [hget] at hprune
              simp only [Option.getD_some] at hprune
              simp only [hprune]
              apply max_eq_right
              linarith

variable (key) in
/-- The window of a later time, where nothing was admitted in between. -/
theorem Tracks.inWindow_later (h : Tracks known l now log) (ht : now ≤ t) :
    inWindow l.limits t (log key) =
      (inWindow l.limits now (log key)).filter fun e => t - l.limits.windowSeconds < e := by
  have hrecent : ∀ {s}, now ≤ s → inWindow l.limits s (log key) =
      (log key).filter fun e => s - l.limits.windowSeconds < e := by
    intro s hs
    refine List.filter_congr fun e he => ?_
    have hpast := (h.past key e he).trans hs
    simp [hpast]
  rw [hrecent ht, hrecent le_rfl, filter_later ht]

end Window

/-! ## §6  The sliding window -/

/-- The distinct keys of the calls are at most `max_keys`. -/
def Fits (limits : RateLimits) (calls : List (ℚ × LimiterCall κ)) : Prop :=
  ((calls.map fun c => c.2.key).dedup.length : ℤ) ≤ limits.maxKeys

/-- A check of the key, `retry_after` and another check of it, with any calls around them. -/
structure Retry (κ : Type) where
  key : κ
  before : List (ℚ × LimiterCall κ)
  rejectedAt : ℚ
  between : List (ℚ × LimiterCall κ)
  askedAt : ℚ
  later : List (ℚ × LimiterCall κ)
  triedAt : ℚ

namespace Retry

variable (limits : RateLimits) (x : Retry κ)

def asking : List (ℚ × LimiterCall κ) :=
  x.before ++ (x.rejectedAt, .checkAndRecord x.key) :: x.between

def trying : List (ℚ × LimiterCall κ) := x.asking ++ (x.askedAt, .retryAfter x.key) :: x.later

def calls : List (ℚ × LimiterCall κ) := x.trying ++ [(x.triedAt, .checkAndRecord x.key)]

/-- The first check is rejected, and no check of the key is admitted before the second. -/
def Rejected : Prop :=
  admissions x.key ((initial κ limits).after x.before)
    ((x.rejectedAt, .checkAndRecord x.key) :: x.between ++
      (x.askedAt, .retryAfter x.key) :: x.later) = []

/-- No request leaves the window between the rejection and `retry_after`. -/
def Prompt : Prop :=
  ∀ e ∈ admissions x.key (initial κ limits) x.before,
    x.rejectedAt - limits.windowSeconds < e → x.askedAt - limits.windowSeconds < e

/-- What `retry_after` returns. -/
def seconds : ℚ := (((initial κ limits).after x.asking).retryAfter x.askedAt x.key).2

/-- Whether the second check is admitted. -/
def admitted : Bool := (((initial κ limits).after x.trying).checkAndRecord x.triedAt x.key).2

variable {limits x}

/-- No check of the key is admitted from the rejection on. -/
theorem Rejected.admissions (h : x.Rejected limits) :
    admissions x.key (initial κ limits) x.asking = admissions x.key (initial κ limits) x.before ∧
      admissions x.key (initial κ limits) x.trying =
        admissions x.key (initial κ limits) x.before := by
  have htrying : x.trying = x.before ++ ((x.rejectedAt, .checkAndRecord x.key) :: x.between ++
      (x.askedAt, .retryAfter x.key) :: x.later) := List.append_assoc ..
  have hasking := h
  unfold Rejected at hasking
  rw [admissions_append, List.append_eq_nil_iff] at hasking
  constructor
  · unfold asking
    rw [admissions_append, hasking.1, List.append_nil]
  · rw [htrying, admissions_append, h, List.append_nil]

theorem Rejected.later (h : x.Rejected limits) : RateLimiter.admissions x.key
    (((initial κ limits).after x.asking).retryAfter x.askedAt x.key).1 x.later = [] := by
  have hasking : (initial κ limits).after x.asking = ((initial κ limits).after x.before).after
      ((x.rejectedAt, .checkAndRecord x.key) :: x.between) := after_append ..
  unfold Rejected at h
  rw [admissions_append, List.append_eq_nil_iff, ← hasking] at h
  exact (List.append_eq_nil_iff.mp h.2).2

theorem Rejected.reply (h : x.Rejected limits) :
    (((initial κ limits).after x.before).checkAndRecord x.rejectedAt x.key).2 = false := by
  unfold Rejected at h
  simp only [List.cons_append, RateLimiter.admissions, List.append_eq_nil_iff] at h
  have hfirst := h.1
  rw [← Bool.not_eq_true]
  intro hadmitted
  simp [RateLimiter.perform, hadmitted] at hfirst

/-- The keys of all calls. -/
def known (x : Retry κ) : List κ := (x.calls.map fun c => c.2.key).dedup

/-- What is in the limiter before each of the three calls. -/
theorem tracked (hclock : Chronological x.calls) (hfits : Fits limits x.calls) :
    x.rejectedAt ≤ x.askedAt ∧ x.askedAt ≤ x.triedAt ∧
      Tracks x.known ((initial κ limits).after x.before) x.rejectedAt
        (fun k => RateLimiter.admissions k (initial κ limits) x.before) ∧
      Tracks x.known ((initial κ limits).after x.asking) x.askedAt
        (fun k => RateLimiter.admissions k (initial κ limits) x.asking) ∧
      Tracks x.known ((initial κ limits).after x.trying) x.triedAt
        (fun k => RateLimiter.admissions k (initial κ limits) x.trying) := by
  obtain ⟨htrying, -, hlast⟩ := hclock.append
  obtain ⟨hasking, -, hasked⟩ := htrying.append
  obtain ⟨hbefore, -, hrejectedAt⟩ := hasking.append
  have hkeys : ∀ c ∈ x.calls, c.2.key ∈ x.known := by
    intro c hc
    unfold known
    rw [List.mem_dedup]
    exact List.mem_map_of_mem (f := fun c : ℚ × LimiterCall κ => c.2.key) hc
  have hkeysTrying := fun c hc => hkeys c (List.mem_append_left _ hc)
  have hkeysAsking := fun c hc => hkeysTrying c (List.mem_append_left _ hc)
  refine ⟨?_, ?_, ?_, ?_, ?_⟩
  · exact hasked (x.rejectedAt, .checkAndRecord x.key)
      (List.mem_append_right _ (List.mem_cons_self ..)) _ (List.mem_cons_self ..)
  · exact hlast _ (List.mem_append_right _ (List.mem_cons_self ..)) _ (List.mem_singleton_self _)
  · exact tracks_after hfits hbefore (fun c hc => hrejectedAt c hc _ (List.mem_cons_self ..))
      (fun c hc => hkeysAsking c (List.mem_append_left _ hc))
  · exact tracks_after hfits hasking (fun c hc => hasked c hc _ (List.mem_cons_self ..)) hkeysAsking
  · exact tracks_after hfits htrying (fun c hc => hlast c hc _ (List.mem_singleton_self _))
      hkeysTrying

/-- When `retry_after` is asked the window is as full as it was at the rejection. -/
theorem asked_full (hrejected : x.Rejected limits) (hprompt : x.Prompt limits)
    (hnow : x.rejectedAt ≤ x.askedAt)
    (htracks : Tracks x.known ((initial κ limits).after x.before) x.rejectedAt
      fun k => RateLimiter.admissions k (initial κ limits) x.before) :
    limits.maxRequests ≤ (inWindow limits x.askedAt
      (RateLimiter.admissions x.key (initial κ limits) x.before)).length := by
  have hfull := htracks.admits x.key
  have hwindow := htracks.inWindow_later x.key hnow
  simp only [limits_after, limits_initial] at hfull hwindow
  rw [hrejected.reply] at hfull
  rw [List.filter_eq_self.mpr] at hwindow
  · rw [hwindow]
    apply not_lt.mp
    intro hlt
    cases hfull.mpr hlt
  · intro e he
    obtain ⟨hmem, hin⟩ := List.mem_filter.mp he
    simp only [Bool.decide_and, Bool.and_eq_true, decide_eq_true_eq] at hin
    simpa using hprompt e hmem hin.1

omit [DecidableEq κ] in
/-- Until the oldest request leaves the window, all of them are in it. -/
theorem filter_of_early {oldest t : ℚ} {rest : List ℚ}
    (hsorted : (oldest :: rest).Pairwise (· ≤ ·)) (hearly : t < oldest + limits.windowSeconds) :
    ((oldest :: rest).filter fun e => t - limits.windowSeconds < e) = oldest :: rest := by
  rw [List.pairwise_cons] at hsorted
  rw [List.filter_eq_self]
  intro e he
  rw [decide_eq_true_eq]
  rcases List.mem_cons.mp he with rfl | he
  · linarith
  · have := hsorted.1 e he
    linarith

/-- Before the time that `retry_after` tells a check is rejected. -/
theorem rejected_before (hclock : Chronological x.calls) (hfits : Fits limits x.calls)
    (hrejected : x.Rejected limits) (hprompt : x.Prompt limits)
    (hearly : x.triedAt < x.askedAt + x.seconds limits) : x.admitted limits = false := by
  obtain ⟨hnow, hle, hfirst, hsecond, hthird⟩ := tracked hclock hfits
  have hfull := asked_full hrejected hprompt hnow hfirst
  -- the log is the same from the rejection on
  obtain ⟨hlogAsking, hlogTrying⟩ := hrejected.admissions
  have hwindow := hsecond.inWindow_later x.key hle
  have hretry := hsecond.retryAfter_eq x.key
  have hadmits := hthird.admits x.key
  simp only [limits_after, limits_initial, hlogAsking, hlogTrying] at hwindow hretry hadmits
  obtain ⟨oldest, rest, hoh, hseconds⟩ := hretry hfull
  have hsorted : (oldest :: rest).Pairwise (· ≤ ·) := by
    rw [← hoh]
    exact (hfirst.sorted x.key).sublist List.filter_sublist
  change x.seconds limits = _ at hseconds
  change x.admitted limits = true ↔ _ at hadmits
  rw [hseconds] at hearly
  rw [hoh] at hwindow hfull
  rw [filter_of_early hsorted (by linarith)] at hwindow
  rw [← Bool.not_eq_true, hadmits, hwindow, not_lt]
  exact hfull

/-- At that time the oldest request has left, whatever other keys were asked for or evicted. -/
theorem admitted_at (hrejected : x.Rejected limits)
    (hdue : x.triedAt = x.askedAt + x.seconds limits) : x.admitted limits = true := by
  have htrying : (initial κ limits).after x.trying =
      (((initial κ limits).after x.asking).retryAfter x.askedAt x.key).1.after x.later :=
    after_append ..
  have hfull : ((((initial κ limits).after x.asking).held x.key).length : ℤ) ≤
      ((initial κ limits).after x.asking).limits.maxRequests := by
    rw [limits_after]
    exact full_after (l := initial κ limits) (fun _ => limits.maxRequests_pos.le) x.asking x.key
  have hlater := held_after hrejected.later
  rw [← htrying] at hlater
  have hroom := room_after_retryAfter hfull hlater
  rw [limits_after] at hroom
  unfold admitted
  rw [checkAndRecord_eq_true, limits_after, hdue,
    prune_congr ((limits_after _).trans (limits_after x.asking).symm)]
  exact hroom

end Retry

/-- A check is admitted exactly when the window has room, and the table holds no more than
`max_keys` keys. At the time that `retry_after` tells after a rejection a check of the key is
admitted, and none is before it as long as no request of the key leaves the window in between. -/
theorem sliding_window (limits : RateLimits) :
    (∀ (calls : List (ℚ × LimiterCall κ)) (t : ℚ) (k : κ),
      Chronological (calls ++ [(t, .checkAndRecord k)]) →
      Fits limits (calls ++ [(t, .checkAndRecord k)]) →
      ((((initial κ limits).after calls).checkAndRecord t k).2 = true ↔
        ((inWindow limits t (admissions k (initial κ limits) calls)).length : ℤ) <
          limits.maxRequests)) ∧
    (∀ calls : List (ℚ × LimiterCall κ),
      (((initial κ limits).after calls).entries.items.length : ℤ) ≤ limits.maxKeys) ∧
    ∀ x : Retry κ, x.Rejected limits →
      (x.triedAt = x.askedAt + x.seconds limits → x.admitted limits = true) ∧
        (Chronological x.calls → Fits limits x.calls → x.Prompt limits →
          x.triedAt < x.askedAt + x.seconds limits → x.admitted limits = false) := by
  refine ⟨?_, ?_, ?_⟩
  · intro calls t k hclock hfits
    obtain ⟨hcalls, hlast⟩ := hclock.concat
    have htracks := tracks_after hfits hcalls hlast
      (fun c hc => List.mem_dedup.mpr (List.mem_map_of_mem (f := fun c : ℚ × LimiterCall κ => c.2.key)
        (List.mem_append_left _ hc)))
    have hadmits := htracks.admits k
    rwa [limits_after] at hadmits
  · intro calls
    have hempty : ((initial κ limits).entries.items.length : ℤ) ≤ (initial κ limits).limits.maxKeys :=
      limits.maxKeys_pos.le
    exact length_after hempty calls
  · intro x hrejected
    exact ⟨Retry.admitted_at hrejected, fun hclock hfits hprompt =>
      Retry.rejected_before hclock hfits hrejected hprompt⟩

/-- Two requests in ten seconds. -/
def exampleLimits : RateLimits := ⟨2, 10, 2, by decide, by decide, by decide⟩

/-- The requests of 0 s and 5 s fill the window; `retry_after` is asked right after the
rejection. -/
def promptRetry : Retry String where
  key := "ip:a"
  before := [(0, .checkAndRecord "ip:a"), (5, .checkAndRecord "ip:a"), (6, .checkAndRecord "ip:b")]
  rejectedAt := 9
  between := []
  askedAt := 9
  later := []
  triedAt := 10

/-- The first request leaves the window before `retry_after` is asked. -/
def tardyRetry : Retry String := { promptRetry with askedAt := 11, triedAt := 12 }

theorem prompt_retry_admitted :
    promptRetry.seconds exampleLimits = 1 ∧ promptRetry.admitted exampleLimits = true ∧
      ({ promptRetry with triedAt := 9 } : Retry String).admitted exampleLimits = false := by
  have hclock : Chronological ({ promptRetry with triedAt := 9 } : Retry String).calls := by
    unfold Chronological; decide +kernel
  have hprompt : ({ promptRetry with triedAt := 9 } : Retry String).Prompt exampleLimits := by
    unfold Retry.Prompt; decide +kernel
  have hretry := (sliding_window exampleLimits).2.2 promptRetry (by unfold Retry.Rejected; decide +kernel)
  have hearly := (sliding_window exampleLimits).2.2 { promptRetry with triedAt := 9 }
    (by unfold Retry.Rejected; decide +kernel)
  exact ⟨by decide +kernel, hretry.1 (by decide +kernel),
    hearly.2 hclock (by unfold Fits; decide +kernel) hprompt (by decide +kernel)⟩

theorem tardy_retry_admitted_early :
    Chronological tardyRetry.calls ∧ Fits exampleLimits tardyRetry.calls ∧
      tardyRetry.Rejected exampleLimits ∧
      tardyRetry.triedAt < tardyRetry.askedAt + tardyRetry.seconds exampleLimits ∧
      tardyRetry.admitted exampleLimits = true := by
  refine ⟨?_, ?_, ?_, by decide +kernel, by decide +kernel⟩
  · unfold Chronological; decide +kernel
  · unfold Fits; decide +kernel
  · unfold Retry.Rejected; decide +kernel

end RateLimiter

end OpencodeA2a.Server
