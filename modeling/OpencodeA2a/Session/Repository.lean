import Mathlib.Logic.Function.Basic
import Mathlib.Data.Int.Order.Basic

/-!
# The database session-state repository

`DatabaseSessionStateRepository` of `server/state_store.py`: three tables,
each operation one transaction. An identity and a session id are never the
empty string (the executor falls back to `anonymous`, the JSON-RPC guard and
`get_or_create_session` test for truth, `create_session` rejects an empty id),
so the source's truth tests on them are tests for presence.
-/

namespace OpencodeA2a.Session

/-! ## §1  The tables -/

/-- An authenticated caller. -/
structure Identity where
  name : String
  nonempty : name ≠ ""
deriving DecidableEq

/-- An upstream session id. -/
structure SessionId where
  value : String
  nonempty : value ≠ ""
deriving DecidableEq

/-- `session_binding_context_id`: the context id, possibly with a workspace or
directory suffix. -/
abbrev ContextId := String

/-- `cache_key` of the session manager. -/
abbrev Key := Identity × ContextId

/-- A row of the pending-claims table; `expires_at` is null on legacy rows.
Clock readings are integers, in ticks of any resolution. -/
structure PendingClaim where
  identity : Identity
  expiresAt : Option Int
deriving DecidableEq

def PendingClaim.expired (now : Int) (c : PendingClaim) : Bool :=
  match c.expiresAt with
  | some e => decide (e ≤ now)
  | none => false

structure Repository where
  bindings : Key → Option SessionId
  owners : SessionId → Option Identity
  claims : SessionId → Option PendingClaim

def Repository.empty : Repository where
  bindings := fun _ => none
  owners := fun _ => none
  claims := fun _ => none

/-! ## §2  The operations -/

namespace Repository

/-- `_prune_expired_pending_claims`. -/
def prune (ttl now : Int) (r : Repository) : Repository :=
  { r with claims := fun s =>
      if ttl ≤ 0 then none
      else match r.claims s with
        | some c => if c.expired now then none else some c
        | none => none }

def setSession (k : Key) (s : SessionId) (r : Repository) : Repository :=
  { r with bindings := Function.update r.bindings k (some s) }

def popSession (k : Key) (r : Repository) : Repository :=
  { r with bindings := Function.update r.bindings k none }

def setOwner (s : SessionId) (a : Identity) (r : Repository) : Repository :=
  { r with owners := Function.update r.owners s (some a) }

def dropClaim (s : SessionId) (r : Repository) : Repository :=
  { r with claims := Function.update r.claims s none }

/-- `get_pending_claim`: prunes first, then also drops a row that has no expiry
or an expiry that has passed. -/
def getPendingClaim (ttl now : Int) (s : SessionId) (r : Repository) :
    Repository × Option Identity :=
  let r₁ := r.prune ttl now
  match r₁.claims s with
  | none => (r₁, none)
  | some c =>
      match c.expiresAt with
      | none => (r₁.dropClaim s, none)
      | some e => if e ≤ now then (r₁.dropClaim s, none) else (r₁, some c.identity)

/-- `set_pending_claim`: a non-positive TTL turns it into a deletion. -/
def setPendingClaim (ttl now : Int) (s : SessionId) (a : Identity) (r : Repository) :
    Repository :=
  let r₁ := r.prune ttl now
  if ttl ≤ 0 then r₁.dropClaim s
  else { r₁ with claims := Function.update r₁.claims s (some ⟨a, some (now + ttl)⟩) }

/-- `clear_pending_claim` with an identity: deletes that identity's row only. -/
def clearPendingClaim (s : SessionId) (a : Identity) (r : Repository) : Repository :=
  match r.claims s with
  | some c => if c.identity = a then r.dropClaim s else r
  | none => r

end Repository

/-- The repository operations the session manager awaits. -/
inductive RepoOp where
  | getSession (k : Key)
  | setSession (k : Key) (s : SessionId)
  | popSession (k : Key)
  | getOwner (s : SessionId)
  | setOwner (s : SessionId) (a : Identity)
  | getPendingClaim (s : SessionId)
  | setPendingClaim (s : SessionId) (a : Identity)
  | clearPendingClaim (s : SessionId) (a : Identity)
deriving DecidableEq

/-- What an await gives back to the code. -/
inductive Reply where
  | unit
  | session (s : Option SessionId)
  | identity (a : Option Identity)
  | taskDone (s : SessionId)
  | taskFailed
  | taskCancelled
deriving DecidableEq

def RepoOp.perform (ttl now : Int) (r : Repository) : RepoOp → Repository × Reply
  | .getSession k => (r, .session (r.bindings k))
  | .setSession k s => (r.setSession k s, .unit)
  | .popSession k => (r.popSession k, .unit)
  | .getOwner s => (r, .identity (r.owners s))
  | .setOwner s a => (r.setOwner s a, .unit)
  | .getPendingClaim s =>
      let (r₁, a) := r.getPendingClaim ttl now s
      (r₁, .identity a)
  | .setPendingClaim s a => (r.setPendingClaim ttl now s a, .unit)
  | .clearPendingClaim s a => (r.clearPendingClaim s a, .unit)

/-! ## §3  Which table an operation touches -/

namespace Repository

@[simp] theorem prune_bindings (ttl now : Int) (r : Repository) :
    (r.prune ttl now).bindings = r.bindings := rfl

@[simp] theorem prune_owners (ttl now : Int) (r : Repository) :
    (r.prune ttl now).owners = r.owners := rfl

@[simp] theorem dropClaim_bindings (s : SessionId) (r : Repository) :
    (r.dropClaim s).bindings = r.bindings := rfl

@[simp] theorem dropClaim_owners (s : SessionId) (r : Repository) :
    (r.dropClaim s).owners = r.owners := rfl

theorem getPendingClaim_tables (ttl now : Int) (s : SessionId) (r : Repository) :
    (r.getPendingClaim ttl now s).1.bindings = r.bindings ∧
      (r.getPendingClaim ttl now s).1.owners = r.owners := by
  unfold getPendingClaim
  dsimp only
  split
  · exact ⟨rfl, rfl⟩
  · split
    · exact ⟨rfl, rfl⟩
    · split <;> exact ⟨rfl, rfl⟩

theorem setPendingClaim_tables (ttl now : Int) (s : SessionId) (a : Identity)
    (r : Repository) :
    (r.setPendingClaim ttl now s a).bindings = r.bindings ∧
      (r.setPendingClaim ttl now s a).owners = r.owners := by
  unfold setPendingClaim
  dsimp only
  split <;> exact ⟨rfl, rfl⟩

theorem clearPendingClaim_tables (s : SessionId) (a : Identity) (r : Repository) :
    (r.clearPendingClaim s a).bindings = r.bindings ∧
      (r.clearPendingClaim s a).owners = r.owners := by
  unfold clearPendingClaim
  split
  · split <;> exact ⟨rfl, rfl⟩
  · exact ⟨rfl, rfl⟩

end Repository

/-- Only `set_owner` writes the owners table. -/
theorem RepoOp.perform_owners (ttl now : Int) (r : Repository) (op : RepoOp) :
    (op.perform ttl now r).1.owners =
      match op with
      | .setOwner s a => Function.update r.owners s (some a)
      | _ => r.owners := by
  cases op with
  | getPendingClaim s => exact (r.getPendingClaim_tables ttl now s).2
  | setPendingClaim s a => exact (r.setPendingClaim_tables ttl now s a).2
  | clearPendingClaim s a => exact (r.clearPendingClaim_tables s a).2
  | _ => rfl

/-- Only `set_session` and `pop_session` write the bindings table. -/
theorem RepoOp.perform_bindings (ttl now : Int) (r : Repository) (op : RepoOp) :
    (op.perform ttl now r).1.bindings =
      match op with
      | .setSession k s => Function.update r.bindings k (some s)
      | .popSession k => Function.update r.bindings k none
      | _ => r.bindings := by
  cases op with
  | getPendingClaim s => exact (r.getPendingClaim_tables ttl now s).1
  | setPendingClaim s a => exact (r.setPendingClaim_tables ttl now s a).1
  | clearPendingClaim s a => exact (r.clearPendingClaim_tables s a).1
  | _ => rfl

/-! ## §4  Rows of the claims table -/

section Claims

variable {ttl now : Int} {r : Repository} {s s' : SessionId} {a : Identity} {c : PendingClaim}
  {op : RepoOp}

/-- A row of a pruned table was there before. -/
theorem Repository.claims_prune (h : (r.prune ttl now).claims s = some c) :
    r.claims s = some c := by
  unfold Repository.prune at h
  simp only at h
  split at h
  · cases h
  · split at h
    · rename_i hc
      split at h
      · cases h
      · rw [hc, h]
    · cases h

theorem Repository.claims_dropClaim (h : (r.dropClaim s').claims s = some c) :
    r.claims s = some c := by
  change Function.update r.claims s' none s = some c at h
  by_cases hs : s = s'
  · subst hs
    rw [Function.update_self] at h
    cases h
  · rwa [Function.update_of_ne hs] at h

theorem Repository.claims_getPendingClaim
    (h : (r.getPendingClaim ttl now s').1.claims s = some c) : r.claims s = some c := by
  unfold Repository.getPendingClaim at h
  simp only at h
  split at h
  · exact Repository.claims_prune h
  · split at h
    · exact Repository.claims_prune (Repository.claims_dropClaim h)
    · split at h
      · exact Repository.claims_prune (Repository.claims_dropClaim h)
      · exact Repository.claims_prune h

/-- Only `set_pending_claim` makes a row. -/
theorem RepoOp.perform_claims (h : (op.perform ttl now r).1.claims s = some c) :
    r.claims s = some c ∨ op = .setPendingClaim s c.identity := by
  cases op with
  | getSession k | setSession k s' | popSession k | getOwner s' | setOwner s' b =>
      exact .inl h
  | getPendingClaim s' => exact .inl (Repository.claims_getPendingClaim h)
  | setPendingClaim s' b =>
      change (r.setPendingClaim ttl now s' b).claims s = some c at h
      unfold Repository.setPendingClaim at h
      simp only at h
      split at h
      · exact .inl (Repository.claims_prune (Repository.claims_dropClaim h))
      · change Function.update (r.prune ttl now).claims s' (some ⟨b, some (now + ttl)⟩) s = _ at h
        by_cases hs : s = s'
        · subst hs
          rw [Function.update_self] at h
          cases h
          exact .inr rfl
        · rw [Function.update_of_ne hs] at h
          exact .inl (Repository.claims_prune h)
  | clearPendingClaim s' b =>
      change (r.clearPendingClaim s' b).claims s = some c at h
      unfold Repository.clearPendingClaim at h
      split at h
      · split at h
        · exact .inl (Repository.claims_dropClaim h)
        · exact .inl h
      · exact .inl h

/-- No claim of `a` on `s` is in the table. -/
def Repository.Unclaimed (r : Repository) (s : SessionId) (a : Identity) : Prop :=
  ∀ c, r.claims s = some c → c.identity ≠ a

theorem Repository.unclaimed_clearPendingClaim (r : Repository) (s : SessionId) (a : Identity) :
    (r.clearPendingClaim s a).Unclaimed s a := by
  intro c h
  unfold Repository.clearPendingClaim at h
  split at h
  · rename_i c' hc
    split at h
    · change Function.update r.claims s none s = some c at h
      rw [Function.update_self] at h
      cases h
    · rename_i hne
      obtain rfl := Option.some.inj (hc.symm.trans h)
      exact hne
  · rename_i hnone
    rw [hnone] at h
    cases h

theorem Repository.Unclaimed.perform (h : r.Unclaimed s a) (hop : op ≠ .setPendingClaim s a) :
    (op.perform ttl now r).1.Unclaimed s a := by
  intro c hc
  rcases RepoOp.perform_claims hc with hold | rfl
  · exact h c hold
  · rintro rfl
    exact hop rfl

end Claims

/-! ## §5  Pending claims that have not expired -/

namespace Repository

/-- The pending claim of `a` on `s` stands until `e` at the earliest. -/
def Row (r : Repository) (s : SessionId) (a : Identity) (e : Int) : Prop :=
  ∃ e', r.claims s = some ⟨a, some e'⟩ ∧ e ≤ e'

theorem Row.unique {r : Repository} {s : SessionId} {a b : Identity} {e f : Int}
    (h : r.Row s a e) (h' : r.Row s b f) : a = b := by
  obtain ⟨e', he, -⟩ := h
  obtain ⟨f', hf, -⟩ := h'
  rw [he] at hf
  cases hf
  rfl

theorem Row.congr {r r' : Repository} {s : SessionId} {a : Identity} {e : Int}
    (h : r.Row s a e) (heq : r'.claims s = r.claims s) : r'.Row s a e := by
  obtain ⟨e', he, hle⟩ := h
  exact ⟨e', heq.trans he, hle⟩

variable {ttl now : Int} {r : Repository} {s : SessionId} {a : Identity} {e : Int}

theorem Row.prune (h : r.Row s a e) (httl : 0 < ttl) (hnow : now < e) :
    (r.prune ttl now).claims s = r.claims s := by
  obtain ⟨e', he, hle⟩ := h
  have hlive : ¬ e' ≤ now := by omega
  have hpos : ¬ ttl ≤ 0 := by omega
  simp [Repository.prune, he, PendingClaim.expired, hlive, hpos]

/-- A claim that has not expired is what `get_pending_claim` answers. -/
theorem Row.getPendingClaim_self (h : r.Row s a e) (httl : 0 < ttl) (hnow : now < e) :
    (r.getPendingClaim ttl now s).2 = some a ∧
      (r.getPendingClaim ttl now s).1.claims s = r.claims s := by
  have hprune := h.prune httl hnow
  obtain ⟨e', he, hle⟩ := h
  have hlive : ¬ e' ≤ now := by omega
  simp [Repository.getPendingClaim, hprune, he, hlive]

theorem Row.getPendingClaim (h : r.Row s a e) (httl : 0 < ttl) (hnow : now < e)
    (s' : SessionId) : (r.getPendingClaim ttl now s').1.claims s = r.claims s := by
  by_cases hs : s = s'
  · subst hs
    exact (h.getPendingClaim_self httl hnow).2
  · have hdrop : ((r.prune ttl now).dropClaim s').claims s = (r.prune ttl now).claims s :=
      Function.update_of_ne hs _ _
    have hprune := h.prune httl hnow
    unfold Repository.getPendingClaim
    dsimp only
    split
    · exact hprune
    · split
      · exact hdrop.trans hprune
      · split
        · exact hdrop.trans hprune
        · exact hprune

/-- A new claim leaves the standing claims on other sessions. -/
theorem Row.setPendingClaim (h : r.Row s a e) (httl : 0 < ttl) (hnow : now < e)
    {s' : SessionId} (hs : s ≠ s') (b : Identity) :
    (r.setPendingClaim ttl now s' b).claims s = r.claims s := by
  have hpos : ¬ ttl ≤ 0 := by omega
  unfold Repository.setPendingClaim
  dsimp only
  rw [if_neg hpos]
  exact (Function.update_of_ne hs _ _).trans (h.prune httl hnow)

theorem row_setPendingClaim (now : Int) (r : Repository) (httl : 0 < ttl) (s : SessionId) (a : Identity) :
    (r.setPendingClaim ttl now s a).Row s a (now + ttl) := by
  have hpos : ¬ ttl ≤ 0 := by omega
  refine ⟨now + ttl, ?_, le_refl _⟩
  simp [Repository.setPendingClaim, hpos]

/-- `clear_pending_claim` deletes rows of its own session and identity only. -/
theorem Row.clearPendingClaim (h : r.Row s a e) {s' : SessionId} {b : Identity}
    (hne : s ≠ s' ∨ a ≠ b) : (r.clearPendingClaim s' b).claims s = r.claims s := by
  obtain ⟨e', he, -⟩ := h
  unfold Repository.clearPendingClaim
  split
  · rename_i c hc
    split
    · rename_i hb
      by_cases hs : s = s'
      · subst hs
        rw [he] at hc
        cases hc
        exact absurd hb (hne.resolve_left fun h => h rfl)
      · exact Function.update_of_ne hs _ _
    · rfl
  · rfl

/-- What keeps a claim that has not expired: every operation but a new claim on
its session and its own clearing. -/
theorem Row.perform (h : r.Row s a e) (httl : 0 < ttl) (hnow : now < e) {op : RepoOp}
    (hset : ∀ b, op ≠ .setPendingClaim s b) (hclear : op ≠ .clearPendingClaim s a) :
    (op.perform ttl now r).1.claims s = r.claims s := by
  cases op with
  | getPendingClaim s' => exact h.getPendingClaim httl hnow s'
  | setPendingClaim s' b =>
      refine h.setPendingClaim httl hnow ?_ b
      rintro rfl
      exact hset b rfl
  | clearPendingClaim s' b =>
      refine h.clearPendingClaim ?_
      by_cases hs : s = s'
      · right
        rintro rfl
        exact hclear (by rw [hs])
      · exact .inl hs
  | getSession k | setSession k s' | popSession k | getOwner s' | setOwner s' b => rfl

end Repository

end OpencodeA2a.Session
