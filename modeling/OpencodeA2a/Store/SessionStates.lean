import OpencodeA2a.Store.SessionState
import Mathlib.Data.List.Dedup

/-!
# The session-state repositories agree

What a session-state repository is for: three partial maps, of which the claims
lapse. The database repository is these maps whatever it holds; the memory
repository is, as long as no entry of its caches expires or is evicted.
-/

namespace OpencodeA2a.Store

open OpencodeA2a.Stream (Text)

/-! ## §1  The maps -/

structure SessionStates where
  sessions : Text × Text → Option Text
  owners : Text → Option Text
  /-- with the time at which the claim lapses -/
  claims : Text → Option (Text × ℤ)

namespace SessionStates

def initial : SessionStates := ⟨fun _ => none, fun _ => none, fun _ => none⟩

variable (st : SessionStates)

/-- The claims that lapse after now. -/
def standing (now : ℤ) : SessionStates :=
  { st with claims := fun s => (st.claims s).filter fun c => now < c.2 }

/-- Whether the claim on the session is one that the identity, if any, may clear. -/
def clears (sessionId : Text) (identity : Option Text) : Prop :=
  identity = none ∨ (st.claims sessionId).map Prod.fst = identity

instance (sessionId : Text) (identity : Option Text) : Decidable (st.clears sessionId identity) :=
  inferInstanceAs (Decidable (_ ∨ _))

def setClaim (ttl now : ℤ) (sessionId identity : Text) : SessionStates :=
  { st.standing now with
    claims := Function.update (st.standing now).claims sessionId (some (identity, now + ttl)) }

def clearClaim (sessionId : Text) (identity : Option Text) : SessionStates :=
  if st.clears sessionId identity then
    { st with claims := Function.update st.claims sessionId none }
  else st

def perform (ttl now : ℤ) : SessionOp → SessionStates × Option Text
  | .getSession identity contextId => (st, st.sessions (identity, contextId))
  | .setSession identity contextId sessionId =>
      ({ st with sessions := Function.update st.sessions (identity, contextId) (some sessionId) },
        none)
  | .popSession identity contextId =>
      ({ st with sessions := Function.update st.sessions (identity, contextId) none }, none)
  | .getOwner sessionId => (st, st.owners sessionId)
  | .setOwner sessionId identity =>
      ({ st with owners := Function.update st.owners sessionId (some identity) }, none)
  | .getPendingClaim sessionId =>
      (st.standing now, ((st.standing now).claims sessionId).map Prod.fst)
  | .setPendingClaim sessionId identity => (st.setClaim ttl now sessionId identity, none)
  | .clearPendingClaim sessionId identity => (st.clearClaim sessionId identity, none)

/-- What the operations answer, each performed at its time. -/
def replies (ttl : ℤ) : SessionStates → List (ℤ × SessionOp) → List (Option Text)
  | _, [] => []
  | st, (now, op) :: ops =>
      (st.perform ttl now op).2 :: replies ttl (st.perform ttl now op).1 ops

end SessionStates

/-! ## §2  The database -/

/-- One upsert into a table with a key. -/
theorem insertThenUpdateOnConflict_keyed {ρ κ : Type} [DecidableEq κ] {key : ρ → κ}
    {check : ρ → Bool} {columns names : List String} {t : Table ρ}
    (h : Table.Keyed key check columns t) (hnames : names ⊆ columns) (row : ρ)
    (hrow : check row = true) {which : ρ → Bool} (hwhich : ∀ r, which r = true ↔ key r = key row)
    (change : ρ → ρ) (hkey : ∀ r, key (change r) = key r)
    (hcheck : ∀ r, check r = true → check (change r) = true) :
    ∃ t' row', insertThenUpdateOnConflict t names row which change = .ok t' ∧
      Table.Keyed key check columns t' ∧ (row' = row ∨ ∃ old, row' = change old) ∧
      ∀ k, t'.find key k = if k = key row then some row' else t.find key k := by
  unfold insertThenUpdateOnConflict
  cases hold : t.find key (key row) with
  | none =>
      obtain ⟨t', hinsert, hkeyed, hfind⟩ := h.insert hnames hrow hold
      exact ⟨t', row, by rw [hinsert], hkeyed, .inl rfl, hfind⟩
  | some old =>
      obtain ⟨t', hupdate, hkeyed, hfind⟩ := h.update hnames which change hkey hcheck
      refine ⟨t', change old, ?_, hkeyed, .inr ⟨old, rfl⟩, ?_⟩
      · rw [h.insert_conflict hnames hold, hupdate]
      · intro k
        rw [hfind]
        split
        · rename_i hk
          obtain ⟨-, hkeyOld⟩ := (Table.find_eq_some h.nodup).mp hold
          rw [hk, hold, Option.map_some, if_pos ((hwhich old).mpr hkeyOld)]
        · rename_i hk
          cases hfk : t.find key k with
          | none => rfl
          | some r =>
              obtain ⟨-, rfl⟩ := (Table.find_eq_some h.nodup).mp hfk
              rw [Option.map_some, if_neg (fun hw => hk ((hwhich r).mp hw))]

variable {ε : Type}

/-- The tables are as the schema has them, and every claim has an expiry. -/
structure DatabaseSessionState.Sound (db : DatabaseSessionState ε) : Prop where
  bindings : Table.Keyed BindingRow.key (fun _ => true) bindingColumns db.bindings
  owners : Table.Keyed OwnerRow.sessionId (fun _ => true) ownerColumns db.owners
  claims : Table.Keyed ClaimRow.sessionId ClaimRow.check claimColumns db.claims
  expiring : ∀ row ∈ db.claims.rows, row.expiresAt.isSome = true

/-- The claim that a row records. -/
def ClaimRow.claim (row : ClaimRow ε) : Option (Text × ℤ) :=
  row.identity.bind fun identity => row.expiresAt.map fun e => (identity, e)

/-- The maps that the tables are. -/
def DatabaseSessionState.states (db : DatabaseSessionState ε) : SessionStates where
  sessions k := (db.bindings.find BindingRow.key k).map BindingRow.sessionId
  owners s := (db.owners.find OwnerRow.sessionId s).map OwnerRow.identity
  claims s := (db.claims.find ClaimRow.sessionId (some s)).bind ClaimRow.claim

theorem DatabaseSessionState.Sound.initial : DatabaseSessionState.initial.Sound := by
  refine ⟨⟨rfl, rfl, List.nodup_nil, ?_⟩, ⟨rfl, rfl, List.nodup_nil, ?_⟩,
    ⟨rfl, rfl, List.nodup_nil, ?_⟩, ?_⟩ <;>
  · intro row hrow
    cases hrow

/-- The claims that have not lapsed are what pruning leaves. -/
theorem pruneExpiredPendingClaims_keyed {claims : Table (ClaimRow ε)} {ttl : ℤ} (httl : 0 < ttl)
    (now : ℤ) (h : Table.Keyed ClaimRow.sessionId ClaimRow.check claimColumns claims) :
    ∃ t', pruneExpiredPendingClaims ttl now claims = .ok t' ∧
      Table.Keyed ClaimRow.sessionId ClaimRow.check claimColumns t' ∧
      (∀ row ∈ t'.rows, row ∈ claims.rows ∧ ∀ e, row.expiresAt = some e → now < e) ∧
      ∀ s, (t'.find ClaimRow.sessionId s).bind ClaimRow.claim =
        ((claims.find ClaimRow.sessionId s).bind ClaimRow.claim).filter fun c => now < c.2 := by
  have hnames : ["expires_at"] ⊆ claimColumns := by decide
  obtain ⟨t', hdelete, hkeyed, hfind⟩ := h.delete hnames fun row => row.expiresAt.any fun e => e ≤ now
  refine ⟨t', ?_, hkeyed, ?_, ?_⟩
  · unfold pruneExpiredPendingClaims
    rw [if_neg (by omega)]
    exact hdelete
  · intro row hrow
    have hfound := (Table.find_eq_some hkeyed.nodup).mpr ⟨hrow, rfl⟩
    rw [hfind, Option.filter_eq_some_iff, Table.find_eq_some h.nodup] at hfound
    refine ⟨hfound.1.1, ?_⟩
    intro e he
    have hkept := hfound.2
    rw [he] at hkept
    simpa using hkept
  · intro s
    rw [hfind]
    cases claims.find ClaimRow.sessionId s with
    | none => rfl
    | some row =>
        obtain ⟨sessionId, identity, updatedAt, expiresAt, rest⟩ := row
        cases expiresAt with
        | none => cases identity <;> rfl
        | some e =>
            by_cases he : e ≤ now
            · have hnot : ¬ now < e := by omega
              cases identity <;> simp [Option.filter, ClaimRow.claim, he, hnot]
            · have hlt : now < e := by omega
              cases identity <;> simp [Option.filter, ClaimRow.claim, he, hlt]

namespace DatabaseSessionState.Sound

variable {db : DatabaseSessionState ε}

/-- The row of the key, in the source's words. -/
theorem which_binding (identity contextId : Text) (row : BindingRow) :
    decide (row.identity = identity ∧ row.contextId = contextId) = true ↔
      row.key = (identity, contextId) := by
  rw [decide_eq_true_eq]
  exact Prod.mk.injEq .. ▸ Iff.rfl

theorem getSession (h : db.Sound) (identity contextId : Text) :
    db.getSession identity contextId = .ok (db.states.sessions (identity, contextId)) := by
  have hselect := h.bindings.select (List.Subset.refl _) (which_binding identity contextId)
  unfold DatabaseSessionState.getSession
  rw [hselect]
  simp only [bind, Except.bind, Table.oneOrNone_toList]
  rfl

theorem getOwner (h : db.Sound) (sessionId : Text) :
    db.getOwner sessionId = .ok (db.states.owners sessionId) := by
  have hselect := h.owners.select (List.Subset.refl _) fun row =>
    decide_eq_true_iff (p := row.sessionId = sessionId)
  unfold DatabaseSessionState.getOwner
  rw [hselect]
  simp only [bind, Except.bind, Table.oneOrNone_toList]
  rfl

theorem setSession (h : db.Sound) (identity contextId sessionId : Text) :
    ∃ db', db.setSession identity contextId sessionId = .ok db' ∧ db'.Sound ∧
      db'.states = { db.states with
        sessions := Function.update db.states.sessions (identity, contextId) (some sessionId) } := by
  obtain ⟨t', row', hok, hkeyed, hrow, hfind⟩ := insertThenUpdateOnConflict_keyed h.bindings
    (List.Subset.refl _) ⟨identity, contextId, sessionId⟩ rfl (which_binding identity contextId)
    (fun row => { row with sessionId := sessionId }) (fun _ => rfl) (fun _ _ => rfl)
  have hsession : row'.sessionId = sessionId := by
    rcases hrow with rfl | ⟨old, rfl⟩ <;> rfl
  refine ⟨{ db with bindings := t' }, ?_, ⟨hkeyed, h.owners, h.claims, h.expiring⟩, ?_⟩
  · unfold DatabaseSessionState.setSession
    rw [hok]
    rfl
  · unfold states
    congr 1
    funext k
    rw [hfind, Function.update_apply]
    change (if k = (identity, contextId) then _ else _ : Option BindingRow).map _ = _
    split
    · rw [Option.map_some, hsession]
    · rfl

theorem popSession (h : db.Sound) (identity contextId : Text) :
    ∃ db', db.popSession identity contextId = .ok db' ∧ db'.Sound ∧
      db'.states = { db.states with
        sessions := Function.update db.states.sessions (identity, contextId) none } := by
  have hnames : ["identity", "context_id"] ⊆ bindingColumns := by decide
  obtain ⟨t', hok, hkeyed, hfind⟩ := h.bindings.delete_key hnames (which_binding identity contextId)
  refine ⟨{ db with bindings := t' }, ?_, ⟨hkeyed, h.owners, h.claims, h.expiring⟩, ?_⟩
  · unfold DatabaseSessionState.popSession
    rw [hok]
    rfl
  · unfold states
    congr 1
    funext k
    rw [hfind, Function.update_apply]
    split <;> rfl

theorem setOwner (h : db.Sound) (sessionId identity : Text) :
    ∃ db', db.setOwner sessionId identity = .ok db' ∧ db'.Sound ∧
      db'.states = { db.states with
        owners := Function.update db.states.owners sessionId (some identity) } := by
  obtain ⟨t', row', hok, hkeyed, hrow, hfind⟩ := insertThenUpdateOnConflict_keyed h.owners
    (List.Subset.refl _) ⟨sessionId, identity⟩ rfl
    (fun row => decide_eq_true_iff (p := row.sessionId = sessionId))
    (fun row => { row with identity := identity }) (fun _ => rfl) (fun _ _ => rfl)
  have hidentity : row'.identity = identity := by
    rcases hrow with rfl | ⟨old, rfl⟩ <;> rfl
  refine ⟨{ db with owners := t' }, ?_, ⟨h.bindings, hkeyed, h.claims, h.expiring⟩, ?_⟩
  · unfold DatabaseSessionState.setOwner
    rw [hok]
    rfl
  · unfold states
    congr 1
    funext k
    rw [hfind, Function.update_apply]
    split
    · rw [Option.map_some, hidentity]
    · rfl

/-- Pruning leaves the claims that stand. -/
theorem prune (h : db.Sound) {ttl : ℤ} (httl : 0 < ttl) (now : ℤ) :
    ∃ t', pruneExpiredPendingClaims ttl now db.claims = .ok t' ∧
      ({ db with claims := t' } : DatabaseSessionState ε).Sound ∧
      (∀ row ∈ t'.rows, ∃ e, row.expiresAt = some e ∧ now < e) ∧
      ({ db with claims := t' } : DatabaseSessionState ε).states = db.states.standing now := by
  obtain ⟨t', hok, hkeyed, hrows, hfind⟩ := pruneExpiredPendingClaims_keyed httl now h.claims
  have hexpiring : ∀ row ∈ t'.rows, ∃ e, row.expiresAt = some e ∧ now < e := by
    intro row hrow
    obtain ⟨hmem, hlate⟩ := hrows row hrow
    obtain ⟨e, he⟩ := Option.isSome_iff_exists.mp (h.expiring row hmem)
    exact ⟨e, he, hlate e he⟩
  refine ⟨t', hok, ⟨h.bindings, h.owners, hkeyed, ?_⟩, hexpiring, ?_⟩
  · intro row hrow
    obtain ⟨e, he, -⟩ := hexpiring row hrow
    rw [he]
    rfl
  · unfold states SessionStates.standing
    congr 1
    funext s
    exact hfind (some s)

theorem getPendingClaim (h : db.Sound) {ttl : ℤ} (httl : 0 < ttl) (now : ℤ) (sessionId : Text) :
    ∃ db', db.getPendingClaim ttl now sessionId =
        .ok (db', ((db.states.standing now).claims sessionId).map Prod.fst) ∧ db'.Sound ∧
      db'.states = db.states.standing now := by
  obtain ⟨t', hok, hsound, hexpiring, hstates⟩ := h.prune httl now
  refine ⟨{ db with claims := t' }, ?_, hsound, hstates⟩
  have hselect := hsound.claims.select (List.Subset.refl _) fun row =>
    decide_eq_true_iff (p := row.sessionId = some sessionId)
  unfold DatabaseSessionState.getPendingClaim
  rw [hok, ← hstates]
  simp only [bind, Except.bind, pure, Except.pure]
  rw [hselect]
  simp only [Table.oneOrNone_toList, states]
  cases hrow : t'.find ClaimRow.sessionId (some sessionId) with
  | none => rfl
  | some row =>
      obtain ⟨hmem, -⟩ := (Table.find_eq_some hsound.claims.nodup).mp hrow
      obtain ⟨e, he, hlate⟩ := hexpiring row hmem
      simp only [he, if_neg (not_le.mpr hlate), Option.bind_some, ClaimRow.claim]
      cases row.identity <;> rfl

theorem claimCheck_assign {identity : Text} {e : ℤ} (row : ClaimRow ε) (h : row.check = true) :
    ({ row with identity := some identity, expiresAt := some e } : ClaimRow ε).check = true := by
  unfold ClaimRow.check at h ⊢
  rw [Bool.and_eq_true] at h ⊢
  exact ⟨h.1, rfl⟩

theorem setPendingClaim (h : db.Sound) {ttl : ℤ} (httl : 0 < ttl) (now : ℤ)
    (sessionId identity : Text) :
    ∃ db', db.setPendingClaim ttl now sessionId identity = .ok db' ∧ db'.Sound ∧
      db'.states = db.states.setClaim ttl now sessionId identity := by
  obtain ⟨t', hok, hsound, hexpiring, hstates⟩ := h.prune httl now
  have hnames : ["session_id", "identity", "expires_at"] ⊆ claimColumns := by decide
  obtain ⟨t'', row', hok', hkeyed, hrow, hfind⟩ := insertThenUpdateOnConflict_keyed hsound.claims
    hnames (db.claimRow ttl now sessionId identity) rfl
    (fun row => decide_eq_true_iff (p := row.sessionId = some sessionId))
    (fun row => { row with identity := some identity, expiresAt := some (now + ttl) })
    (fun _ => rfl) claimCheck_assign
  have hrow' : row'.identity = some identity ∧ row'.expiresAt = some (now + ttl) := by
    rcases hrow with rfl | ⟨old, rfl⟩ <;> exact ⟨rfl, rfl⟩
  refine ⟨{ db with claims := t'' }, ?_, ⟨h.bindings, h.owners, hkeyed, ?_⟩, ?_⟩
  · unfold DatabaseSessionState.setPendingClaim
    rw [hok]
    simp only [bind, Except.bind, if_neg (not_le.mpr httl), hok']
    rfl
  · intro row hmem
    have hfound := (Table.find_eq_some hkeyed.nodup).mpr ⟨hmem, rfl⟩
    rw [hfind] at hfound
    split at hfound
    · obtain rfl := Option.some.inj hfound
      rw [hrow'.2]
      rfl
    · obtain ⟨hold, -⟩ := (Table.find_eq_some hsound.claims.nodup).mp hfound
      exact hsound.expiring row hold
  · unfold SessionStates.setClaim
    rw [← hstates]
    unfold states
    congr 1
    funext s
    rw [hfind, Function.update_apply]
    change (if some s = some sessionId then _ else _ : Option (ClaimRow ε)).bind _ = _
    simp only [Option.some.injEq]
    split
    · rw [Option.bind_some, ClaimRow.claim, hrow'.1, hrow'.2]
      rfl
    · rfl

theorem clearPendingClaim (h : db.Sound) (sessionId : Text) (identity : Option Text) :
    ∃ db', db.clearPendingClaim sessionId identity = .ok db' ∧ db'.Sound ∧
      db'.states = db.states.clearClaim sessionId identity := by
  unfold SessionStates.clearClaim
  cases identity with
  | none =>
      have hnames : ["session_id"] ⊆ claimColumns := by decide
      obtain ⟨t', hok, hkeyed, hfind⟩ := h.claims.delete_key hnames fun row =>
        decide_eq_true_iff (p := row.sessionId = some sessionId)
      refine ⟨{ db with claims := t' }, ?_, ⟨h.bindings, h.owners, hkeyed, ?_⟩, ?_⟩
      · unfold DatabaseSessionState.clearPendingClaim deleteClaims
        rw [hok]
        rfl
      · exact fun row hrow => h.expiring row (Table.mem_of_mem_delete hok hrow)
      · rw [if_pos (.inl rfl)]
        unfold states
        congr 1
        funext s
        rw [hfind, Function.update_apply]
        simp only [Option.some.injEq]
        split <;> rfl
  | some identity =>
      have hnames : ["session_id", "identity"] ⊆ claimColumns := by decide
      obtain ⟨t', hok, hkeyed, hfind⟩ := h.claims.delete hnames fun row =>
        row.sessionId = some sessionId ∧ row.identity = some identity
      refine ⟨{ db with claims := t' }, ?_, ⟨h.bindings, h.owners, hkeyed, ?_⟩, ?_⟩
      · unfold DatabaseSessionState.clearPendingClaim
        simp only
        rw [hok]
        rfl
      · exact fun row hrow => h.expiring row (Table.mem_of_mem_delete hok hrow)
      · have hclears : db.states.clears sessionId (some identity) ↔
            ∃ row, db.claims.find ClaimRow.sessionId (some sessionId) = some row ∧
              row.identity = some identity := by
          unfold SessionStates.clears states
          simp only [reduceCtorEq, false_or]
          cases hrow : db.claims.find ClaimRow.sessionId (some sessionId) with
          | none => simp
          | some row =>
              obtain ⟨hmem, -⟩ := (Table.find_eq_some h.claims.nodup).mp hrow
              obtain ⟨e, he⟩ := Option.isSome_iff_exists.mp (h.expiring row hmem)
              cases hi : row.identity <;> simp [ClaimRow.claim, he, hi]
        have hother : ∀ s, s ≠ sessionId → t'.find ClaimRow.sessionId (some s) =
            db.claims.find ClaimRow.sessionId (some s) := by
          intro s hs
          rw [hfind]
          cases hrow : db.claims.find ClaimRow.sessionId (some s) with
          | none => rfl
          | some row =>
              obtain ⟨-, hk⟩ := (Table.find_eq_some h.claims.nodup).mp hrow
              simp [Option.filter, hk, hs]
        unfold states
        split
        · rename_i hc
          obtain ⟨row, hrow, hi⟩ := hclears.mp hc
          obtain ⟨-, hk⟩ := (Table.find_eq_some h.claims.nodup).mp hrow
          congr 1
          funext s
          rw [Function.update_apply]
          split
          · rename_i hs
            rw [hs, hfind, hrow, Option.filter_some]
            simp [hk, hi]
          · rename_i hs
            rw [hother s hs]
        · rename_i hc
          congr 1
          funext s
          by_cases hs : s = sessionId
          · subst hs
            cases hrow : db.claims.find ClaimRow.sessionId (some s) with
            | none => rw [hfind, hrow, Option.filter_none]
            | some row =>
                have hi : row.identity ≠ some identity := fun hi => hc (hclears.mpr ⟨row, hrow, hi⟩)
                rw [hfind, hrow, Option.filter_some]
                simp [hi]
          · rw [hother s hs]

theorem perform (h : db.Sound) {ttl : ℤ} (httl : 0 < ttl) (now : ℤ) (op : SessionOp) :
    ∃ db', db.perform ttl now op = .ok (db', (db.states.perform ttl now op).2) ∧ db'.Sound ∧
      db'.states = (db.states.perform ttl now op).1 := by
  cases op with
  | getSession identity contextId =>
      refine ⟨db, ?_, h, rfl⟩
      simp only [DatabaseSessionState.perform, h.getSession]
      rfl
  | getOwner sessionId =>
      refine ⟨db, ?_, h, rfl⟩
      simp only [DatabaseSessionState.perform, h.getOwner]
      rfl
  | setSession identity contextId sessionId =>
      obtain ⟨db', hok, hsound, hstates⟩ := h.setSession identity contextId sessionId
      refine ⟨db', ?_, hsound, hstates⟩
      simp only [DatabaseSessionState.perform, hok]
      rfl
  | popSession identity contextId =>
      obtain ⟨db', hok, hsound, hstates⟩ := h.popSession identity contextId
      refine ⟨db', ?_, hsound, hstates⟩
      simp only [DatabaseSessionState.perform, hok]
      rfl
  | setOwner sessionId identity =>
      obtain ⟨db', hok, hsound, hstates⟩ := h.setOwner sessionId identity
      refine ⟨db', ?_, hsound, hstates⟩
      simp only [DatabaseSessionState.perform, hok]
      rfl
  | getPendingClaim sessionId => exact h.getPendingClaim httl now sessionId
  | setPendingClaim sessionId identity =>
      obtain ⟨db', hok, hsound, hstates⟩ := h.setPendingClaim httl now sessionId identity
      refine ⟨db', ?_, hsound, hstates⟩
      simp only [DatabaseSessionState.perform, hok]
      rfl
  | clearPendingClaim sessionId identity =>
      obtain ⟨db', hok, hsound, hstates⟩ := h.clearPendingClaim sessionId identity
      refine ⟨db', ?_, hsound, hstates⟩
      simp only [DatabaseSessionState.perform, hok]
      rfl

/-- The database answers as the maps do. -/
theorem replies (h : db.Sound) {ttl : ℤ} (httl : 0 < ttl) (ops : List (ℤ × SessionOp)) :
    db.replies ttl ops = (db.states.replies ttl ops).map .ok := by
  induction ops generalizing db with
  | nil => rfl
  | cons x ops ih =>
      obtain ⟨db', hok, hsound, hstates⟩ := h.perform httl x.1 x.2
      unfold DatabaseSessionState.replies SessionStates.replies
      simp only [hok]
      rw [List.map_cons, ih hsound, hstates]

end DatabaseSessionState.Sound

/-! ## §3  The memory -/

section Cache

variable {κ ν : Type} [DecidableEq κ] {c : TtlCache κ ν} {start now : ℤ} {known : List κ}
  {view : κ → Option ν}

/-- The cache is the map `view`: its keys are among as many as it has room for,
and what it keeps was set at `start` or later. -/
structure TtlCache.Holds (c : TtlCache κ ν) (start : ℤ) (known : List κ) (view : κ → Option ν) :
    Prop where
  fits : (known.length : ℤ) ≤ c.maxsize
  known : ∀ k ∈ c.store.keys, k ∈ known
  live : ∀ k v e, c.store.get? k = some (v, e) → start + c.ttlSeconds ≤ e
  view : ∀ k, (c.store.get? k).map Prod.fst = view k

namespace TtlCache.Holds

/-- A cache that keeps nothing knows no key. -/
theorem view_of_disabled (h : c.Holds start known view) (hc : c.disabled) (hnow : start ≤ now)
    (hspan : now < start + c.ttlSeconds) : known = [] ∧ ∀ k, view k = none := by
  have hnil : known = [] := by
    have := h.fits
    rw [← List.length_eq_zero_iff]
    rcases hc with hc | hc <;> omega
  refine ⟨hnil, ?_⟩
  intro k
  rw [← h.view, Option.map_eq_none_iff]
  cases hk : c.store.get? k with
  | none => rfl
  | some item =>
      have hmem := h.known k (Dict.mem_keys.mpr (by rw [hk]; rfl))
      rw [hnil] at hmem
      cases hmem

theorem get (h : c.Holds start known view) (hnow : start ≤ now)
    (hspan : now < start + c.ttlSeconds) (key : κ) :
    (c.get now key).2 = view key ∧ (c.get now key).1.Holds start known view := by
  unfold TtlCache.get
  split
  · rename_i hc
    exact ⟨((h.view_of_disabled hc hnow hspan).2 key).symm, h⟩
  · cases hitem : c.store.get? key with
    | none => exact ⟨by rw [← h.view, hitem]; rfl, h⟩
    | some item =>
        obtain ⟨value, expiresAt⟩ := item
        have hlive := h.live key value expiresAt hitem
        have hview : view key = some value := by rw [← h.view, hitem]; rfl
        simp only [if_neg (show ¬ expiresAt ≤ now by omega)]
        split
        · refine ⟨hview.symm, h.fits, ?_, ?_, ?_⟩
          · intro k hk
            rcases Dict.mem_keys_assign.mp hk with rfl | hk
            · exact h.known k (Dict.mem_keys.mpr (by rw [hitem]; rfl))
            · exact h.known k hk
          · intro k v e hk
            change (c.store.set key (value, now + c.ttlSeconds)).get? k = some (v, e) at hk
            rw [Dict.get?_set] at hk
            split at hk
            · cases hk
              change start + c.ttlSeconds ≤ now + c.ttlSeconds
              omega
            · exact h.live k v e hk
          · intro k
            change ((c.store.set key (value, now + c.ttlSeconds)).get? k).map Prod.fst = view k
            rw [Dict.get?_set]
            split
            · rename_i hk
              rw [hk, hview]
              rfl
            · exact h.view k
        · exact ⟨hview.symm, h⟩

theorem set (h : c.Holds start known view) (hnow : start ≤ now)
    (hspan : now < start + c.ttlSeconds) {key : κ} (hkey : key ∈ known) (value : ν) :
    (c.set now key value).Holds start known (Function.update view key (some value)) := by
  have hkeys : ∀ k ∈ (c.store.set key (value, now + c.ttlSeconds)).keys, k ∈ known := by
    intro k hk
    rcases Dict.mem_keys_assign.mp hk with rfl | hk
    · exact hkey
    · exact h.known k hk
  have hsize := Dict.length_le_of_keys hkeys
  unfold TtlCache.set
  split
  · rename_i hc
    rw [(h.view_of_disabled hc hnow hspan).1] at hkey
    cases hkey
  · have hfits := h.fits
    -- there is room for every known key
    unfold TtlCache.evictIfNeeded
    rw [if_pos (show ((c.store.set key (value, now + c.ttlSeconds)).items.length : ℤ) ≤ c.maxsize by
      omega)]
    refine ⟨hfits, hkeys, ?_, ?_⟩
    · intro k v e hk
      change (c.store.set key (value, now + c.ttlSeconds)).get? k = some (v, e) at hk
      rw [Dict.get?_set] at hk
      split at hk
      · cases hk
        change start + c.ttlSeconds ≤ now + c.ttlSeconds
        omega
      · exact h.live k v e hk
    · intro k
      change ((c.store.set key (value, now + c.ttlSeconds)).get? k).map Prod.fst = _
      rw [Dict.get?_set, Function.update_apply]
      split
      · rfl
      · exact h.view k

theorem pop (h : c.Holds start known view) (key : κ) :
    (c.pop key).Holds start known (Function.update view key none) := by
  refine ⟨h.fits, ?_, ?_, ?_⟩
  · intro k hk
    obtain ⟨item, hitem, rfl⟩ := List.mem_map.mp hk
    exact h.known item.1 (List.mem_map.mpr ⟨item, (List.mem_filter.mp hitem).1, rfl⟩)
  · intro k v e hk
    change (c.store.pop key).get? k = some (v, e) at hk
    rw [Dict.get?_pop] at hk
    split at hk
    · cases hk
    · exact h.live k v e hk
  · intro k
    change ((c.store.pop key).get? k).map Prod.fst = _
    rw [Dict.get?_pop, Function.update_apply]
    split
    · rfl
    · exact h.view k

end TtlCache.Holds

end Cache

section TtlSeconds

variable {κ ν : Type} [DecidableEq κ] (c : TtlCache κ ν) (now : ℤ) (key : κ)

theorem TtlCache.ttlSeconds_get : (c.get now key).1.ttlSeconds = c.ttlSeconds := by
  unfold TtlCache.get
  split
  · rfl
  · split
    · rfl
    · split
      · rfl
      · split <;> rfl

theorem TtlCache.ttlSeconds_set (value : ν) : (c.set now key value).ttlSeconds = c.ttlSeconds := by
  unfold TtlCache.set
  split
  · rfl
  · unfold TtlCache.evictIfNeeded
    split
    · rfl
    · simp only
      split <;> rfl

end TtlSeconds

/-- The keys that an operation sets. -/
def SessionOp.bound? : SessionOp → Option (Text × Text)
  | .setSession identity contextId _ => some (identity, contextId)
  | _ => none

def SessionOp.owned? : SessionOp → Option Text
  | .setOwner sessionId _ => some sessionId
  | _ => none

/-- The memory holds the maps, with these keys since `start`. -/
structure MemorySessionState.Mirrors (m : MemorySessionState) (start ttl claimTtl : ℤ)
    (bound : List (Text × Text)) (owned : List Text) (st : SessionStates) : Prop where
  sessions : m.sessions.Holds start bound st.sessions
  owners : m.sessionOwners.Holds start owned st.owners
  sessionsTtl : m.sessions.ttlSeconds = ttl
  ownersTtl : m.sessionOwners.ttlSeconds = ttl
  claimTtl : m.pendingClaimTtlSeconds = claimTtl
  claims : ∀ s, m.pendingSessionClaims.get? s = (st.claims s).map Prod.fst
  expiries : ∀ s, m.pendingSessionClaimExpiries.get? s = (st.claims s).map Prod.snd

namespace MemorySessionState.Mirrors

variable {m : MemorySessionState} {start ttl claimTtl now : ℤ} {bound : List (Text × Text)}
  {owned : List Text} {st : SessionStates}

theorem prune (h : m.Mirrors start ttl claimTtl bound owned st) (now : ℤ) :
    (m.prunePendingClaims now).Mirrors start ttl claimTtl bound owned (st.standing now) := by
  have hexpired : ∀ s, s ∈ ((m.pendingSessionClaimExpiries.items.filter fun item =>
      item.2 ≤ now).map Prod.fst) ↔ ∃ c, st.claims s = some c ∧ c.2 ≤ now := by
    intro s
    have hs := h.expiries s
    simp only [List.mem_map, List.mem_filter, ← Dict.get?_eq_some, decide_eq_true_eq, Prod.exists,
      exists_and_right, exists_eq_right, hs, Option.map_eq_some_iff]
    constructor
    · rintro ⟨e, ⟨identity, hc⟩, he⟩
      exact ⟨identity, e, hc, he⟩
    · rintro ⟨identity, e, hc, he⟩
      exact ⟨e, ⟨identity, hc⟩, he⟩
  have hstanding : ∀ s, (st.standing now).claims s =
      if ∃ c, st.claims s = some c ∧ c.2 ≤ now then none else st.claims s := by
    intro s
    unfold SessionStates.standing
    simp only
    cases st.claims s with
    | none => simp
    | some c =>
        by_cases hc : c.2 ≤ now
        · have hnot : ¬ now < c.2 := by omega
          simp [Option.filter, hc, hnot]
        · have hlt : now < c.2 := by omega
          simp [Option.filter, hc, hlt]
  refine ⟨h.sessions, h.owners, h.sessionsTtl, h.ownersTtl, h.claimTtl, ?_, ?_⟩
  · intro s
    unfold prunePendingClaims
    simp only
    rw [Dict.get?_popAll, hstanding, h.claims]
    simp only [hexpired]
    split <;> rfl
  · intro s
    unfold prunePendingClaims
    simp only
    rw [Dict.get?_popAll, hstanding, h.expiries]
    simp only [hexpired]
    split <;> rfl

theorem setPendingClaim (h : m.Mirrors start ttl claimTtl bound owned st) (hclaim : 0 < claimTtl)
    (now : ℤ) (sessionId identity : Text) :
    (m.setPendingClaim now sessionId identity).Mirrors start ttl claimTtl bound owned
      (st.setClaim claimTtl now sessionId identity) := by
  have hpruned := h.prune now
  have httl := hpruned.claimTtl
  unfold MemorySessionState.setPendingClaim
  simp only
  rw [if_neg (by omega)]
  refine ⟨hpruned.sessions, hpruned.owners, hpruned.sessionsTtl, hpruned.ownersTtl, httl, ?_, ?_⟩
  · intro s
    simp only [Dict.get?_set, SessionStates.setClaim, Function.update_apply]
    split
    · rfl
    · exact hpruned.claims s
  · intro s
    simp only [Dict.get?_set, SessionStates.setClaim, Function.update_apply, httl]
    split
    · rfl
    · exact hpruned.expiries s

theorem clearPendingClaim (h : m.Mirrors start ttl claimTtl bound owned st) (sessionId : Text)
    (identity : Option Text) :
    (m.clearPendingClaim sessionId identity).Mirrors start ttl claimTtl bound owned
      (st.clearClaim sessionId identity) := by
  unfold MemorySessionState.clearPendingClaim SessionStates.clearClaim
  by_cases hc : st.clears sessionId identity
  · have hm : identity = none ∨ m.pendingSessionClaims.get? sessionId = identity := by
      rw [h.claims]
      exact hc
    rw [if_pos hc, if_pos hm]
    refine ⟨h.sessions, h.owners, h.sessionsTtl, h.ownersTtl, h.claimTtl, ?_, ?_⟩
    · intro s
      simp only [Dict.get?_pop, Function.update_apply]
      split
      · rfl
      · exact h.claims s
    · intro s
      simp only [Dict.get?_pop, Function.update_apply]
      split
      · rfl
      · exact h.expiries s
  · have hm : ¬ (identity = none ∨ m.pendingSessionClaims.get? sessionId = identity) := by
      rw [h.claims]
      exact hc
    rw [if_neg hc, if_neg hm]
    exact h

theorem perform (h : m.Mirrors start ttl claimTtl bound owned st) (hclaim : 0 < claimTtl)
    (hnow : start ≤ now) (hspan : now < start + ttl) {op : SessionOp}
    (hbound : ∀ k, op.bound? = some k → k ∈ bound) (howned : ∀ s, op.owned? = some s → s ∈ owned) :
    (m.perform now op).2 = (st.perform claimTtl now op).2 ∧
      (m.perform now op).1.Mirrors start ttl claimTtl bound owned
        (st.perform claimTtl now op).1 := by
  have hspan₁ : now < start + m.sessions.ttlSeconds := h.sessionsTtl ▸ hspan
  have hspan₂ : now < start + m.sessionOwners.ttlSeconds := h.ownersTtl ▸ hspan
  cases op with
  | getSession identity contextId =>
      obtain ⟨hvalue, hcache⟩ := h.sessions.get hnow hspan₁ (identity, contextId)
      exact ⟨hvalue, hcache, h.owners, (TtlCache.ttlSeconds_get ..).trans h.sessionsTtl,
        h.ownersTtl, h.claimTtl, h.claims, h.expiries⟩
  | setSession identity contextId sessionId =>
      have hcache := h.sessions.set hnow hspan₁ (hbound (identity, contextId) rfl) sessionId
      exact ⟨rfl, hcache, h.owners, (TtlCache.ttlSeconds_set ..).trans h.sessionsTtl,
        h.ownersTtl, h.claimTtl, h.claims, h.expiries⟩
  | popSession identity contextId =>
      exact ⟨rfl, h.sessions.pop (identity, contextId), h.owners, h.sessionsTtl, h.ownersTtl,
        h.claimTtl, h.claims, h.expiries⟩
  | getOwner sessionId =>
      obtain ⟨hvalue, hcache⟩ := h.owners.get hnow hspan₂ sessionId
      exact ⟨hvalue, h.sessions, hcache, h.sessionsTtl,
        (TtlCache.ttlSeconds_get ..).trans h.ownersTtl, h.claimTtl, h.claims, h.expiries⟩
  | setOwner sessionId identity =>
      have hcache := h.owners.set hnow hspan₂ (howned sessionId rfl) identity
      exact ⟨rfl, h.sessions, hcache, h.sessionsTtl,
        (TtlCache.ttlSeconds_set ..).trans h.ownersTtl, h.claimTtl, h.claims, h.expiries⟩
  | getPendingClaim sessionId =>
      have hpruned := h.prune now
      exact ⟨hpruned.claims sessionId, hpruned⟩
  | setPendingClaim sessionId identity =>
      exact ⟨rfl, h.setPendingClaim hclaim now sessionId identity⟩
  | clearPendingClaim sessionId identity =>
      exact ⟨rfl, h.clearPendingClaim sessionId identity⟩

/-- Within the TTL and the capacity, the memory answers as the maps do. -/
theorem replies (h : m.Mirrors start ttl claimTtl bound owned st) (hclaim : 0 < claimTtl)
    {ops : List (ℤ × SessionOp)} (hclock : ∀ x ∈ ops, start ≤ x.1 ∧ x.1 < start + ttl)
    (hbound : ∀ x ∈ ops, ∀ k, x.2.bound? = some k → k ∈ bound)
    (howned : ∀ x ∈ ops, ∀ s, x.2.owned? = some s → s ∈ owned) :
    m.replies ops = st.replies claimTtl ops := by
  induction ops generalizing m st with
  | nil => rfl
  | cons x ops ih =>
      have hmem := List.mem_cons_self (a := x) (l := ops)
      obtain ⟨hnow, hspan⟩ := hclock x hmem
      obtain ⟨hreply, hnext⟩ := h.perform hclaim hnow hspan (hbound x hmem) (howned x hmem)
      have hrest := ih hnext (fun y hy => hclock y (List.mem_cons_of_mem x hy))
        (fun y hy => hbound y (List.mem_cons_of_mem x hy))
        (fun y hy => howned y (List.mem_cons_of_mem x hy))
      unfold MemorySessionState.replies SessionStates.replies
      simp only
      rw [hreply, hrest]

end MemorySessionState.Mirrors

/-! ## §4  The repositories agree -/

/-- The distinct keys that the operations set. -/
def boundKeys (ops : List (ℤ × SessionOp)) : List (Text × Text) :=
  (ops.filterMap fun x => x.2.bound?).dedup

def ownedKeys (ops : List (ℤ × SessionOp)) : List Text :=
  (ops.filterMap fun x => x.2.owned?).dedup

theorem mirrors_initial {ttl maxsize claimTtl start : ℤ} {bound : List (Text × Text)}
    {owned : List Text} (hbound : (bound.length : ℤ) ≤ maxsize)
    (howned : (owned.length : ℤ) ≤ maxsize) :
    (MemorySessionState.initial ttl maxsize claimTtl).Mirrors start ttl claimTtl bound owned
      SessionStates.initial := by
  refine ⟨⟨hbound, ?_, ?_, fun _ => rfl⟩, ⟨howned, ?_, ?_, fun _ => rfl⟩, rfl, rfl, rfl,
    fun _ => rfl, fun _ => rfl⟩
  · exact fun k hk => by cases hk
  · exact fun k v e hk => by cases hk
  · exact fun k hk => by cases hk
  · exact fun k v e hk => by cases hk

/-- Both repositories answer every operation alike, in a sequence that spans less
than the session TTL and sets no more keys than a cache has room for. -/
theorem session_repositories_agree {ttl maxsize claimTtl : ℤ} (hclaim : 0 < claimTtl)
    {ops : List (ℤ × SessionOp)} (hclock : ops.Pairwise fun x y => x.1 ≤ y.1)
    (hspan : ∀ x ∈ ops, ∀ y ∈ ops, y.1 - x.1 < ttl)
    (hbound : ((boundKeys ops).length : ℤ) ≤ maxsize)
    (howned : ((ownedKeys ops).length : ℤ) ≤ maxsize) :
    DatabaseSessionState.initial.replies claimTtl ops =
      ((MemorySessionState.initial ttl maxsize claimTtl).replies ops).map .ok := by
  have hdatabase := DatabaseSessionState.Sound.initial.replies hclaim ops
  have hstates : DatabaseSessionState.initial.states = SessionStates.initial := rfl
  rw [hdatabase, hstates]
  congr 1
  cases ops with
  | nil => rfl
  | cons x ops =>
      have hstart : ∀ y ∈ x :: ops, x.1 ≤ y.1 := by
        intro y hy
        rcases List.mem_cons.mp hy with rfl | hy
        · exact le_refl _
        · exact (List.pairwise_cons.mp hclock).1 y hy
      have hmirrors : (MemorySessionState.initial ttl maxsize claimTtl).Mirrors x.1 ttl claimTtl
          (boundKeys (x :: ops)) (ownedKeys (x :: ops)) SessionStates.initial :=
        mirrors_initial hbound howned
      refine (hmirrors.replies hclaim ?_ ?_ ?_).symm
      · intro y hy
        have hlate := hspan x (List.mem_cons_self ..) y hy
        exact ⟨hstart y hy, by omega⟩
      · intro y hy k hk
        exact List.mem_dedup.mpr (List.mem_filterMap.mpr ⟨y, hy, hk⟩)
      · intro y hy s hs
        exact List.mem_dedup.mpr (List.mem_filterMap.mpr ⟨y, hy, hs⟩)

/-- A claim that lapses. -/
def lapsingClaim : List (ℤ × SessionOp) :=
  [(0, .setPendingClaim ['s'] ['a']), (3, .getPendingClaim ['s']), (5, .getPendingClaim ['s'])]

theorem claim_lapses_in_both :
    DatabaseSessionState.initial.replies 5 lapsingClaim =
        ((MemorySessionState.initial 60 1 5).replies lapsingClaim).map .ok ∧
      (MemorySessionState.initial 60 1 5).replies lapsingClaim = [none, some ['a'], none] := by
  refine ⟨session_repositories_agree ?_ ?_ ?_ ?_ ?_, rfl⟩ <;> decide

end OpencodeA2a.Store
