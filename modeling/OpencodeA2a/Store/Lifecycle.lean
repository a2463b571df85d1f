import OpencodeA2a.Store.Interrupts
import OpencodeA2a.Store.SessionStates

/-!
# The life of an interrupt request

What the two repositories record of a request, as one history that the
operations and their times determine. Once a binding has expired, the memory
drops it at the next pruning and starts the tombstone there; the database keeps
the row until it is asked for the request, and starts the tombstone there.
-/

namespace OpencodeA2a.Store

open OpencodeA2a.Stream (Text Json Mapping)

/-! ## §1  Phases -/

/-- What has become of a request. -/
inductive Phase where
  | absent
  | bound (b : InterruptRequestBinding)
  /-- expired, and dropped by the memory at `dropped`; nobody has asked for it since -/
  | lapsed (b : InterruptRequestBinding) (dropped : ℤ)
  /-- asked for at `asked`, for the first time since it was dropped -/
  | told (dropped asked : ℤ)

namespace Phase

/-- What pruning at a time makes of it. -/
def prune (now : ℤ) : Phase → Phase
  | .bound b => if b.expiresAt ≤ now then .lapsed b now else .bound b
  | p => p

/-- What being asked for at a time makes of it. -/
def ask (now : ℤ) : Phase → Phase
  | .bound b => if b.expiresAt ≤ now then .told now now else .bound b
  | .lapsed _ dropped => .told dropped now
  | p => p

def isBound : Phase → Bool
  | .bound _ => true
  | _ => false

def binding? : Phase → Option InterruptRequestBinding
  | .bound b => some b
  | _ => none

/-- The status that the memory answers. -/
def memoryStatus (tombstoneTtl now : ℤ) : Phase → InterruptStatus
  | .absent => .missing
  | .bound b => if b.expiresAt ≤ now then .expired else .active
  | .lapsed _ dropped | .told dropped _ =>
      if now < dropped + tombstoneTtl then .expired else .missing

/-- The status that the database answers. -/
def databaseStatus (tombstoneTtl now : ℤ) : Phase → InterruptStatus
  | .absent => .missing
  | .bound b => if b.expiresAt ≤ now then .expired else .active
  | .lapsed _ _ => .expired
  | .told _ asked => if now < asked + tombstoneTtl then .expired else .missing

/-- The binding that goes with a status. -/
def answer (status : InterruptStatus) (p : Phase) : Option InterruptRequestBinding :=
  if status = .active then p.binding? else none

/-- The memory's tombstone still stands, or the database's has gone too. -/
def Prompt (tombstoneTtl now : ℤ) : Phase → Prop
  | .lapsed _ dropped => now < dropped + tombstoneTtl
  | .told dropped asked => now < dropped + tombstoneTtl ∨ asked + tombstoneTtl ≤ now
  | _ => True

end Phase

abbrev Phases := Text → Phase

namespace Phases

variable (settings : InterruptSettings) (now : ℤ) (ps : Phases)

def prune : Phases := fun r => (ps r).prune now

/-- Where an operation takes every request. Asking for a request that is bound
prunes the others. -/
def step : InterruptOp → Phases
  | .remember request =>
      Function.update (ps.prune now) request.requestId
        (.bound (request.binding (settings.expiry now request)))
  | .discard requestId => Function.update ps requestId .absent
  | .listPending _ _ => ps.prune now
  | .resolve requestId =>
      if requestId = [] then ps
      else if (ps requestId).isBound then
        Function.update (ps.prune now) requestId ((ps requestId).ask now)
      else Function.update ps requestId ((ps requestId).ask now)

end Phases

/-- The clock has not gone back behind what the phase records. -/
def Phase.Timely (clock : ℤ) (r : Text) : Phase → Prop
  | .absent => True
  | .bound b => b.requestId = r
  | .lapsed b dropped => b.requestId = r ∧ b.expiresAt ≤ dropped ∧ dropped ≤ clock
  | .told dropped asked => dropped ≤ asked ∧ asked ≤ clock

def Phases.Timely (clock : ℤ) (ps : Phases) : Prop := ∀ r, (ps r).Timely clock r

variable {settings : InterruptSettings} {clock now : ℤ} {ps : Phases}

theorem Phase.Timely.mono {p : Phase} {r : Text} (h : p.Timely clock r) (hnow : clock ≤ now) :
    p.Timely now r := by
  cases p with
  | absent => trivial
  | bound b => exact h
  | lapsed b dropped => exact ⟨h.1, h.2.1, h.2.2.trans hnow⟩
  | told dropped asked => exact ⟨h.1, h.2.trans hnow⟩

theorem Phase.Timely.prune {p : Phase} {r : Text} (h : p.Timely now r) :
    (p.prune now).Timely now r := by
  cases p with
  | bound b =>
      simp only [Phase.prune]
      split
      · rename_i hb
        exact ⟨h, hb, le_refl now⟩
      · exact h
  | absent | lapsed b dropped | told dropped asked => exact h

theorem Phase.Timely.ask {p : Phase} {r : Text} (h : p.Timely now r) :
    (p.ask now).Timely now r := by
  cases p with
  | bound b =>
      simp only [Phase.ask]
      split
      · exact ⟨le_refl now, le_refl now⟩
      · exact h
  | lapsed b dropped => exact ⟨h.2.2, le_refl now⟩
  | absent | told dropped asked => exact h

theorem Phases.Timely.step (h : ps.Timely clock) (hnow : clock ≤ now) (op : InterruptOp) :
    (ps.step settings now op).Timely now := by
  have hmono : ps.Timely now := fun r => (h r).mono hnow
  have hprune : (ps.prune now).Timely now := fun r => (hmono r).prune
  have hupdate : ∀ {qs : Phases} (r : Text) {p : Phase}, qs.Timely now → p.Timely now r →
      Phases.Timely now (Function.update qs r p) := by
    intro qs r p hqs hp r'
    rw [Function.update_apply]
    split
    · rename_i hr
      rw [hr]
      exact hp
    · exact hqs r'
  cases op with
  | remember request =>
      exact hupdate request.requestId
        (p := .bound (request.binding (settings.expiry now request))) hprune rfl
  | discard requestId => exact hupdate requestId (p := .absent) hmono trivial
  | listPending identity interruptType => exact hprune
  | resolve requestId =>
      simp only [Phases.step]
      split
      · exact hmono
      · split
        · exact hupdate requestId hprune (hmono requestId).ask
        · exact hupdate requestId hmono (hmono requestId).ask

/-! ## §2  The memory -/

/-- The tombstone that the memory has for a phase; it is gone only once it has run
out. -/
def Phase.MemoryTombstone (tombstoneTtl clock : ℤ) (r : Text) :
    Phase → Option InterruptRequestTombstone → Prop
  | .lapsed _ dropped, t | .told dropped _, t =>
      (0 < tombstoneTtl ∧ t = some ⟨r, dropped + tombstoneTtl⟩) ∨
        (t = none ∧ dropped + tombstoneTtl ≤ clock)
  | _, t => t = none

/-- The memory records the phases. -/
structure MemoryInterrupts.Records (settings : InterruptSettings) (clock : ℤ) (m : MemoryInterrupts)
    (ps : Phases) : Prop where
  requests : ∀ r, m.interruptRequests.get? r = (ps r).binding?
  tombstones : ∀ r, (ps r).MemoryTombstone settings.tombstoneTtlSeconds clock r
    (m.interruptRequestTombstones.get? r)

namespace MemoryInterrupts

variable {m : MemoryInterrupts}

/-- The tombstone made at a time, if any. -/
def newTombstone (settings : InterruptSettings) (now : ℤ) (r : Text) :
    Option InterruptRequestTombstone :=
  if settings.tombstoneTtlSeconds ≤ 0 then none
  else some ⟨r, now + settings.tombstoneTtlSeconds⟩

theorem get?_rememberTombstone (m : MemoryInterrupts) (now : ℤ) (id r : Text) :
    (rememberTombstone settings m now id).interruptRequestTombstones.get? r =
      if r = id then newTombstone settings now r else m.interruptRequestTombstones.get? r := by
  unfold rememberTombstone newTombstone
  split
  · simp only [Dict.get?_pop]
  · simp only [Dict.get?_set]
    split
    · rename_i hr
      rw [hr]
    · rfl

theorem interruptRequests_rememberTombstone (m : MemoryInterrupts) (now : ℤ) (id : Text) :
    (rememberTombstone settings m now id).interruptRequests = m.interruptRequests := by
  unfold rememberTombstone
  split <;> rfl

/-- Dropping requests, one after the other. -/
theorem get?_dropAll (settings : InterruptSettings) (m : MemoryInterrupts) (now : ℤ)
    (ids : List Text) (r : Text) :
    let m' := ids.foldl (fun m id => rememberTombstone settings
      { m with interruptRequests := m.interruptRequests.pop id } now id) m
    m'.interruptRequests.get? r = (if r ∈ ids then none else m.interruptRequests.get? r) ∧
      m'.interruptRequestTombstones.get? r = if r ∈ ids then newTombstone settings now r
        else m.interruptRequestTombstones.get? r := by
  induction ids generalizing m with
  | nil => exact ⟨rfl, rfl⟩
  | cons id ids ih =>
      obtain ⟨hrequests, htombstones⟩ := ih (rememberTombstone settings
        { m with interruptRequests := m.interruptRequests.pop id } now id)
      simp only [List.foldl_cons]
      rw [hrequests, htombstones, interruptRequests_rememberTombstone, get?_rememberTombstone,
        Dict.get?_pop]
      simp only [List.mem_cons]
      by_cases hr : r = id <;> by_cases hids : r ∈ ids <;> simp [hr, hids]

theorem mem_expired {ν : Type} (d : Dict Text ν) (out : ν → Bool) (r : Text) :
    r ∈ ((d.items.filter fun item => out item.2).map Prod.fst) ↔ (d.get? r).any out = true := by
  simp only [List.mem_map, List.mem_filter, ← Dict.get?_eq_some, Prod.exists, exists_and_right,
    exists_eq_right, Option.any_eq_true]

/-- Pruning takes the expired requests and makes their tombstones. -/
theorem get?_pruneRequests (m : MemoryInterrupts) (now : ℤ) (r : Text) :
    (m.pruneRequests settings now).interruptRequests.get? r =
        (if (m.interruptRequests.get? r).any (fun b => b.expiresAt ≤ now) then none
          else m.interruptRequests.get? r) ∧
      (m.pruneRequests settings now).interruptRequestTombstones.get? r =
        if (m.interruptRequests.get? r).any (fun b => b.expiresAt ≤ now) then
          newTombstone settings now r
        else m.interruptRequestTombstones.get? r := by
  have hdrop := get?_dropAll settings m now
    ((m.interruptRequests.items.filter fun item => item.2.expiresAt ≤ now).map Prod.fst) r
  simp only [mem_expired m.interruptRequests (fun b => b.expiresAt ≤ now)] at hdrop
  exact hdrop

theorem get?_pruneTombstones (m : MemoryInterrupts) (now : ℤ) (r : Text) :
    (m.pruneTombstones now).interruptRequestTombstones.get? r =
      if (m.interruptRequestTombstones.get? r).any (fun t => t.expiresAt ≤ now) then none
      else m.interruptRequestTombstones.get? r := by
  unfold pruneTombstones
  simp only
  rw [Dict.get?_popAll]
  simp only [mem_expired m.interruptRequestTombstones (fun t => t.expiresAt ≤ now)]

theorem newTombstone_records (r : Text) (b : InterruptRequestBinding) :
    (Phase.lapsed b now).MemoryTombstone settings.tombstoneTtlSeconds now r
      (newTombstone settings now r) := by
  unfold newTombstone
  split
  · exact .inr ⟨rfl, by omega⟩
  · exact .inl ⟨by omega, rfl⟩

end MemoryInterrupts

theorem Phase.MemoryTombstone.mono {tombstoneTtl : ℤ} {r : Text} {p : Phase}
    {t : Option InterruptRequestTombstone} (h : p.MemoryTombstone tombstoneTtl clock r t)
    (hnow : clock ≤ now) : p.MemoryTombstone tombstoneTtl now r t := by
  cases p with
  | absent | bound b => exact h
  | lapsed b dropped | told dropped asked => exact h.imp_right fun hgone => ⟨hgone.1, hgone.2.trans hnow⟩

/-- A tombstone that stands is the one for the phase. -/
theorem Phase.MemoryTombstone.prune {tombstoneTtl : ℤ} {r : Text} {p : Phase}
    {t : Option InterruptRequestTombstone} (h : p.MemoryTombstone tombstoneTtl now r t) :
    p.MemoryTombstone tombstoneTtl now r
      (if t.any (fun u => u.expiresAt ≤ now) then none else t) := by
  split
  · rename_i hout
    obtain ⟨u, rfl, hu⟩ := (Option.any_eq_true ..).mp hout
    rw [decide_eq_true_eq] at hu
    cases p with
    | absent | bound b => rfl
    | lapsed b dropped | told dropped asked =>
        rcases h with ⟨-, htomb⟩ | ⟨hnone, -⟩
        · cases htomb
          exact .inr ⟨rfl, hu⟩
        · cases hnone
  · exact h

namespace MemoryInterrupts.Records

variable {m : MemoryInterrupts}

theorem mono (h : m.Records settings clock ps) (hnow : clock ≤ now) : m.Records settings now ps :=
  ⟨h.requests, fun r => (h.tombstones r).mono hnow⟩

theorem pruneRequests (h : m.Records settings now ps) :
    (m.pruneRequests settings now).Records settings now (ps.prune now) := by
  refine ⟨?_, ?_⟩
  · intro r
    rw [(get?_pruneRequests m now r).1, h.requests]
    unfold Phases.prune
    cases ps r with
    | bound b =>
        by_cases hb : b.expiresAt ≤ now <;> simp [Phase.prune, Phase.binding?, hb]
    | absent | lapsed b dropped | told dropped asked => rfl
  · intro r
    have ht := h.tombstones r
    rw [(get?_pruneRequests m now r).2, h.requests]
    unfold Phases.prune
    cases hp : ps r with
    | bound b =>
        rw [hp] at ht
        by_cases hb : b.expiresAt ≤ now
        · simp only [Phase.prune, Phase.binding?, Option.any_some, hb, decide_true, if_true]
          exact newTombstone_records r b
        · simp only [Phase.prune, Phase.binding?, Option.any_some, hb, decide_false, if_false,
            Bool.false_eq_true]
          exact ht
    | absent | lapsed b dropped | told dropped asked =>
        rw [hp] at ht
        exact ht

theorem pruneTombstones (h : m.Records settings now ps) :
    (m.pruneTombstones now).Records settings now ps := by
  refine ⟨h.requests, ?_⟩
  intro r
  rw [get?_pruneTombstones]
  exact (h.tombstones r).prune

/-- The request takes a new phase, the others keep theirs. -/
theorem update (h : m.Records settings now ps) {m' : MemoryInterrupts} {r : Text} {p : Phase}
    (hrequests : ∀ q, m'.interruptRequests.get? q =
      if q = r then p.binding? else m.interruptRequests.get? q)
    (hself : p.MemoryTombstone settings.tombstoneTtlSeconds now r
      (m'.interruptRequestTombstones.get? r))
    (hothers : ∀ q, q ≠ r →
      m'.interruptRequestTombstones.get? q = m.interruptRequestTombstones.get? q) :
    m'.Records settings now (Function.update ps r p) := by
  refine ⟨?_, ?_⟩
  · intro q
    rw [hrequests, Function.update_apply, h.requests]
    split <;> rfl
  · intro q
    rw [Function.update_apply]
    split
    · rename_i hq
      rw [hq]
      exact hself
    · rename_i hq
      rw [hothers q hq]
      exact h.tombstones q

theorem remember (h : m.Records settings now ps) (request : RememberRequest) :
    (m.remember settings now request).Records settings now
      (ps.step settings now (.remember request)) := by
  refine h.pruneRequests.pruneTombstones.update (fun q => Dict.get?_set ..) ?_ ?_
  · exact Dict.get?_pop_self ..
  · exact fun q hq => Dict.get?_pop_of_ne _ hq

theorem discard (h : m.Records settings now ps) (r : Text) :
    (m.discard r).Records settings now (ps.step settings now (.discard r)) := by
  refine h.update (fun q => Dict.get?_pop ..) ?_ ?_
  · exact Dict.get?_pop_self ..
  · exact fun q hq => Dict.get?_pop_of_ne _ hq

/-- A tombstone that is left after pruning has not run out. -/
theorem status_of_tombstone (h : m.Records settings now ps) {r : Text}
    (hnot : (ps r).binding? = none) :
    (if ((m.pruneTombstones now).interruptRequestTombstones.get? r).isSome then
      InterruptStatus.expired else .missing) =
        (ps r).memoryStatus settings.tombstoneTtlSeconds now := by
  have ht := h.tombstones r
  rw [get?_pruneTombstones]
  cases hp : ps r with
  | bound b =>
      rw [hp] at hnot
      cases hnot
  | absent =>
      rw [hp] at ht
      rw [show m.interruptRequestTombstones.get? r = none from ht]
      rfl
  | lapsed b dropped | told dropped asked =>
      rw [hp] at ht
      rcases ht with ⟨-, htomb⟩ | ⟨hnone, hgone⟩
      · rw [htomb]
        by_cases hout : dropped + settings.tombstoneTtlSeconds ≤ now
        · have hnot : ¬ now < dropped + settings.tombstoneTtlSeconds := by omega
          simp [Phase.memoryStatus, hout, hnot]
        · have hlt : now < dropped + settings.tombstoneTtlSeconds := by omega
          simp [Phase.memoryStatus, hlt]
      · rw [hnone]
        have hnot : ¬ now < dropped + settings.tombstoneTtlSeconds := by omega
        simp [Phase.memoryStatus, hnot]

/-- The request of a phase that is not bound, once it is asked for. -/
theorem ask (h : m.Records settings now ps) {r : Text} (hnot : (ps r).binding? = none) :
    m.Records settings now (Function.update ps r ((ps r).ask now)) := by
  have ht := h.tombstones r
  have hask : ((ps r).ask now).binding? = none ∧
      ((ps r).ask now).MemoryTombstone settings.tombstoneTtlSeconds now r
        (m.interruptRequestTombstones.get? r) := by
    cases hp : ps r with
    | bound b =>
        rw [hp] at hnot
        cases hnot
    | absent | lapsed b dropped | told dropped asked =>
        rw [hp] at ht
        exact ⟨rfl, ht⟩
  refine h.update ?_ hask.2 fun q _ => rfl
  intro q
  split
  · rename_i hq
    rw [hq, h.requests, hnot, hask.1]
  · rfl

/-- An expired request is dropped as it is asked for, and the others after it. -/
theorem drop (h : m.Records settings now ps) {r : Text} {b : InterruptRequestBinding}
    (hp : ps r = .bound b) :
    (rememberTombstone settings (({ m with interruptRequests := m.interruptRequests.pop r } :
      MemoryInterrupts).pruneRequests settings now) now r).Records settings now
        (Function.update (ps.prune now) r (.told now now)) := by
  have hnone : m.interruptRequestTombstones.get? r = none := by
    have ht := h.tombstones r
    rwa [hp] at ht
  have hpopped : ({ m with interruptRequests := m.interruptRequests.pop r } :
      MemoryInterrupts).Records settings now (Function.update ps r .absent) :=
    h.update (fun q => Dict.get?_pop ..) hnone fun _ _ => rfl
  have hothers := hpopped.pruneRequests
  have hphases : Function.update (ps.prune now) r (.told now now) =
      Function.update (Phases.prune now (Function.update ps r .absent)) r (.told now now) := by
    funext q
    unfold Phases.prune
    by_cases hq : q = r
    · rw [hq, Function.update_self, Function.update_self]
    · rw [Function.update_of_ne hq, Function.update_of_ne hq, Function.update_of_ne hq]
  rw [hphases]
  refine hothers.update ?_ ?_ ?_
  · intro q
    rw [interruptRequests_rememberTombstone]
    split
    · rename_i hq
      rw [hothers.requests, hq]
      simp only [Phases.prune, Function.update_self]
      rfl
    · rfl
  · rw [get?_rememberTombstone, if_pos rfl]
    exact newTombstone_records r b
  · intro q hq
    rw [get?_rememberTombstone, if_neg hq]

theorem isBound_eq (p : Phase) : p.isBound = p.binding?.isSome := by
  cases p <;> rfl

theorem resolve (h : m.Records settings now ps) (r : Text) :
    (m.resolve settings now r).1.Records settings now (ps.step settings now (.resolve r)) ∧
      (r ≠ [] → (m.resolve settings now r).2 =
        ((ps r).memoryStatus settings.tombstoneTtlSeconds now,
          (ps r).answer ((ps r).memoryStatus settings.tombstoneTtlSeconds now))) := by
  simp only [MemoryInterrupts.resolve, Phases.step]
  by_cases hr : r = []
  · rw [if_pos hr, if_pos hr]
    exact ⟨h, fun hne => absurd hr hne⟩
  · rw [if_neg hr, if_neg hr]
    have hpruned := h.pruneTombstones
    have hstatus := h.status_of_tombstone (r := r)
    rw [hpruned.requests, isBound_eq]
    cases hb : (ps r).binding? with
    | none =>
        have hask := hpruned.ask hb
        have hs := hstatus hb
        simp only [Option.isSome_none, Bool.false_eq_true, if_false]
        refine ⟨?_, fun _ => ?_⟩
        · split <;> exact hask
        · have hanswer : ∀ st, (ps r).answer st = none := by
            intro st
            unfold Phase.answer
            rw [hb, ite_self]
          rw [hanswer, ← hs]
          split <;> rfl
    | some b =>
        have hp : ps r = .bound b := by
          cases hp : ps r <;> rw [hp] at hb <;> cases hb
          rfl
        simp only [Option.isSome_some, if_true, hp, Phase.ask, Phase.memoryStatus]
        by_cases hexp : b.expiresAt ≤ now
        · simp only [hexp, if_true]
          exact ⟨hpruned.drop hp, fun _ => rfl⟩
        · simp only [hexp, if_false]
          refine ⟨?_, fun _ => rfl⟩
          have hsame : Function.update (ps.prune now) r (.bound b) = ps.prune now := by
            rw [Function.update_eq_self_iff]
            simp only [Phases.prune, hp, Phase.prune, hexp, if_false]
          rw [hsame]
          exact hpruned.pruneRequests

end MemoryInterrupts.Records

/-! ## §3  The database -/

/-- The row of a binding. -/
def InterruptRequestBinding.row (b : InterruptRequestBinding) : InterruptRow where
  requestId := b.requestId
  sessionId := some b.sessionId
  interruptType := some b.interruptType
  identity := b.identity
  credentialId := b.credentialId
  taskId := b.taskId
  contextId := b.contextId
  detailsJson := encodeDetails b.details
  expiresAt := some b.expiresAt

/-- The binding as the database gives it back. -/
def InterruptRequestBinding.reloaded (b : InterruptRequestBinding) : InterruptRequestBinding :=
  { b with details := encodeDetails b.details }

/-- The row that the database has for a phase. -/
def Phase.DatabaseRow (tombstoneTtl clock : ℤ) (r : Text) : Phase → Option InterruptRow → Prop
  | .absent, row => row = none
  | .bound b, row | .lapsed b _, row => row = some b.row
  | .told _ asked, row =>
      (0 < tombstoneTtl ∧
        row = some { requestId := r, tombstoneExpiresAt := some (asked + tombstoneTtl) }) ∨
      (row = none ∧ asked + tombstoneTtl ≤ clock) ∨
      (tombstoneTtl ≤ 0 ∧ row = some { requestId := r })

theorem Phase.DatabaseRow.mono {tombstoneTtl : ℤ} {r : Text} {p : Phase} {row : Option InterruptRow}
    (h : p.DatabaseRow tombstoneTtl clock r row) (hnow : clock ≤ now) :
    p.DatabaseRow tombstoneTtl now r row := by
  cases p with
  | absent | bound b | lapsed b dropped => exact h
  | told dropped asked =>
      rcases h with h | ⟨hnone, hgone⟩ | h
      · exact .inl h
      · exact .inr (.inl ⟨hnone, hgone.trans hnow⟩)
      · exact .inr (.inr h)

/-- Whether the row is a tombstone that has run out. -/
def InterruptRow.out (now : ℤ) (row : InterruptRow) : Bool :=
  row.tombstoneExpiresAt.any fun e => e ≤ now

theorem Phase.DatabaseRow.prune {tombstoneTtl : ℤ} {r : Text} {p : Phase}
    {row : Option InterruptRow} (h : p.DatabaseRow tombstoneTtl now r row) :
    p.DatabaseRow tombstoneTtl now r (row.filter fun row => !row.out now) := by
  cases p with
  | absent | bound b | lapsed b dropped =>
      rw [show row = _ from h]
      rfl
  | told dropped asked =>
      rcases h with ⟨hpos, rfl⟩ | ⟨rfl, hgone⟩ | ⟨hpos, rfl⟩
      · by_cases hout : asked + tombstoneTtl ≤ now
        · exact .inr (.inl ⟨by simp [InterruptRow.out, Option.filter, hout], hout⟩)
        · exact .inl ⟨hpos, by simp [InterruptRow.out, Option.filter, hout]⟩
      · exact .inr (.inl ⟨rfl, hgone⟩)
      · exact .inr (.inr ⟨hpos, rfl⟩)

/-- The database records the phases. -/
structure DatabaseInterrupts.Records (settings : InterruptSettings) (clock : ℤ)
    (t : DatabaseInterrupts) (ps : Phases) : Prop where
  keyed : Table.Keyed InterruptRow.requestId (fun _ => true) interruptColumns t
  rows : ∀ r, (ps r).DatabaseRow settings.tombstoneTtlSeconds clock r
    (t.find InterruptRow.requestId r)

/-- The row of the request becomes its tombstone. -/
theorem DatabaseInterrupts.setTombstone_find (settings : InterruptSettings)
    {t : DatabaseInterrupts}
    (h : Table.Keyed InterruptRow.requestId (fun _ => true) interruptColumns t) (now : ℤ)
    (requestId : Text) :
    ∃ t', DatabaseInterrupts.setTombstone settings t now requestId = .ok t' ∧
      Table.Keyed InterruptRow.requestId (fun _ => true) interruptColumns t' ∧
      ∀ r, t'.find InterruptRow.requestId r = (t.find InterruptRow.requestId r).map fun row =>
        if decide (row.requestId = requestId) then
          { requestId := row.requestId
            tombstoneExpiresAt :=
              if settings.tombstoneTtlSeconds ≤ 0 then none
              else some (now + settings.tombstoneTtlSeconds) }
        else row :=
  h.update (List.Subset.refl _) _ _ (fun _ => rfl) (fun _ _ => rfl)

/-- The row of the request becomes that of its binding. -/
theorem DatabaseInterrupts.remember_find (settings : InterruptSettings)
    {t t₁ : DatabaseInterrupts} {now : ℤ}
    (hprune : DatabaseInterrupts.pruneTombstones t now = .ok t₁)
    (h : Table.Keyed InterruptRow.requestId (fun _ => true) interruptColumns t₁)
    (request : RememberRequest) :
    ∃ t₂, DatabaseInterrupts.remember settings t now request = .ok t₂ ∧
      Table.Keyed InterruptRow.requestId (fun _ => true) interruptColumns t₂ ∧
      ∀ r, t₂.find InterruptRow.requestId r =
        if r = request.requestId then some (request.binding (settings.expiry now request)).row
        else t₁.find InterruptRow.requestId r := by
  obtain ⟨t₂, row, hok, hkeyed, hrow, hfind⟩ := insertThenUpdateOnConflict_keyed h
    (List.Subset.refl _) (request.row (settings.expiry now request)) rfl
    (fun row => decide_eq_true_iff (p := row.requestId = request.requestId))
    (fun row => { request.row (settings.expiry now request) with requestId := row.requestId })
    (fun _ => rfl) (fun _ _ => rfl)
  have hself : t₂.find InterruptRow.requestId request.requestId = some row := by
    rw [hfind]
    exact if_pos rfl
  -- a row that was there before has the key of the request
  have hwritten : row = (request.binding (settings.expiry now request)).row := by
    obtain ⟨-, hid⟩ := (Table.find_eq_some hkeyed.nodup).mp hself
    rcases hrow with rfl | ⟨old, rfl⟩
    · rfl
    · change old.requestId = request.requestId at hid
      rw [hid]
      rfl
  refine ⟨t₂, ?_, hkeyed, ?_⟩
  · unfold DatabaseInterrupts.remember
    rw [hprune]
    exact hok
  · rw [← hwritten]
    exact hfind

namespace DatabaseInterrupts.Records

variable {t : DatabaseInterrupts}

theorem mono (h : t.Records settings clock ps) (hnow : clock ≤ now) : t.Records settings now ps :=
  ⟨h.keyed, fun r => (h.rows r).mono hnow⟩

/-- Pruning leaves no tombstone that has run out. -/
theorem pruneTombstones (h : t.Records settings now ps) :
    ∃ t', DatabaseInterrupts.pruneTombstones t now = .ok t' ∧ t'.Records settings now ps ∧
      ∀ row ∈ t'.rows, row.out now = false := by
  have hnames : ["tombstone_expires_at"] ⊆ interruptColumns := by decide
  obtain ⟨t', hok, hkeyed, hfind⟩ := h.keyed.delete hnames fun row => row.out now
  refine ⟨t', hok, ⟨hkeyed, ?_⟩, ?_⟩
  · intro r
    rw [hfind]
    exact (h.rows r).prune
  · intro row hrow
    have hfound := (Table.find_eq_some hkeyed.nodup).mpr ⟨hrow, rfl⟩
    rw [hfind, Option.filter_eq_some_iff] at hfound
    simpa using hfound.2

/-- The request takes a new phase, the others keep theirs. -/
theorem update (h : t.Records settings now ps) {t' : DatabaseInterrupts} {r : Text} {p : Phase}
    (hkeyed : Table.Keyed InterruptRow.requestId (fun _ => true) interruptColumns t')
    (hself : p.DatabaseRow settings.tombstoneTtlSeconds now r (t'.find InterruptRow.requestId r))
    (hothers : ∀ q, q ≠ r → t'.find InterruptRow.requestId q = t.find InterruptRow.requestId q) :
    t'.Records settings now (Function.update ps r p) := by
  refine ⟨hkeyed, ?_⟩
  intro q
  rw [Function.update_apply]
  split
  · rename_i hq
    rw [hq]
    exact hself
  · rename_i hq
    rw [hothers q hq]
    exact h.rows q

/-- Pruning in the memory is nothing to the database. -/
theorem prune (h : t.Records settings now ps) : t.Records settings now (ps.prune now) := by
  refine ⟨h.keyed, ?_⟩
  intro r
  have hrow := h.rows r
  unfold Phases.prune
  cases hp : ps r with
  | bound b =>
      rw [hp] at hrow
      simp only [Phase.prune]
      split <;> exact hrow
  | absent | lapsed b dropped | told dropped asked =>
      rw [hp] at hrow
      exact hrow

theorem remember (h : t.Records settings now ps) (request : RememberRequest) :
    ∃ t', DatabaseInterrupts.remember settings t now request = .ok t' ∧
      t'.Records settings now (ps.step settings now (.remember request)) := by
  obtain ⟨t₁, hprune, hpruned, -⟩ := h.pruneTombstones
  obtain ⟨t₂, hok, hkeyed, hfind⟩ :=
    DatabaseInterrupts.remember_find settings hprune hpruned.keyed request
  refine ⟨t₂, hok, hpruned.prune.update hkeyed ?_ ?_⟩
  · rw [hfind, if_pos rfl]
    rfl
  · intro q hq
    rw [hfind, if_neg hq]

theorem discard (h : t.Records settings now ps) (r : Text) :
    ∃ t', DatabaseInterrupts.discard t r = .ok t' ∧
      t'.Records settings now (ps.step settings now (.discard r)) := by
  have hnames : ["request_id"] ⊆ interruptColumns := by decide
  obtain ⟨t', hok, hkeyed, hfind⟩ := h.keyed.delete_key hnames fun row =>
    decide_eq_true_iff (p := row.requestId = r)
  refine ⟨t', hok, h.update hkeyed ?_ ?_⟩
  · rw [hfind, if_pos rfl]
    rfl
  · intro q hq
    rw [hfind, if_neg hq]

theorem setTombstone (h : t.Records settings now ps) {r : Text} {b : InterruptRequestBinding}
    (dropped : ℤ) (hrow : t.find InterruptRow.requestId r = some b.row) :
    ∃ t', DatabaseInterrupts.setTombstone settings t now r = .ok t' ∧
      t'.Records settings now (Function.update ps r (.told dropped now)) := by
  obtain ⟨t', hok, hkeyed, hfind⟩ := DatabaseInterrupts.setTombstone_find settings h.keyed now r
  obtain ⟨-, hid⟩ := (Table.find_eq_some h.keyed.nodup).mp hrow
  refine ⟨t', hok, h.update hkeyed ?_ ?_⟩
  · rw [hfind, hrow, Option.map_some]
    simp only [hid, decide_true, if_true]
    split
    · rename_i hpos
      exact .inr (.inr ⟨hpos, rfl⟩)
    · rename_i hpos
      exact .inl ⟨by omega, rfl⟩
  · intro q hq
    rw [hfind]
    cases hrow' : t.find InterruptRow.requestId q with
    | none => rfl
    | some row =>
        obtain ⟨-, hid'⟩ := (Table.find_eq_some h.keyed.nodup).mp hrow'
        simp [hid', hq]

/-- The request keeps its phase. -/
theorem same (h : t.Records settings now ps) {r : Text} {p : Phase} (hp : ps r = p) :
    t.Records settings now (Function.update ps r p) := by
  rw [Function.update_eq_self_iff.mpr hp.symm]
  exact h

theorem resolve (h : t.Records settings now ps) (htimely : ps.Timely now) (r : Text) :
    ∃ t', DatabaseInterrupts.resolve settings t now r =
        .ok (t', if r = [] then (.missing, none) else
          ((ps r).databaseStatus settings.tombstoneTtlSeconds now,
            ((ps r).answer ((ps r).databaseStatus settings.tombstoneTtlSeconds now)).map
              InterruptRequestBinding.reloaded)) ∧
      t'.Records settings now (ps.step settings now (.resolve r)) := by
  unfold DatabaseInterrupts.resolve
  simp only [Phases.step]
  by_cases hr : r = []
  · rw [if_pos hr, if_pos hr, if_pos hr]
    exact ⟨t, rfl, h⟩
  · rw [if_neg hr, if_neg hr, if_neg hr]
    obtain ⟨t₁, hprune, hpruned, hlive⟩ := h.pruneTombstones
    have hselect := hpruned.keyed.select (List.Subset.refl _) fun row =>
      decide_eq_true_iff (p := row.requestId = r)
    rw [hprune]
    simp only [bind, Except.bind]
    rw [hselect]
    simp only [Table.oneOrNone_toList]
    have hrow := hpruned.rows r
    have htime := htimely r
    cases hp : ps r with
    | absent =>
        rw [hp] at hrow
        rw [show t₁.find InterruptRow.requestId r = none from hrow]
        exact ⟨t₁, rfl, hpruned.same hp⟩
    | bound b =>
        rw [hp] at hrow
        change t₁.find InterruptRow.requestId r = some b.row at hrow
        rw [hrow]
        simp only [Phase.ask, Phase.databaseStatus, Phase.isBound, if_true]
        by_cases hexp : b.expiresAt ≤ now
        · obtain ⟨t₂, hset, hset'⟩ := hpruned.prune.setTombstone now hrow
          refine ⟨t₂, ?_, ?_⟩
          · simp only [InterruptRequestBinding.row, Option.any_none, hexp, if_true, hset]
            rfl
          · simp only [hexp, if_true]
            exact hset'
        · refine ⟨t₁, ?_, ?_⟩
          · simp only [InterruptRequestBinding.row, Option.any_none, hexp, if_false]
            rfl
          · simp only [hexp, if_false]
            refine hpruned.prune.same ?_
            simp only [Phases.prune, hp, Phase.prune, hexp, if_false]
    | lapsed b dropped =>
        rw [hp] at hrow htime
        have hexp : b.expiresAt ≤ now := htime.2.1.trans htime.2.2
        change t₁.find InterruptRow.requestId r = some b.row at hrow
        rw [hrow]
        obtain ⟨t₂, hset, hset'⟩ := hpruned.setTombstone dropped hrow
        refine ⟨t₂, ?_, hset'⟩
        simp only [InterruptRequestBinding.row, Option.any_none, hexp, if_true, hset]
        rfl
    | told dropped asked =>
        rw [hp] at hrow htime
        have hstatus : (Phase.told dropped asked).databaseStatus settings.tombstoneTtlSeconds now =
            if now < asked + settings.tombstoneTtlSeconds then .expired else .missing := rfl
        refine ⟨t₁, ?_, hpruned.same hp⟩
        rcases hrow with ⟨hpos, hfound⟩ | ⟨hnone, hgone⟩ | ⟨hpos, hfound⟩
        · obtain ⟨hmem, -⟩ := (Table.find_eq_some hpruned.keyed.nodup).mp hfound
          have hlate : now < asked + settings.tombstoneTtlSeconds := by
            simpa [InterruptRow.out] using hlive _ hmem
          rw [hfound, hstatus, if_pos hlate]
          simp only [Option.any_some, decide_eq_true hlate, if_true]
          rfl
        · rw [hnone, hstatus, if_neg (by omega)]
          rfl
        · have hasked := htime.2
          rw [hfound, hstatus, if_neg (by omega)]
          rfl

end DatabaseInterrupts.Records

end OpencodeA2a.Store
