import OpencodeA2a.Store.Lifecycle

/-!
# The interrupt repository that a process uses

`InterruptRequestRepository` has two implementations. For both, a request that is
not held stays so until it is remembered, whatever else happens to the repository
and whatever the clock does.
-/

namespace OpencodeA2a.Store

open OpencodeA2a.Stream (Text Json Mapping)

inductive InterruptRepository where
  | memory (settings : InterruptSettings) (m : MemoryInterrupts)
  | database (settings : InterruptSettings) (t : DatabaseInterrupts)

namespace InterruptRepository

/-! ## §1  Operations -/

def perform (now : ℤ) (op : InterruptOp) :
    InterruptRepository → Except DbError (InterruptRepository × InterruptReply)
  | memory settings m =>
      .ok (memory settings (m.perform settings now op).1, (m.perform settings now op).2)
  | database settings t => do
      let (t, reply) ← DatabaseInterrupts.perform settings now t op
      return (database settings t, reply)

def resolve (now : ℤ) (requestId : Text) : InterruptRepository →
    Except DbError (InterruptRepository × InterruptStatus × Option InterruptRequestBinding)
  | memory settings m =>
      .ok (memory settings (m.resolve settings now requestId).1,
        (m.resolve settings now requestId).2)
  | database settings t => do
      let (t, answer) ← DatabaseInterrupts.resolve settings t now requestId
      return (database settings t, answer)

def discard (requestId : Text) : InterruptRepository → Except DbError InterruptRepository
  | memory settings m => .ok (memory settings (m.discard requestId))
  | database settings t => do return database settings (← DatabaseInterrupts.discard t requestId)

/-! ## §2  What is held -/

/-- The table has its columns and its key. -/
def Sound : InterruptRepository → Prop
  | memory _ _ => True
  | database _ t => Table.Keyed InterruptRow.requestId (fun _ => true) interruptColumns t

/-- Something is recorded of the request. -/
def holds (requestId : Text) : InterruptRepository → Bool
  | memory _ m => (m.interruptRequests.get? requestId).isSome
  | database _ t => (t.find InterruptRow.requestId requestId).isSome

end InterruptRepository

/-- Whether an operation remembers the request. -/
def InterruptOp.remembers (requestId : Text) : InterruptOp → Bool
  | .remember request => request.requestId = requestId
  | _ => false

section Memory

variable {m : MemoryInterrupts} {settings : InterruptSettings} {r : Text}

theorem MemoryInterrupts.pruneRequests_get?_none (h : m.interruptRequests.get? r = none)
    (now : ℤ) : (m.pruneRequests settings now).interruptRequests.get? r = none := by
  rw [(get?_pruneRequests m now r).1, h]
  rfl

theorem MemoryInterrupts.resolve_get?_none (h : m.interruptRequests.get? r = none) (now : ℤ)
    (requestId : Text) :
    (m.resolve settings now requestId).1.interruptRequests.get? r = none := by
  unfold resolve
  split
  · exact h
  · simp only
    split
    · split <;> exact h
    · split
      · rw [interruptRequests_rememberTombstone]
        apply pruneRequests_get?_none
        change (m.interruptRequests.pop requestId).get? r = none
        rw [Dict.get?_pop]
        split
        · rfl
        · exact h
      · apply pruneRequests_get?_none
        exact h

theorem MemoryInterrupts.perform_get?_none (h : m.interruptRequests.get? r = none) (now : ℤ)
    {op : InterruptOp} (hop : op.remembers r = false) :
    (m.perform settings now op).1.interruptRequests.get? r = none := by
  cases op with
  | remember request =>
      have hne : r ≠ request.requestId := by
        rintro rfl
        simp [InterruptOp.remembers] at hop
      change (Dict.set _ request.requestId _).get? r = none
      rw [Dict.get?_set_of_ne _ hne]
      exact pruneRequests_get?_none h now
  | resolve requestId => exact resolve_get?_none h now requestId
  | discard requestId =>
      change (m.interruptRequests.pop requestId).get? r = none
      rw [Dict.get?_pop]
      split
      · rfl
      · exact h
  | listPending identity interruptType => exact pruneRequests_get?_none h now

end Memory

section Database

variable {t : DatabaseInterrupts} {r : Text}

/-- The table, with no row more for the requests that are not remembered. -/
structure DatabaseInterrupts.Follows (op : InterruptOp) (t t' : DatabaseInterrupts) : Prop where
  keyed : Table.Keyed InterruptRow.requestId (fun _ => true) interruptColumns t'
  absent : ∀ r, op.remembers r = false → t.find InterruptRow.requestId r = none →
    t'.find InterruptRow.requestId r = none

theorem DatabaseInterrupts.pruneTombstones_follows
    (h : Table.Keyed InterruptRow.requestId (fun _ => true) interruptColumns t) (now : ℤ)
    (op : InterruptOp) :
    ∃ t', DatabaseInterrupts.pruneTombstones t now = .ok t' ∧ Follows op t t' := by
  have hnames : ["tombstone_expires_at"] ⊆ interruptColumns := by decide
  obtain ⟨t', hok, hkeyed, hfind⟩ := h.delete hnames fun row => row.out now
  refine ⟨t', hok, hkeyed, ?_⟩
  intro r _ hnone
  rw [hfind, hnone]
  rfl

theorem DatabaseInterrupts.Follows.trans {op : InterruptOp} {t t' t'' : DatabaseInterrupts}
    (h : Follows op t t') (h' : Follows op t' t'') : Follows op t t'' :=
  ⟨h'.keyed, fun r hr hnone => h'.absent r hr (h.absent r hr hnone)⟩

theorem DatabaseInterrupts.setTombstone_follows (settings : InterruptSettings)
    (h : Table.Keyed InterruptRow.requestId (fun _ => true) interruptColumns t) (now : ℤ)
    (requestId : Text) (op : InterruptOp) :
    ∃ t', DatabaseInterrupts.setTombstone settings t now requestId = .ok t' ∧
      Follows op t t' := by
  obtain ⟨t', hok, hkeyed, hfind⟩ := setTombstone_find settings h now requestId
  refine ⟨t', hok, hkeyed, ?_⟩
  intro r _ hnone
  rw [hfind, hnone]
  rfl

theorem DatabaseInterrupts.resolve_follows (settings : InterruptSettings)
    (h : Table.Keyed InterruptRow.requestId (fun _ => true) interruptColumns t) (now : ℤ)
    (requestId : Text) :
    ∃ t' answer, DatabaseInterrupts.resolve settings t now requestId = .ok (t', answer) ∧
      Follows (.resolve requestId) t t' := by
  unfold DatabaseInterrupts.resolve
  split
  · exact ⟨t, _, rfl, h, fun r _ hnone => hnone⟩
  · obtain ⟨t₁, hprune, hfollows⟩ := pruneTombstones_follows h now (.resolve requestId)
    have hselect := hfollows.keyed.select (List.Subset.refl _) fun row =>
      decide_eq_true_iff (p := row.requestId = requestId)
    rw [hprune]
    simp only [bind, Except.bind]
    rw [hselect]
    simp only [Table.oneOrNone_toList]
    cases t₁.find InterruptRow.requestId requestId with
    | none => exact ⟨t₁, _, rfl, hfollows⟩
    | some row =>
        simp only
        split
        · exact ⟨t₁, _, rfl, hfollows⟩
        · split
          · exact ⟨t₁, _, rfl, hfollows⟩
          · split
            · obtain ⟨t₂, hset, hnext⟩ :=
                setTombstone_follows settings hfollows.keyed now requestId (.resolve requestId)
              rw [hset]
              exact ⟨t₂, _, rfl, hfollows.trans hnext⟩
            · exact ⟨t₁, _, rfl, hfollows⟩

theorem DatabaseInterrupts.discard_follows
    (h : Table.Keyed InterruptRow.requestId (fun _ => true) interruptColumns t)
    (requestId : Text) :
    ∃ t', DatabaseInterrupts.discard t requestId = .ok t' ∧
      Follows (.discard requestId) t t' ∧ t'.find InterruptRow.requestId requestId = none := by
  have hnames : ["request_id"] ⊆ interruptColumns := by decide
  obtain ⟨t', hok, hkeyed, hfind⟩ := h.delete_key hnames fun row =>
    decide_eq_true_iff (p := row.requestId = requestId)
  refine ⟨t', hok, ⟨hkeyed, ?_⟩, ?_⟩
  · intro r _ hnone
    rw [hfind, hnone, ite_self]
  · rw [hfind, if_pos rfl]

theorem DatabaseInterrupts.perform_follows (settings : InterruptSettings)
    (h : Table.Keyed InterruptRow.requestId (fun _ => true) interruptColumns t) (now : ℤ)
    (op : InterruptOp) :
    ∃ t' reply, DatabaseInterrupts.perform settings now t op = .ok (t', reply) ∧
      Follows op t t' := by
  cases op with
  | remember request =>
      obtain ⟨t₁, hprune, hfollows⟩ := pruneTombstones_follows h now (.remember request)
      obtain ⟨t₂, hok, hkeyed, hfind⟩ := remember_find settings hprune hfollows.keyed request
      refine ⟨t₂, .done, ?_, hfollows.trans ⟨hkeyed, ?_⟩⟩
      · simp only [DatabaseInterrupts.perform, hok]
        rfl
      · intro r hr hnone
        have hne : r ≠ request.requestId := by
          rintro rfl
          simp [InterruptOp.remembers] at hr
        rw [hfind]
        exact (if_neg hne).trans hnone
  | resolve requestId =>
      obtain ⟨t', answer, hok, hfollows⟩ := resolve_follows settings h now requestId
      refine ⟨t', .resolved answer.1 answer.2, ?_, hfollows⟩
      simp only [DatabaseInterrupts.perform, hok]
      rfl
  | discard requestId =>
      obtain ⟨t', hok, hfollows, -⟩ := discard_follows h requestId
      refine ⟨t', .done, ?_, hfollows⟩
      simp only [DatabaseInterrupts.perform, hok]
      rfl
  | listPending identity interruptType =>
      obtain ⟨t₁, hprune, hfollows⟩ :=
        pruneTombstones_follows h now (.listPending identity interruptType)
      have hselect := hfollows.keyed.select_rows (List.Subset.refl interruptColumns)
        (DatabaseInterrupts.pendingRow now identity interruptType)
      refine ⟨t₁, .pending (((t₁.rows.filter
        (DatabaseInterrupts.pendingRow now identity interruptType)).filterMap fun row =>
          row.expiresAt.map row.binding).mergeSort InterruptRequestBinding.before), ?_, hfollows⟩
      simp only [DatabaseInterrupts.perform, DatabaseInterrupts.listPending, hprune]
      simp only [bind, Except.bind, hselect]
      rfl

end Database

namespace InterruptRepository

variable {repository : InterruptRepository} {r : Text}

theorem holds_memory {settings : InterruptSettings} {m : MemoryInterrupts} :
    (memory settings m).holds r = false ↔ m.interruptRequests.get? r = none := by
  rw [← Option.isNone_iff_eq_none, ← Option.isSome_eq_false_iff]
  rfl

theorem holds_database {settings : InterruptSettings} {t : DatabaseInterrupts} :
    (database settings t).holds r = false ↔ t.find InterruptRow.requestId r = none := by
  rw [← Option.isNone_iff_eq_none, ← Option.isSome_eq_false_iff]
  rfl

theorem perform_sound (h : repository.Sound) (now : ℤ) (op : InterruptOp) :
    ∃ next reply, repository.perform now op = .ok (next, reply) ∧ next.Sound ∧
      (op.remembers r = false → repository.holds r = false → next.holds r = false) := by
  cases repository with
  | memory settings m =>
      refine ⟨_, _, rfl, trivial, ?_⟩
      intro hop hholds
      rw [holds_memory] at hholds ⊢
      exact MemoryInterrupts.perform_get?_none hholds now hop
  | database settings t =>
      obtain ⟨t', reply, hok, hfollows⟩ := DatabaseInterrupts.perform_follows settings h now op
      refine ⟨database settings t', reply, ?_, hfollows.keyed, ?_⟩
      · simp only [perform, hok]
        rfl
      · intro hop hholds
        rw [holds_database] at hholds ⊢
        exact hfollows.absent r hop hholds

theorem resolve_sound (h : repository.Sound) (now : ℤ) (requestId : Text) :
    ∃ next answer, repository.resolve now requestId = .ok (next, answer) ∧ next.Sound ∧
      (repository.holds r = false → next.holds r = false) := by
  cases repository with
  | memory settings m =>
      refine ⟨_, _, rfl, trivial, ?_⟩
      intro hholds
      rw [holds_memory] at hholds ⊢
      exact MemoryInterrupts.resolve_get?_none hholds now requestId
  | database settings t =>
      obtain ⟨t', answer, hok, hfollows⟩ := DatabaseInterrupts.resolve_follows settings h now requestId
      refine ⟨database settings t', answer, ?_, hfollows.keyed, ?_⟩
      · simp only [resolve, hok]
        rfl
      · intro hholds
        rw [holds_database] at hholds ⊢
        exact hfollows.absent r rfl hholds

theorem discard_sound (h : repository.Sound) (requestId : Text) :
    ∃ next, repository.discard requestId = .ok next ∧ next.Sound ∧
      next.holds requestId = false ∧ (repository.holds r = false → next.holds r = false) := by
  cases repository with
  | memory settings m =>
      refine ⟨_, rfl, trivial, ?_, ?_⟩
      · exact holds_memory.mpr (Dict.get?_pop_self ..)
      · intro hholds
        rw [holds_memory] at hholds ⊢
        have hop : (InterruptOp.discard requestId).remembers r = false := rfl
        exact @MemoryInterrupts.perform_get?_none m settings r hholds 0 _ hop
  | database settings t =>
      obtain ⟨t', hok, hfollows, hnone⟩ := DatabaseInterrupts.discard_follows h requestId
      refine ⟨database settings t', ?_, hfollows.keyed, ?_, ?_⟩
      · simp only [discard, hok]
        rfl
      · exact holds_database.mpr hnone
      · intro hholds
        rw [holds_database] at hholds ⊢
        exact hfollows.absent r rfl hholds

end InterruptRepository

/-! ## §3  Bindings

What an operation makes of the binding of one request, as long as that has not
expired. -/

/-- A row stands for a binding unless it is a tombstone. -/
def InterruptRow.bindingExpiry (row : InterruptRow) : Option ℤ :=
  if row.tombstoneExpiresAt.isNone then row.expiresAt else none

def MemoryInterrupts.expiry? (m : MemoryInterrupts) (requestId : Text) : Option ℤ :=
  (m.interruptRequests.get? requestId).map InterruptRequestBinding.expiresAt

def DatabaseInterrupts.expiry? (t : DatabaseInterrupts) (requestId : Text) : Option ℤ :=
  (t.find InterruptRow.requestId requestId).bind InterruptRow.bindingExpiry

/-- When the binding of a request expires, after an operation. -/
def InterruptOp.expiryAfter (settings : InterruptSettings) (now : ℤ) (requestId : Text)
    (expiry : Option ℤ) : InterruptOp → Option ℤ
  | .remember request =>
      if request.requestId = requestId then some (settings.expiry now request) else expiry
  | .discard discarded => if discarded = requestId then none else expiry
  | _ => expiry

section Memory

variable {m : MemoryInterrupts} {settings : InterruptSettings} {now : ℤ} {r : Text}

theorem MemoryInterrupts.expiry?_pruneRequests (h : ∀ e, m.expiry? r = some e → now < e) :
    (m.pruneRequests settings now).expiry? r = m.expiry? r := by
  unfold expiry? at h ⊢
  rw [(get?_pruneRequests m now r).1]
  split
  · rename_i hexpired
    obtain ⟨b, hb, he⟩ := (Option.any_eq_true ..).mp hexpired
    have hlt : now < b.expiresAt := h b.expiresAt (by rw [hb]; rfl)
    exact absurd (of_decide_eq_true he) (not_le.mpr hlt)
  · rfl

theorem MemoryInterrupts.perform_expiry (h : ∀ e, m.expiry? r = some e → now < e)
    (op : InterruptOp) :
    (m.perform settings now op).1.expiry? r = op.expiryAfter settings now r (m.expiry? r) := by
  have hpruned : ((m.pruneRequests settings now).pruneTombstones now).expiry? r = m.expiry? r :=
    expiry?_pruneRequests h
  cases op with
  | listPending identity interruptType => exact hpruned
  | remember request =>
      show ((Dict.set _ request.requestId _).get? r).map _ =
        if request.requestId = r then some (settings.expiry now request) else m.expiry? r
      rw [Dict.get?_set]
      by_cases hr : r = request.requestId
      · subst hr
        rw [if_pos rfl, if_pos rfl]
        rfl
      · rw [if_neg hr, if_neg fun heq => hr heq.symm]
        exact hpruned
  | discard discarded =>
      show ((m.interruptRequests.pop discarded).get? r).map _ =
        if discarded = r then none else m.expiry? r
      rw [Dict.get?_pop]
      by_cases hr : r = discarded
      · subst hr
        rw [if_pos rfl, if_pos rfl]
        rfl
      · rw [if_neg hr, if_neg fun heq => hr heq.symm]
        rfl
  | resolve requestId =>
      show (m.resolve settings now requestId).1.expiry? r = m.expiry? r
      unfold resolve
      split
      · rfl
      · simp only
        split
        · split <;> rfl
        · rename_i b hb
          split
          · -- the request asked for has expired, so it is another one
            rename_i hexpired
            have hne : r ≠ requestId := by
              rintro rfl
              refine absurd hexpired (not_le.mpr (h b.expiresAt ?_))
              show (m.interruptRequests.get? r).map _ = _
              rw [show m.interruptRequests.get? r = some b from hb]
              rfl
            have hpop : ({ (m.pruneTombstones now) with
                interruptRequests := (m.pruneTombstones now).interruptRequests.pop requestId } :
                MemoryInterrupts).expiry? r = m.expiry? r := by
              show ((m.interruptRequests.pop requestId).get? r).map _ = _
              rw [Dict.get?_pop_of_ne _ hne]
              rfl
            have hprune := @expiry?_pruneRequests _ settings now r (fun e he => h e (hpop ▸ he))
            show Option.map _ ((rememberTombstone settings _ now requestId).interruptRequests.get? r) = _
            rw [interruptRequests_rememberTombstone]
            exact hprune.trans hpop
          · exact expiry?_pruneRequests h

end Memory

section Database

variable {t : DatabaseInterrupts} {settings : InterruptSettings} {now : ℤ} {r : Text}

/-- A tombstone that goes is no binding. -/
theorem DatabaseInterrupts.pruneTombstones_expiry
    (h : Table.Keyed InterruptRow.requestId (fun _ => true) interruptColumns t) (now : ℤ) :
    ∃ t', DatabaseInterrupts.pruneTombstones t now = .ok t' ∧
      Table.Keyed InterruptRow.requestId (fun _ => true) interruptColumns t' ∧
      ∀ r, DatabaseInterrupts.expiry? t' r = DatabaseInterrupts.expiry? t r := by
  have hnames : ["tombstone_expires_at"] ⊆ interruptColumns := by decide
  obtain ⟨t', hok, hkeyed, hfind⟩ := h.delete hnames fun row => row.out now
  refine ⟨t', hok, hkeyed, ?_⟩
  intro r
  unfold DatabaseInterrupts.expiry?
  rw [hfind]
  cases t.find InterruptRow.requestId r with
  | none => rfl
  | some row =>
      rw [Option.filter_some]
      split
      · rfl
      · rename_i hout
        rw [Bool.not_eq_true, Bool.not_eq_false'] at hout
        obtain ⟨e, he, -⟩ := (Option.any_eq_true ..).mp hout
        show none = row.bindingExpiry
        unfold InterruptRow.bindingExpiry
        rw [he]
        rfl

theorem DatabaseInterrupts.resolve_expiry (settings : InterruptSettings)
    (h : Table.Keyed InterruptRow.requestId (fun _ => true) interruptColumns t)
    (hfresh : ∀ e, DatabaseInterrupts.expiry? t r = some e → now < e) (requestId : Text) :
    ∃ t' answer, DatabaseInterrupts.resolve settings t now requestId = .ok (t', answer) ∧
      Table.Keyed InterruptRow.requestId (fun _ => true) interruptColumns t' ∧
      DatabaseInterrupts.expiry? t' r = DatabaseInterrupts.expiry? t r := by
  unfold DatabaseInterrupts.resolve
  split
  · exact ⟨t, _, rfl, h, rfl⟩
  · obtain ⟨t₁, hprune, hkeyed, hsame⟩ := pruneTombstones_expiry h now
    have hselect := hkeyed.select (List.Subset.refl _) fun row =>
      decide_eq_true_iff (p := row.requestId = requestId)
    rw [hprune]
    simp only [bind, Except.bind]
    rw [hselect]
    simp only [Table.oneOrNone_toList]
    cases hrow : t₁.find InterruptRow.requestId requestId with
    | none => exact ⟨t₁, _, rfl, hkeyed, hsame r⟩
    | some row =>
        simp only
        split
        · exact ⟨t₁, _, rfl, hkeyed, hsame r⟩
        · split
          · exact ⟨t₁, _, rfl, hkeyed, hsame r⟩
          · rename_i e he
            split
            · rename_i hexpired
              obtain ⟨t₂, hset, hkeyed₂, hfind⟩ := setTombstone_find settings hkeyed now requestId
              rw [hset]
              refine ⟨t₂, _, rfl, hkeyed₂, Eq.trans ?_ (hsame r)⟩
              unfold expiry?
              rw [hfind]
              by_cases hr : r = requestId
              · -- what was asked for has expired: it was no binding
                subst hr
                have hnone : row.bindingExpiry = none := by
                  cases hb : row.bindingExpiry with
                  | none => rfl
                  | some e' =>
                      have he' : e' = e := by
                        unfold InterruptRow.bindingExpiry at hb
                        split at hb
                        · exact Option.some.inj (hb.symm.trans he)
                        · cases hb
                      have hlt : now < e' := hfresh e' (by
                        rw [← hsame r]
                        unfold expiry?
                        rw [hrow]
                        exact hb)
                      exact absurd hexpired (not_le.mpr (he' ▸ hlt))
                rw [hrow]
                show Option.bind (some (if _ then _ else _)) _ = row.bindingExpiry
                rw [hnone, Option.bind_some]
                split
                · unfold InterruptRow.bindingExpiry
                  split <;> rfl
                · exact hnone
              · cases hother : t₁.find InterruptRow.requestId r with
                | none => rfl
                | some row' =>
                    have hid : row'.requestId = r :=
                      ((Table.find_eq_some hkeyed.nodup).mp hother).2
                    have hnot : ¬ row'.requestId = requestId := fun heq => hr (hid ▸ heq)
                    simp only [Option.map_some, decide_eq_true_eq, if_neg hnot]
            · exact ⟨t₁, _, rfl, hkeyed, hsame r⟩

theorem DatabaseInterrupts.perform_expiry (settings : InterruptSettings)
    (h : Table.Keyed InterruptRow.requestId (fun _ => true) interruptColumns t)
    (hfresh : ∀ e, DatabaseInterrupts.expiry? t r = some e → now < e) (op : InterruptOp) :
    ∃ t' reply, DatabaseInterrupts.perform settings now t op = .ok (t', reply) ∧
      Table.Keyed InterruptRow.requestId (fun _ => true) interruptColumns t' ∧
      DatabaseInterrupts.expiry? t' r =
        op.expiryAfter settings now r (DatabaseInterrupts.expiry? t r) := by
  cases op with
  | remember request =>
      obtain ⟨t₁, hprune, hkeyed₁, hsame⟩ := pruneTombstones_expiry h now
      obtain ⟨t₂, hok, hkeyed, hfind⟩ := remember_find settings hprune hkeyed₁ request
      refine ⟨t₂, .done, ?_, hkeyed, ?_⟩
      · simp only [DatabaseInterrupts.perform, hok]
        rfl
      · show Option.bind _ _ = if request.requestId = r then
          some (settings.expiry now request) else expiry? t r
        rw [hfind]
        by_cases hr : r = request.requestId
        · subst hr
          rw [if_pos rfl, if_pos rfl]
          rfl
        · rw [if_neg fun heq : request.requestId = r => hr heq.symm, ← hsame r]
          exact congrArg (Option.bind · _) (if_neg hr)
  | resolve requestId =>
      obtain ⟨t', answer, hok, hkeyed, hsame⟩ := resolve_expiry settings h hfresh requestId
      refine ⟨t', .resolved answer.1 answer.2, ?_, hkeyed, hsame⟩
      simp only [DatabaseInterrupts.perform, hok]
      rfl
  | discard discarded =>
      have hnames : ["request_id"] ⊆ interruptColumns := by decide
      obtain ⟨t', hok, hkeyed, hfind⟩ := h.delete_key hnames fun row =>
        decide_eq_true_iff (p := row.requestId = discarded)
      have hdiscard : DatabaseInterrupts.discard t discarded = .ok t' := hok
      refine ⟨t', .done, ?_, hkeyed, ?_⟩
      · simp only [DatabaseInterrupts.perform, hdiscard]
        rfl
      · show Option.bind _ _ = if discarded = r then none else expiry? t r
        rw [hfind]
        by_cases hr : r = discarded
        · subst hr
          rw [if_pos rfl, if_pos rfl]
          rfl
        · rw [if_neg hr, if_neg fun heq : discarded = r => hr heq.symm]
          rfl
  | listPending identity interruptType =>
      obtain ⟨t₁, hprune, hkeyed, hsame⟩ := pruneTombstones_expiry h now
      have hselect := hkeyed.select_rows (List.Subset.refl interruptColumns)
        (DatabaseInterrupts.pendingRow now identity interruptType)
      refine ⟨t₁, .pending (((t₁.rows.filter
        (DatabaseInterrupts.pendingRow now identity interruptType)).filterMap fun row =>
          row.expiresAt.map row.binding).mergeSort InterruptRequestBinding.before), ?_, hkeyed,
          hsame r⟩
      simp only [DatabaseInterrupts.perform, DatabaseInterrupts.listPending, hprune]
      simp only [bind, Except.bind, hselect]
      rfl

end Database

namespace InterruptRepository

variable {repository : InterruptRepository} {now : ℤ} {r : Text}

def settings : InterruptRepository → InterruptSettings
  | memory settings _ => settings
  | database settings _ => settings

/-- When the binding that is held for a request expires. -/
def expiry? (requestId : Text) : InterruptRepository → Option ℤ
  | memory _ m => m.expiry? requestId
  | database _ t => DatabaseInterrupts.expiry? t requestId

theorem perform_expiry (h : repository.Sound)
    (hfresh : ∀ e, repository.expiry? r = some e → now < e) (op : InterruptOp) :
    ∃ next reply, repository.perform now op = .ok (next, reply) ∧ next.Sound ∧
      next.expiry? r = op.expiryAfter repository.settings now r (repository.expiry? r) := by
  cases repository with
  | memory settings m =>
      exact ⟨_, _, rfl, trivial, MemoryInterrupts.perform_expiry hfresh op⟩
  | database settings t =>
      obtain ⟨t', reply, hok, hkeyed, hexpiry⟩ :=
        DatabaseInterrupts.perform_expiry settings h hfresh op
      refine ⟨database settings t', reply, ?_, hkeyed, hexpiry⟩
      simp only [perform, hok]
      rfl

end InterruptRepository

end OpencodeA2a.Store
