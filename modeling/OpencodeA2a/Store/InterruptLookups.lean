import OpencodeA2a.Store.InterruptRepository

/-!
# What a lookup makes of the bindings

`resolve` writes as well: it prunes, and it turns a binding that has run out into a
tombstone. A binding that is still good stays exactly as it is, and an active answer is
the binding that is held.
-/

namespace OpencodeA2a.Store

open OpencodeA2a.Stream (Text)

/-- The binding that a row stands for. -/
def InterruptRow.binding? (row : InterruptRow) : Option InterruptRequestBinding :=
  row.bindingExpiry.map row.binding

def MemoryInterrupts.binding? (m : MemoryInterrupts) (requestId : Text) :
    Option InterruptRequestBinding :=
  m.interruptRequests.get? requestId

def DatabaseInterrupts.binding? (t : DatabaseInterrupts) (requestId : Text) :
    Option InterruptRequestBinding :=
  (t.find InterruptRow.requestId requestId).bind InterruptRow.binding?

/-- A binding stays, if it has not expired. -/
def Kept (now : ℤ) (old new : Option InterruptRequestBinding) : Prop :=
  new = old ∨ ∃ b, old = some b ∧ b.expiresAt ≤ now

theorem Kept.rfl {now : ℤ} {old : Option InterruptRequestBinding} : Kept now old old :=
  Or.inl (Eq.refl _)

section Memory

variable {m : MemoryInterrupts} {settings : InterruptSettings} {now : ℤ} {r : Text}

theorem MemoryInterrupts.pruneRequests_kept :
    Kept now (m.binding? r) ((m.pruneRequests settings now).binding? r) := by
  unfold binding?
  rw [(get?_pruneRequests m now r).1]
  split
  · rename_i hexpired
    obtain ⟨b, hb, he⟩ := (Option.any_eq_true ..).mp hexpired
    exact Or.inr ⟨b, hb, of_decide_eq_true he⟩
  · exact .rfl

theorem MemoryInterrupts.resolve_kept (requestId : Text) :
    Kept now (m.binding? r) ((m.resolve settings now requestId).1.binding? r) := by
  unfold resolve
  split
  · exact .rfl
  · simp only
    split
    · split <;> exact .rfl
    · rename_i b hb
      split
      · rename_i hexpired
        show Kept now _ ((rememberTombstone settings _ now requestId).interruptRequests.get? r)
        rw [interruptRequests_rememberTombstone]
        by_cases hr : r = requestId
        · subst hr
          exact Or.inr ⟨b, hb, hexpired⟩
        · have hpop : ({ (m.pruneTombstones now) with
              interruptRequests := (m.pruneTombstones now).interruptRequests.pop requestId } :
              MemoryInterrupts).binding? r = m.binding? r := Dict.get?_pop_of_ne _ hr
          have hprune := @pruneRequests_kept { (m.pruneTombstones now) with
              interruptRequests := (m.pruneTombstones now).interruptRequests.pop requestId }
              settings now r
          rwa [hpop] at hprune
      · exact pruneRequests_kept

theorem MemoryInterrupts.resolve_active {requestId : Text}
    (h : (m.resolve settings now requestId).2.1 = .active) :
    ∃ b, (m.resolve settings now requestId).2.2 = some b ∧ m.binding? requestId = some b ∧
      now < b.expiresAt := by
  unfold resolve at h ⊢
  split
  · rename_i hempty
    rw [if_pos hempty] at h
    cases h
  · rename_i hempty
    rw [if_neg hempty] at h
    simp only at h ⊢
    split at h
    · split at h <;> cases h
    · rename_i b hb
      split at h
      · cases h
      · rename_i hlive
        rw [if_neg hlive]
        exact ⟨b, Eq.refl _, hb, not_le.mp hlive⟩

end Memory

section Database

variable {t : DatabaseInterrupts} {settings : InterruptSettings} {now : ℤ}

/-- A tombstone that goes is no binding; one that stays has not run out. -/
theorem DatabaseInterrupts.pruneTombstones_binding
    (h : Table.Keyed InterruptRow.requestId (fun _ => true) interruptColumns t) (now : ℤ) :
    ∃ t', DatabaseInterrupts.pruneTombstones t now = .ok t' ∧
      Table.Keyed InterruptRow.requestId (fun _ => true) interruptColumns t' ∧
      (∀ r, DatabaseInterrupts.binding? t' r = DatabaseInterrupts.binding? t r) ∧
      ∀ r row, t'.find InterruptRow.requestId r = some row → row.out now = false := by
  have hnames : ["tombstone_expires_at"] ⊆ interruptColumns := by decide
  obtain ⟨t', hok, hkeyed, hfind⟩ := h.delete hnames fun row => row.out now
  refine ⟨t', hok, hkeyed, ?_, ?_⟩
  · intro r
    unfold DatabaseInterrupts.binding?
    rw [hfind]
    cases t.find InterruptRow.requestId r with
    | none => rfl
    | some row =>
        rw [Option.filter_some]
        split
        · rfl
        · rename_i hout
          rw [Bool.not_eq_true, Bool.not_eq_false'] at hout
          obtain ⟨e, he, -⟩ := (Option.any_eq_true ..).mp hout
          show none = row.binding?
          unfold InterruptRow.binding? InterruptRow.bindingExpiry
          rw [he]
          rfl
  · intro r row hrow
    rw [hfind] at hrow
    have hout := (Option.filter_eq_some_iff.mp hrow).2
    simpa using hout

variable (settings) in
theorem DatabaseInterrupts.setTombstone_kept
    (h : Table.Keyed InterruptRow.requestId (fun _ => true) interruptColumns t) {requestId : Text}
    {row : InterruptRow} (hrow : t.find InterruptRow.requestId requestId = some row) {e : ℤ}
    (he : row.expiresAt = some e) (hexpired : e ≤ now) :
    ∃ t', DatabaseInterrupts.setTombstone settings t now requestId = .ok t' ∧
      Table.Keyed InterruptRow.requestId (fun _ => true) interruptColumns t' ∧
      ∀ r, Kept now (DatabaseInterrupts.binding? t r) (DatabaseInterrupts.binding? t' r) := by
  obtain ⟨t', hok, hkeyed, hfind⟩ := setTombstone_find settings h now requestId
  refine ⟨t', hok, hkeyed, ?_⟩
  intro r
  unfold DatabaseInterrupts.binding?
  rw [hfind]
  by_cases hr : r = requestId
  · subst hr
    have hid : row.requestId = r := ((Table.find_eq_some h.nodup).mp hrow).2
    rw [hrow, Option.map_some, Option.bind_some, Option.bind_some, if_pos (decide_eq_true hid)]
    have hnone : ∀ ttl : Option ℤ, ({ requestId := row.requestId, tombstoneExpiresAt := ttl } :
        InterruptRow).binding? = none := by
      intro ttl
      cases ttl <;> rfl
    rw [hnone]
    cases hb : row.binding? with
    | none => exact .rfl
    | some b =>
        -- the row stood for a binding, and that has expired
        obtain ⟨e', he', rfl⟩ := Option.map_eq_some_iff.mp hb
        have hexpiry : e' = e := by
          unfold InterruptRow.bindingExpiry at he'
          split at he'
          · exact Option.some.inj (he'.symm.trans he)
          · cases he'
        exact Or.inr ⟨_, Eq.refl _, hexpiry ▸ hexpired⟩
  · cases hother : t.find InterruptRow.requestId r with
    | none => exact .rfl
    | some row' =>
        have hid : row'.requestId = r := ((Table.find_eq_some h.nodup).mp hother).2
        have hnot : ¬ row'.requestId = requestId := fun heq => hr (hid ▸ heq)
        rw [Option.map_some, if_neg (by simpa using hnot)]
        exact .rfl

variable (settings) in
theorem DatabaseInterrupts.resolve_binding
    (h : Table.Keyed InterruptRow.requestId (fun _ => true) interruptColumns t) (now : ℤ)
    (requestId : Text) :
    ∃ t' status binding,
      DatabaseInterrupts.resolve settings t now requestId = .ok (t', status, binding) ∧
      Table.Keyed InterruptRow.requestId (fun _ => true) interruptColumns t' ∧
      (∀ r, Kept now (DatabaseInterrupts.binding? t r) (DatabaseInterrupts.binding? t' r)) ∧
      (status = .active → ∃ b, binding = some b ∧
        DatabaseInterrupts.binding? t requestId = some b ∧ now < b.expiresAt) := by
  unfold DatabaseInterrupts.resolve
  split
  · exact ⟨t, _, _, rfl, h, fun _ => .rfl, by rintro ⟨⟩⟩
  · obtain ⟨t₁, hprune, hkeyed, hsame, hlive⟩ := pruneTombstones_binding h now
    have hselect := hkeyed.select (List.Subset.refl _) fun row =>
      decide_eq_true_iff (p := row.requestId = requestId)
    have hkept : ∀ r, Kept now (DatabaseInterrupts.binding? t r)
        (DatabaseInterrupts.binding? t₁ r) := fun r => Or.inl (hsame r)
    rw [hprune]
    simp only [bind, Except.bind]
    rw [hselect]
    simp only [Table.oneOrNone_toList]
    cases hrow : t₁.find InterruptRow.requestId requestId with
    | none => exact ⟨t₁, _, _, rfl, hkeyed, hkept, by rintro ⟨⟩⟩
    | some row =>
        simp only
        split
        · exact ⟨t₁, _, _, rfl, hkeyed, hkept, by rintro ⟨⟩⟩
        · rename_i hstanding
          split
          · exact ⟨t₁, _, _, rfl, hkeyed, hkept, by rintro ⟨⟩⟩
          · rename_i e he
            split
            · rename_i hexpired
              obtain ⟨t₂, hok, hkeyed₂, hkept₂⟩ :=
                setTombstone_kept settings hkeyed hrow he hexpired
              rw [hok]
              refine ⟨t₂, _, _, rfl, hkeyed₂, fun r => ?_, by rintro ⟨⟩⟩
              rw [← hsame r]
              exact hkept₂ r
            · rename_i hfresh
              refine ⟨t₁, _, _, rfl, hkeyed, hkept, fun _ => ⟨_, rfl, ?_, not_le.mp hfresh⟩⟩
              -- neither a tombstone that has run out nor one that stands
              have hnone : row.tombstoneExpiresAt = none := by
                cases htomb : row.tombstoneExpiresAt with
                | none => rfl
                | some d =>
                    have hout := hlive requestId row hrow
                    unfold InterruptRow.out at hout
                    rw [htomb] at hout hstanding
                    simp only [Option.any_some, decide_eq_false_iff_not, decide_eq_true_eq]
                      at hout hstanding
                    exact absurd (not_le.mp hout) hstanding
              rw [← hsame requestId]
              unfold DatabaseInterrupts.binding?
              rw [hrow, Option.bind_some]
              unfold InterruptRow.binding? InterruptRow.bindingExpiry
              rw [hnone, he]
              rfl

end Database

namespace InterruptRepository

variable {repository : InterruptRepository}

/-- The binding that is held for a request, expired or not. -/
def binding? (requestId : Text) : InterruptRepository → Option InterruptRequestBinding
  | memory _ m => m.binding? requestId
  | database _ t => DatabaseInterrupts.binding? t requestId

theorem resolve_binding (h : repository.Sound) (now : ℤ) (requestId : Text) :
    ∃ next status binding, repository.resolve now requestId = .ok (next, status, binding) ∧
      next.Sound ∧ (∀ r, Kept now (repository.binding? r) (next.binding? r)) ∧
      (status = .active → ∃ b, binding = some b ∧ repository.binding? requestId = some b ∧
        now < b.expiresAt) := by
  cases repository with
  | memory settings m =>
      exact ⟨_, _, _, rfl, trivial, fun r => MemoryInterrupts.resolve_kept requestId,
        MemoryInterrupts.resolve_active⟩
  | database settings t =>
      obtain ⟨t', status, binding, hok, hkeyed, hkept, hactive⟩ :=
        DatabaseInterrupts.resolve_binding settings h now requestId
      refine ⟨database settings t', status, binding, ?_, hkeyed, hkept, hactive⟩
      simp only [resolve, hok]
      rfl

end InterruptRepository

end OpencodeA2a.Store
