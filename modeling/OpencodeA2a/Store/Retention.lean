import OpencodeA2a.Store.Lifecycle

/-!
# What clients see of an interrupt request

Both repositories follow the same phases, so what they answer can be compared
phase by phase. They differ in when the tombstone starts, and only in that; in
each of them a request is active, then expired, then missing.
-/

namespace OpencodeA2a.Store

open OpencodeA2a.Stream (Text Json Mapping)

/-! ## §1  Details that have been to the database -/

/-- The order of the entries in the text of an object. -/
def keyOrder (a b : Text × Json) : Bool := a.1 ≤ b.1

theorem pairwise_keyOrder (es : List (Text × Json)) :
    (es.mergeSort keyOrder).Pairwise fun a b => keyOrder a b = true := by
  apply List.pairwise_mergeSort
  · intro a b c hab hbc
    rw [keyOrder, decide_eq_true_eq] at *
    exact hab.trans hbc
  · intro a b
    rw [Bool.or_eq_true, keyOrder, keyOrder, decide_eq_true_eq, decide_eq_true_eq]
    exact le_total a.1 b.1

theorem sortEntries_eq_map (es : List (Text × Json)) :
    sortEntries es = es.map fun e => (e.1, sortKeys e.2) := by
  induction es with
  | nil => rfl
  | cons e es ih =>
      obtain ⟨key, j⟩ := e
      rw [sortEntries, ih]
      rfl

theorem sortEntries_mergeSort (es : List (Text × Json)) :
    sortEntries (es.mergeSort keyOrder) = (sortEntries es).mergeSort keyOrder := by
  rw [sortEntries_eq_map, sortEntries_eq_map, List.map_mergeSort]
  intro a _ b _
  rfl

mutual

theorem sortKeys_sortKeys (j : Json) : sortKeys (sortKeys j) = sortKeys j := by
  cases j with
  | null | bool b | int n | float lit isZero | str s => rfl
  | arr items =>
      rw [sortKeys, sortKeys, sortItems_sortItems items]
  | obj entries =>
      have hinner := sortEntries_sortEntries entries
      change Json.obj ((sortEntries ((sortEntries entries).mergeSort keyOrder)).mergeSort keyOrder) =
        Json.obj ((sortEntries entries).mergeSort keyOrder)
      rw [sortEntries_mergeSort, hinner, List.mergeSort_of_pairwise (pairwise_keyOrder _)]

theorem sortItems_sortItems (js : List Json) : sortItems (sortItems js) = sortItems js := by
  cases js with
  | nil => rfl
  | cons j js => rw [sortItems, sortItems, sortKeys_sortKeys j, sortItems_sortItems js]

theorem sortEntries_sortEntries (es : List (Text × Json)) :
    sortEntries (sortEntries es) = sortEntries es := by
  cases es with
  | nil => rfl
  | cons e es =>
      obtain ⟨key, j⟩ := e
      rw [sortEntries, sortEntries, sortKeys_sortKeys j, sortEntries_sortEntries es]

end

theorem encodeDetails_encodeDetails (details : Option Mapping) :
    encodeDetails (encodeDetails details) = encodeDetails details := by
  cases details with
  | none => rfl
  | some es =>
      have hkeys := sortKeys_sortKeys (.obj es)
      rw [sortKeys, sortKeys, Json.obj.injEq] at hkeys
      exact congrArg some hkeys

theorem InterruptRequestBinding.reloaded_reloaded (b : InterruptRequestBinding) :
    b.reloaded.reloaded = b.reloaded := by
  unfold InterruptRequestBinding.reloaded
  rw [encodeDetails_encodeDetails]

/-! ## §2  Listings -/

theorem InterruptRequestBinding.before_iff {a b : InterruptRequestBinding} :
    a.before b = true ↔
      a.expiresAt < b.expiresAt ∨ a.expiresAt = b.expiresAt ∧ a.requestId ≤ b.requestId := by
  rw [InterruptRequestBinding.before, decide_eq_true_eq]

theorem pairwise_before (bs : List InterruptRequestBinding) :
    (bs.mergeSort InterruptRequestBinding.before).Pairwise fun a b => a.before b = true := by
  apply List.pairwise_mergeSort
  · intro a b c hab hbc
    rw [InterruptRequestBinding.before_iff] at *
    rcases hab with hab | ⟨hab, hid⟩ <;> rcases hbc with hbc | ⟨hbc, hid'⟩
    · exact .inl (hab.trans hbc)
    · exact .inl (hbc ▸ hab)
    · exact .inl (hab ▸ hbc)
    · exact .inr ⟨hab.trans hbc, hid.trans hid'⟩
  · intro a b
    rw [Bool.or_eq_true, InterruptRequestBinding.before_iff, InterruptRequestBinding.before_iff]
    rcases lt_trichotomy a.expiresAt b.expiresAt with h | h | h
    · exact .inl (.inl h)
    · rcases le_total a.requestId b.requestId with hid | hid
      · exact .inl (.inr ⟨h, hid⟩)
      · exact .inr (.inr ⟨h.symm, hid⟩)
    · exact .inr (.inl h)

/-- Bindings of different requests have one order. -/
theorem mergeSort_before_eq {bs cs : List InterruptRequestBinding} (hperm : bs.Perm cs)
    (hids : (bs.map InterruptRequestBinding.requestId).Nodup) :
    bs.mergeSort InterruptRequestBinding.before = cs.mergeSort InterruptRequestBinding.before := by
  have hbs := List.mergeSort_perm bs InterruptRequestBinding.before
  have hcs := List.mergeSort_perm cs InterruptRequestBinding.before
  refine ((hbs.trans hperm).trans hcs.symm).eq_of_pairwise ?_ (pairwise_before bs) (pairwise_before cs)
  intro a b ha hb hab hba
  rw [InterruptRequestBinding.before_iff] at hab hba
  have hid : a.requestId = b.requestId := by
    rcases hab with hab | ⟨hab, hle⟩ <;> rcases hba with hba | ⟨hba, hge⟩
    · omega
    · omega
    · omega
    · exact le_antisymm hle hge
  have ha' : a ∈ bs := hbs.mem_iff.mp ha
  have hb' : b ∈ bs := hperm.mem_iff.mpr (hcs.mem_iff.mp hb)
  exact List.inj_on_of_nodup_map hids ha' hb' hid

variable {settings : InterruptSettings} {now : ℤ} {ps : Phases}

/-- What a listing selects of the phases. -/
def Phases.Pending (ps : Phases) (now : ℤ) (identity : Text) (interruptType : Option Text)
    (b : InterruptRequestBinding) : Prop :=
  ps b.requestId = .bound b ∧ b.pendingFor now identity interruptType = true

namespace MemoryInterrupts.Records

variable {m : MemoryInterrupts}

theorem get?_eq_some (h : m.Records settings now ps) {r : Text} {b : InterruptRequestBinding} :
    m.interruptRequests.get? r = some b ↔ ps r = .bound b := by
  rw [h.requests]
  cases ps r with
  | bound c =>
      rw [Phase.binding?, Option.some.injEq, Phase.bound.injEq]
  | absent | lapsed c dropped | told dropped asked =>
      constructor <;> intro hcon <;> cases hcon

/-- The bindings are those of the phases, each once. -/
theorem values (h : m.Records settings now ps) (htimely : ps.Timely now) :
    (m.interruptRequests.values.map InterruptRequestBinding.requestId).Nodup ∧
      ∀ b, b ∈ m.interruptRequests.values ↔ ps b.requestId = .bound b := by
  have hitem : ∀ r b, (r, b) ∈ m.interruptRequests.items ↔ ps r = .bound b := by
    intro r b
    rw [← Dict.get?_eq_some, h.get?_eq_some]
  have hid : ∀ r b, ps r = .bound b → b.requestId = r := by
    intro r b hb
    have ht := htimely r
    rwa [hb] at ht
  unfold Dict.values
  refine ⟨?_, ?_⟩
  · have hkeys : (m.interruptRequests.items.map Prod.snd).map InterruptRequestBinding.requestId =
        m.interruptRequests.items.map Prod.fst := by
      rw [List.map_map]
      apply List.map_congr_left
      rintro ⟨r, b⟩ hrb
      exact hid r b ((hitem r b).mp hrb)
    rw [hkeys]
    exact m.interruptRequests.nodup
  · intro b
    rw [List.mem_map]
    constructor
    · rintro ⟨⟨r, c⟩, hrc, rfl⟩
      have hc := (hitem r c).mp hrc
      rw [hid r c hc]
      exact hc
    · intro hb
      exact ⟨(b.requestId, b), (hitem b.requestId b).mpr hb, rfl⟩

end MemoryInterrupts.Records

namespace DatabaseInterrupts.Records

variable {t : DatabaseInterrupts}

/-- A row that has not expired is the one of a binding. -/
theorem unexpired (h : t.Records settings now ps) (htimely : ps.Timely now) {row : InterruptRow}
    (hrow : row ∈ t.rows) {e : ℤ} (he : row.expiresAt = some e) (hlate : now < e) :
    ∃ b, ps row.requestId = .bound b ∧ row = b.row ∧ b.requestId = row.requestId := by
  have hphase := h.rows row.requestId
  have htime := htimely row.requestId
  rw [(Table.find_eq_some h.keyed.nodup).mpr ⟨hrow, rfl⟩] at hphase
  cases hp : ps row.requestId with
  | absent =>
      rw [hp] at hphase
      cases hphase
  | bound b =>
      rw [hp] at hphase htime
      exact ⟨b, rfl, Option.some.inj hphase, htime⟩
  | lapsed b dropped =>
      rw [hp] at hphase htime
      have hexpiry : some b.expiresAt = some e := by
        rw [← he, Option.some.inj hphase]
        rfl
      have hgone := htime.2.1.trans htime.2.2
      rw [Option.some.inj hexpiry] at hgone
      omega
  | told dropped asked =>
      rw [hp] at hphase
      rcases hphase with ⟨-, hfound⟩ | ⟨hnone, -⟩ | ⟨-, hfound⟩
      · rw [Option.some.inj hfound] at he
        cases he
      · cases hnone
      · rw [Option.some.inj hfound] at he
        cases he

/-- The bindings that the listing reads out of the rows. -/
def listed (t : DatabaseInterrupts) (now : ℤ) (identity : Text) (interruptType : Option Text) :
    List InterruptRequestBinding :=
  (t.rows.filter (DatabaseInterrupts.pendingRow now identity interruptType)).filterMap fun row =>
    row.expiresAt.map row.binding

theorem pendingRow_row (b : InterruptRequestBinding) (identity : Text)
    (interruptType : Option Text) :
    DatabaseInterrupts.pendingRow now identity interruptType b.row =
      b.pendingFor now identity interruptType := by
  unfold DatabaseInterrupts.pendingRow InterruptRequestBinding.pendingFor
  simp only [InterruptRequestBinding.row, Option.any_some, Option.some.injEq]
  exact Bool.and_right_comm ..

theorem mem_listed (h : t.Records settings now ps) (htimely : ps.Timely now) (identity : Text)
    (interruptType : Option Text) (c : InterruptRequestBinding) :
    c ∈ listed t now identity interruptType ↔
      ∃ b, ps.Pending now identity interruptType b ∧ b.reloaded = c := by
  unfold listed
  simp only [List.mem_filterMap, List.mem_filter, Option.map_eq_some_iff]
  constructor
  · rintro ⟨row, ⟨hrow, hpending⟩, e, he, rfl⟩
    have hlate : now < e := by
      have hall := hpending
      unfold DatabaseInterrupts.pendingRow at hall
      rw [he] at hall
      simp only [Bool.and_eq_true, Option.any_some, decide_eq_true_eq] at hall
      exact hall.1.2
    obtain ⟨b, hb, rfl, hid⟩ := h.unexpired htimely hrow he hlate
    refine ⟨b, ⟨hb, ?_⟩, ?_⟩
    · rwa [pendingRow_row] at hpending
    · cases he
      rfl
  · rintro ⟨b, ⟨hb, hpending⟩, rfl⟩
    have hrow := h.rows b.requestId
    rw [hb] at hrow
    have hmem := ((Table.find_eq_some h.keyed.nodup).mp hrow).1
    exact ⟨b.row, ⟨hmem, (pendingRow_row b identity interruptType).trans hpending⟩, b.expiresAt,
      rfl, rfl⟩

theorem nodup_listed (h : t.Records settings now ps) (time : ℤ) (identity : Text)
    (interruptType : Option Text) :
    ((listed t time identity interruptType).map InterruptRequestBinding.requestId).Nodup := by
  have hrows := List.pairwise_map.mp h.keyed.nodup
  unfold listed
  apply List.pairwise_map.mpr
  refine (hrows.filter _).filterMap _ ?_
  intro row row' hne b hb b' hb'
  obtain ⟨e, -, rfl⟩ := Option.map_eq_some_iff.mp hb
  obtain ⟨e', -, rfl⟩ := Option.map_eq_some_iff.mp hb'
  exact hne

theorem listPending (h : t.Records settings now ps) (identity : Text)
    (interruptType : Option Text) :
    ∃ t', DatabaseInterrupts.listPending t now identity interruptType =
        .ok (t', (listed t' now identity interruptType).mergeSort
          InterruptRequestBinding.before) ∧
      t'.Records settings now (ps.prune now) := by
  obtain ⟨t', hprune, hpruned, -⟩ := h.pruneTombstones
  refine ⟨t', ?_, hpruned.prune⟩
  have hselect := hpruned.keyed.select_rows (List.Subset.refl interruptColumns)
    (DatabaseInterrupts.pendingRow now identity interruptType)
  unfold DatabaseInterrupts.listPending
  rw [hprune]
  simp only [bind, Except.bind]
  rw [hselect]
  rfl

end DatabaseInterrupts.Records

/-- Both repositories list the same requests in the same order. -/
theorem listPending_eq {m : MemoryInterrupts} {t : DatabaseInterrupts}
    (hm : m.Records settings now ps) (ht : t.Records settings now ps) (htimely : ps.Timely now)
    (identity : Text) (interruptType : Option Text) :
    ∃ t', DatabaseInterrupts.listPending t now identity interruptType =
        .ok (t', (m.listPending settings now identity interruptType).2.map
          InterruptRequestBinding.reloaded) ∧
      t'.Records settings now (ps.prune now) := by
  have hmem := hm.pruneRequests.pruneTombstones
  have htimely' : (ps.prune now).Timely now := fun r => (htimely r).prune
  obtain ⟨t', hlist, hrows⟩ := ht.listPending identity interruptType
  obtain ⟨hnodup, hvalues⟩ := hmem.values htimely'
  refine ⟨t', ?_, hrows⟩
  rw [hlist]
  have hmap := List.map_mergeSort (r := InterruptRequestBinding.before)
    (s := InterruptRequestBinding.before) (f := InterruptRequestBinding.reloaded)
    (l := ((m.pruneRequests settings now).pruneTombstones now).interruptRequests.values.filter
      fun b => b.pendingFor now identity interruptType) fun a _ b _ => rfl
  unfold MemoryInterrupts.listPending
  simp only
  rw [hmap]
  congr 2
  apply mergeSort_before_eq
  · have hlisted := hrows.nodup_listed now identity interruptType
    rw [List.perm_ext_iff_of_nodup hlisted.of_map]
    · intro c
      rw [hrows.mem_listed htimely', List.mem_map]
      simp only [List.mem_filter, hvalues]
      rfl
    · have hids := Table.nodup_filter_rows hnodup fun b => b.pendingFor now identity interruptType
      apply List.Nodup.of_map InterruptRequestBinding.requestId
      rw [List.map_map]
      exact hids
  · exact hrows.nodup_listed now identity interruptType

/-! ## §3  Choosing the backend -/

/-- A reply with the entries of its details in order: Python compares dictionaries
without regard to it. -/
def InterruptReply.canonical : InterruptReply → InterruptReply
  | .done => .done
  | .resolved status binding => .resolved status (binding.map InterruptRequestBinding.reloaded)
  | .pending bindings => .pending (bindings.map InterruptRequestBinding.reloaded)

/-- Whoever asks for a dropped request does so while the memory's tombstone stands,
or when the database's has gone as well. -/
def Phases.Prompt (tombstoneTtl now : ℤ) (ps : Phases) : InterruptOp → Prop
  | .resolve requestId => requestId = [] ∨ (ps requestId).Prompt tombstoneTtl now
  | _ => True

def Phases.PromptRun (settings : InterruptSettings) : Phases → List (ℤ × InterruptOp) → Prop
  | _, [] => True
  | ps, (now, op) :: ops =>
      ps.Prompt settings.tombstoneTtlSeconds now op ∧ PromptRun settings (ps.step settings now op) ops

theorem Phase.status_eq_iff {tombstoneTtl : ℤ} {r : Text} {p : Phase} (htimely : p.Timely now r) :
    p.databaseStatus tombstoneTtl now = p.memoryStatus tombstoneTtl now ↔
      p.Prompt tombstoneTtl now := by
  cases p with
  | absent | bound b => exact iff_of_true rfl trivial
  | lapsed b dropped =>
      simp only [Phase.databaseStatus, Phase.memoryStatus, Phase.Prompt]
      split
      · rename_i hstands
        exact iff_of_true rfl hstands
      · rename_i hgone
        exact iff_of_false (by decide) hgone
  | told dropped asked =>
      have hasked : dropped ≤ asked := htimely.1
      simp only [Phase.databaseStatus, Phase.memoryStatus, Phase.Prompt]
      by_cases hm : now < dropped + tombstoneTtl
      · have hd : now < asked + tombstoneTtl := by omega
        rw [if_pos hm, if_pos hd]
        exact iff_of_true rfl (.inl hm)
      · rw [if_neg hm]
        by_cases hd : now < asked + tombstoneTtl
        · rw [if_pos hd]
          refine iff_of_false (by decide) ?_
          rintro (hcon | hcon) <;> omega
        · rw [if_neg hd]
          exact iff_of_true rfl (.inr (by omega))

/-- What asking for a request in a phase answers. -/
def Phase.memoryReply (tombstoneTtl now : ℤ) (p : Phase) : InterruptReply :=
  .resolved (p.memoryStatus tombstoneTtl now) (p.answer (p.memoryStatus tombstoneTtl now))

def Phase.databaseReply (tombstoneTtl now : ℤ) (p : Phase) : InterruptReply :=
  .resolved (p.databaseStatus tombstoneTtl now)
    ((p.answer (p.databaseStatus tombstoneTtl now)).map InterruptRequestBinding.reloaded)

/-- Once the statuses are the same, so are the bindings. -/
theorem Phase.reply_canonical_iff {tombstoneTtl : ℤ} {r : Text} {p : Phase}
    (htimely : p.Timely now r) :
    (p.databaseReply tombstoneTtl now).canonical = (p.memoryReply tombstoneTtl now).canonical ↔
      p.Prompt tombstoneTtl now := by
  rw [← Phase.status_eq_iff htimely]
  simp only [Phase.databaseReply, Phase.memoryReply, InterruptReply.canonical]
  constructor
  · intro h
    injection h
  · intro h
    rw [h, Option.map_map]
    congr 2
    funext b
    exact b.reloaded_reloaded

/-- One operation: both repositories record the next phases, and answer alike exactly
if the request is asked for promptly. -/
theorem perform_agree {m : MemoryInterrupts} {t : DatabaseInterrupts}
    (hm : m.Records settings now ps) (ht : t.Records settings now ps) (htimely : ps.Timely now)
    (op : InterruptOp) :
    (m.perform settings now op).1.Records settings now (ps.step settings now op) ∧
      ∃ t' reply, DatabaseInterrupts.perform settings now t op = .ok (t', reply) ∧
        t'.Records settings now (ps.step settings now op) ∧
        (reply.canonical = (m.perform settings now op).2.canonical ↔
          ps.Prompt settings.tombstoneTtlSeconds now op) := by
  cases op with
  | remember request =>
      obtain ⟨t', hok, hnext⟩ := ht.remember request
      refine ⟨hm.remember request, t', .done, ?_, hnext, iff_of_true rfl trivial⟩
      simp only [DatabaseInterrupts.perform, hok]
      rfl
  | discard requestId =>
      obtain ⟨t', hok, hnext⟩ := ht.discard requestId
      refine ⟨hm.discard requestId, t', .done, ?_, hnext, iff_of_true rfl trivial⟩
      simp only [DatabaseInterrupts.perform, hok]
      rfl
  | listPending identity interruptType =>
      obtain ⟨t', hok, hnext⟩ := listPending_eq hm ht htimely identity interruptType
      refine ⟨hm.pruneRequests.pruneTombstones, t', .pending
        ((m.listPending settings now identity interruptType).2.map
          InterruptRequestBinding.reloaded), ?_, hnext, iff_of_true ?_ trivial⟩
      · simp only [DatabaseInterrupts.perform, hok]
        rfl
      · simp only [InterruptReply.canonical]
        rw [List.map_map]
        congr 2
        funext b
        exact b.reloaded_reloaded
  | resolve requestId =>
      obtain ⟨hnext, hreply⟩ := hm.resolve requestId
      obtain ⟨t', hok, hnext'⟩ := ht.resolve htimely requestId
      have hmemory : (m.perform settings now (.resolve requestId)).2 =
          .resolved (m.resolve settings now requestId).2.1
            (m.resolve settings now requestId).2.2 := rfl
      rw [hmemory]
      by_cases hr : requestId = []
      · have hmissing : (m.resolve settings now requestId).2 = (.missing, none) := by
          unfold MemoryInterrupts.resolve
          rw [if_pos hr]
        rw [if_pos hr] at hok
        refine ⟨hnext, t', .resolved .missing none, ?_, hnext', ?_⟩
        · simp only [DatabaseInterrupts.perform, hok]
          rfl
        · rw [hmissing]
          exact iff_of_true rfl (.inl hr)
      · rw [if_neg hr] at hok
        refine ⟨hnext, t', (ps requestId).databaseReply settings.tombstoneTtlSeconds now, ?_,
          hnext', ?_⟩
        · simp only [DatabaseInterrupts.perform, hok]
          rfl
        · rw [hreply hr]
          exact (Phase.reply_canonical_iff (htimely requestId)).trans (or_iff_right hr).symm

theorem replies_agree {m : MemoryInterrupts} {t : DatabaseInterrupts} {clock : ℤ}
    (hm : m.Records settings clock ps) (ht : t.Records settings clock ps)
    (htimely : ps.Timely clock) {ops : List (ℤ × InterruptOp)}
    (hclock : (ops.map Prod.fst).Pairwise (· ≤ ·)) (hstart : ∀ x ∈ ops, clock ≤ x.1) :
    (t.replies settings ops).map (Except.map InterruptReply.canonical) =
        (m.replies settings ops).map (fun reply => .ok reply.canonical) ↔
      ps.PromptRun settings ops := by
  induction ops generalizing m t ps clock with
  | nil => exact iff_of_true rfl trivial
  | cons x ops ih =>
      obtain ⟨now, op⟩ := x
      rw [List.map_cons, List.pairwise_cons] at hclock
      have hnow : clock ≤ now := hstart _ (List.mem_cons_self ..)
      obtain ⟨hnext, t', reply, hok, hnext', hreply⟩ :=
        perform_agree (hm.mono hnow) (ht.mono hnow) (fun r => (htimely r).mono hnow) op
      have hrest := ih hnext hnext' (htimely.step hnow op) hclock.2 fun y hy =>
        hclock.1 y.1 (List.mem_map.mpr ⟨y, hy, rfl⟩)
      unfold DatabaseInterrupts.replies MemoryInterrupts.replies Phases.PromptRun
      rw [hok]
      simp only [List.map_cons, List.cons.injEq]
      rw [hrest, ← hreply]
      exact and_congr_left' (by simp [Except.map])

theorem records_initial (settings : InterruptSettings) (clock : ℤ) :
    MemoryInterrupts.Records settings clock {} (fun _ => .absent) ∧
      DatabaseInterrupts.initial.Records settings clock (fun _ => .absent) := by
  refine ⟨⟨fun _ => rfl, fun _ => rfl⟩, ⟨⟨rfl, rfl, List.nodup_nil, ?_⟩, fun _ => rfl⟩⟩
  intro row hrow
  cases hrow

/-- Both repositories answer a sequence of operations alike exactly if every request
in it is asked for promptly. -/
theorem interrupt_repositories_agree_iff (settings : InterruptSettings)
    {ops : List (ℤ × InterruptOp)} (hclock : (ops.map Prod.fst).Pairwise (· ≤ ·)) :
    (DatabaseInterrupts.initial.replies settings ops).map (Except.map InterruptReply.canonical) =
        (MemoryInterrupts.replies settings {} ops).map (fun reply => .ok reply.canonical) ↔
      Phases.PromptRun settings (fun _ => .absent) ops := by
  cases ops with
  | nil => exact iff_of_true rfl trivial
  | cons x ops =>
      obtain ⟨hm, ht⟩ := records_initial settings x.1
      refine replies_agree hm ht (fun r => trivial) hclock ?_
      intro y hy
      rcases List.mem_cons.mp hy with rfl | hy
      · exact le_refl _
      · exact (List.pairwise_cons.mp hclock).1 y.1 (List.mem_map.mpr ⟨y, hy, rfl⟩)

def rememberFor (id : Text) (seconds : ℤ) : InterruptOp :=
  .remember
    { requestId := id
      sessionId := ['s']
      interruptType := ['p']
      ttlSeconds := some seconds }

/-- A request that is asked for as it expires, and again when its tombstone is gone. -/
def promptOps : List (ℤ × InterruptOp) :=
  [(0, rememberFor ['r'] 5), (3, .resolve ['r']), (6, .resolve ['r']), (30, .resolve ['r'])]

theorem prompt_requests_agree :
    (DatabaseInterrupts.initial.replies ⟨60, 10⟩ promptOps).map
        (Except.map InterruptReply.canonical) =
      (MemoryInterrupts.replies ⟨60, 10⟩ {} promptOps).map (fun reply => .ok reply.canonical) :=
  (interrupt_repositories_agree_iff ⟨60, 10⟩ (by decide)).mpr
    ⟨trivial, .inr trivial, .inr trivial, .inr (.inr (by decide)), trivial⟩

/-- A request that is dropped by another, and asked for when its tombstone is gone. -/
def tardyOps : List (ℤ × InterruptOp) :=
  [(0, rememberFor ['r'] 5), (6, rememberFor ['q'] 5), (30, .resolve ['r'])]

/-- The memory has forgotten the request, and the database only learns that it has
expired. -/
theorem tardy_request_differs :
    (tardyOps.map Prod.fst).Pairwise (· ≤ ·) ∧
      MemoryInterrupts.replies ⟨60, 10⟩ {} tardyOps = [.done, .done, .resolved .missing none] ∧
      DatabaseInterrupts.initial.replies ⟨60, 10⟩ tardyOps =
        [.ok .done, .ok .done, .ok (.resolved .expired none)] := by
  refine ⟨by decide, rfl, rfl⟩

/-! ## §4  Active, expired, missing -/

/-- How far a request has come. -/
def InterruptStatus.stage : InterruptStatus → ℕ
  | .active => 0
  | .expired => 1
  | .missing => 2

def InterruptOp.asks (r : Text) : InterruptOp → Bool
  | .resolve requestId => requestId = r
  | _ => false

/-- Whether an operation is about what is recorded of a request. -/
def InterruptOp.replaces (r : Text) : InterruptOp → Bool
  | .remember request => request.requestId = r
  | .discard requestId => requestId = r
  | _ => false

def InterruptReply.status? : InterruptReply → Option InterruptStatus
  | .resolved status _ => some status
  | _ => none

/-- When a request was asked for, and what the status was. -/
def statuses (r : Text) (ops : List (ℤ × InterruptOp)) (replies : List InterruptReply) :
    List (ℤ × InterruptStatus) :=
  (ops.zip replies).filterMap fun x =>
    if x.1.2.asks r then x.2.status?.map fun status => (x.1.1, status) else none

namespace Phases

variable {clock : ℤ}

/-- The statuses that a request in its phases has. -/
def statuses (settings : InterruptSettings) (status : ℤ → Phase → InterruptStatus) (r : Text) :
    Phases → List (ℤ × InterruptOp) → List (ℤ × InterruptStatus)
  | _, [] => []
  | ps, (now, op) :: ops =>
      (if op.asks r then [(now, status now (ps r))] else []) ++
        statuses settings status r (ps.step settings now op) ops

/-- A request that is neither remembered nor discarded is pruned, or asked for, or
left alone. -/
theorem step_apply (ps : Phases) (now : ℤ) {op : InterruptOp} {r : Text}
    (hop : op.replaces r = false) :
    ps.step settings now op r = ps r ∨ ps.step settings now op r = (ps r).prune now ∨
      ps.step settings now op r = (ps r).ask now := by
  cases op with
  | remember request =>
      have hne : r ≠ request.requestId := by
        rintro rfl
        simp [InterruptOp.replaces] at hop
      exact .inr (.inl (Function.update_of_ne hne ..))
  | discard requestId =>
      have hne : r ≠ requestId := by
        rintro rfl
        simp [InterruptOp.replaces] at hop
      exact .inl (Function.update_of_ne hne ..)
  | listPending identity interruptType => exact .inr (.inl rfl)
  | resolve requestId =>
      simp only [step]
      split
      · exact .inl rfl
      · split
        · rw [Function.update_apply]
          split
          · rename_i hr
            rw [hr]
            exact .inr (.inr rfl)
          · exact .inr (.inl rfl)
        · rw [Function.update_apply]
          split
          · rename_i hr
            rw [hr]
            exact .inr (.inr rfl)
          · exact .inl rfl

variable {status : ℤ → Phase → InterruptStatus} {r : Text} {ops : List (ℤ × InterruptOp)}

/-- A status that time and pruning and asking only move on. -/
def Advances (status : ℤ → Phase → InterruptStatus) : Prop :=
  ∀ {now later : ℤ} {p q : Phase}, now ≤ later → (q = p ∨ q = p.prune now ∨ q = p.ask now) →
    (status now p).stage ≤ (status later q).stage

theorem stage_le_statuses (hstatus : Advances status)
    (hops : ∀ x ∈ ops, x.2.replaces r = false) (hclock : (ops.map Prod.fst).Pairwise (· ≤ ·))
    (hstart : ∀ x ∈ ops, clock ≤ x.1) :
    ∀ x ∈ statuses settings status r ps ops, (status clock (ps r)).stage ≤ x.2.stage := by
  induction ops generalizing ps clock with
  | nil =>
      intro x hx
      cases hx
  | cons y ops ih =>
      obtain ⟨now, op⟩ := y
      rw [List.map_cons, List.pairwise_cons] at hclock
      have hnow : clock ≤ now := hstart _ (List.mem_cons_self ..)
      have hop := hops _ (List.mem_cons_self ..)
      have hself : (status clock (ps r)).stage ≤ (status now (ps r)).stage :=
        hstatus hnow (.inl rfl)
      intro x hx
      rw [statuses, List.mem_append] at hx
      rcases hx with hx | hx
      · split at hx
        · rw [List.mem_singleton.mp hx]
          exact hself
        · cases hx
      · have hnext := ih (fun y hy => hops y (List.mem_cons_of_mem _ hy)) hclock.2
          (fun y hy => hclock.1 y.1 (List.mem_map.mpr ⟨y, hy, rfl⟩)) x hx
        exact hself.trans ((hstatus (le_refl now) (step_apply ps now hop)).trans hnext)

theorem statuses_ordered (hstatus : Advances status) (hops : ∀ x ∈ ops, x.2.replaces r = false)
    (hclock : (ops.map Prod.fst).Pairwise (· ≤ ·)) :
    (statuses settings status r ps ops).Pairwise fun x y => x.2.stage ≤ y.2.stage := by
  induction ops generalizing ps with
  | nil => exact List.Pairwise.nil
  | cons y ops ih =>
      obtain ⟨now, op⟩ := y
      rw [List.map_cons, List.pairwise_cons] at hclock
      have hop := hops _ (List.mem_cons_self ..)
      have hrest : ∀ x ∈ ops, x.2.replaces r = false := fun x hx =>
        hops x (List.mem_cons_of_mem _ hx)
      rw [statuses, List.pairwise_append]
      refine ⟨?_, ih hrest hclock.2, ?_⟩
      · split
        · exact List.pairwise_singleton ..
        · exact List.Pairwise.nil
      · intro x hx z hz
        split at hx
        · rw [List.mem_singleton.mp hx]
          have hlater := stage_le_statuses hstatus hrest hclock.2
            (fun y hy => hclock.1 y.1 (List.mem_map.mpr ⟨y, hy, rfl⟩)) z hz
          exact (hstatus (le_refl now) (step_apply ps now hop)).trans hlater
        · cases hx

theorem mem_statuses {x : ℤ × InterruptStatus} (hx : x ∈ statuses settings status r ps ops) :
    ∃ p, x.2 = status x.1 p := by
  induction ops generalizing ps with
  | nil => cases hx
  | cons y ops ih =>
      rw [statuses, List.mem_append] at hx
      rcases hx with hx | hx
      · split at hx
        · rw [List.mem_singleton.mp hx]
          exact ⟨_, rfl⟩
        · cases hx
      · exact ih hx

/-- A binding stays until it expires. -/
theorem statuses_early {b : InterruptRequestBinding}
    (hactive : ∀ now, now < b.expiresAt → status now (.bound b) = .active)
    (hops : ∀ x ∈ ops, x.2.replaces r = false) (hclock : (ops.map Prod.fst).Pairwise (· ≤ ·))
    (hbound : (∃ x ∈ ops, x.1 < b.expiresAt) → ps r = .bound b) :
    ∀ x ∈ statuses settings status r ps ops, x.1 < b.expiresAt → x.2 = .active := by
  induction ops generalizing ps with
  | nil =>
      intro x hx
      cases hx
  | cons y ops ih =>
      obtain ⟨now, op⟩ := y
      rw [List.map_cons, List.pairwise_cons] at hclock
      have hop := hops _ (List.mem_cons_self ..)
      have hnext : (∃ x ∈ ops, x.1 < b.expiresAt) → ps.step settings now op r = .bound b := by
        rintro ⟨x, hx, hearly⟩
        have hnow : now ≤ x.1 := hclock.1 x.1 (List.mem_map.mpr ⟨x, hx, rfl⟩)
        have hlive : ¬ b.expiresAt ≤ now := by omega
        have hp : ps r = .bound b := hbound ⟨x, List.mem_cons_of_mem _ hx, hearly⟩
        rcases step_apply ps now hop with h | h | h
        · rw [h, hp]
        · rw [h, hp, Phase.prune, if_neg hlive]
        · rw [h, hp, Phase.ask, if_neg hlive]
      intro x hx hearly
      rw [statuses, List.mem_append] at hx
      rcases hx with hx | hx
      · split at hx
        · rw [List.mem_singleton.mp hx] at hearly ⊢
          have hp : ps r = .bound b := hbound ⟨_, List.mem_cons_self .., hearly⟩
          change status now (ps r) = .active
          rw [hp]
          exact hactive now hearly
        · cases hx
      · exact ih (fun y hy => hops y (List.mem_cons_of_mem _ hy)) hclock.2 hnext x hx hearly

/-- The phases after some operations. -/
def after (settings : InterruptSettings) (ps : Phases) (ops : List (ℤ × InterruptOp)) : Phases :=
  ops.foldl (fun ps x => ps.step settings x.1 x.2) ps

end Phases

theorem Phase.memoryStatus_advances (tombstoneTtl : ℤ) :
    Phases.Advances (Phase.memoryStatus tombstoneTtl) := by
  intro now later p q hlater hq
  cases p with
  | absent => rcases hq with rfl | rfl | rfl <;> exact le_refl _
  | bound b =>
      simp only [Phase.prune, Phase.ask] at hq
      by_cases hexp : b.expiresAt ≤ now
      · have hexp' : b.expiresAt ≤ later := hexp.trans hlater
        simp only [hexp, if_true] at hq
        rcases hq with rfl | rfl | rfl
        · simp [Phase.memoryStatus, hexp, hexp']
        · simp only [Phase.memoryStatus, hexp, if_true]
          split <;> decide
        · simp only [Phase.memoryStatus, hexp, if_true]
          split <;> decide
      · simp only [Phase.memoryStatus, hexp, if_false]
        exact Nat.zero_le _
  | lapsed b dropped | told dropped asked =>
      have hsame : q.memoryStatus tombstoneTtl later =
          if later < dropped + tombstoneTtl then .expired else .missing := by
        rcases hq with rfl | rfl | rfl <;> rfl
      rw [hsame]
      simp only [Phase.memoryStatus]
      split
      · split <;> decide
      · rw [if_neg (by omega)]

theorem Phase.databaseStatus_advances (tombstoneTtl : ℤ) :
    Phases.Advances (Phase.databaseStatus tombstoneTtl) := by
  intro now later p q hlater hq
  cases p with
  | absent => rcases hq with rfl | rfl | rfl <;> exact le_refl _
  | bound b =>
      simp only [Phase.prune, Phase.ask] at hq
      by_cases hexp : b.expiresAt ≤ now
      · have hexp' : b.expiresAt ≤ later := hexp.trans hlater
        simp only [hexp, if_true] at hq
        rcases hq with rfl | rfl | rfl
        · simp [Phase.databaseStatus, hexp, hexp']
        · simp [Phase.databaseStatus, hexp]
        · simp only [Phase.databaseStatus, hexp, if_true]
          split <;> decide
      · simp only [Phase.databaseStatus, hexp, if_false]
        exact Nat.zero_le _
  | lapsed b dropped =>
      rcases hq with rfl | rfl | rfl
      · exact le_refl _
      · exact le_refl _
      · simp only [Phase.databaseStatus, Phase.ask]
        split <;> decide
  | told dropped asked =>
      have hsame : q.databaseStatus tombstoneTtl later =
          if later < asked + tombstoneTtl then .expired else .missing := by
        rcases hq with rfl | rfl | rfl <;> rfl
      rw [hsame]
      simp only [Phase.databaseStatus]
      split
      · split <;> decide
      · rw [if_neg (by omega)]

/-- What a repository answers to someone who asks for a request. -/
def Phases.Answers (status : ℤ → Phase → InterruptStatus) (ps : Phases) (now : ℤ)
    (op : InterruptOp) (reply : InterruptReply) : Prop :=
  ∀ r, op.asks r = true →
    reply.status? = some (if r = [] then .missing else status now (ps r))

theorem MemoryInterrupts.Records.perform {m : MemoryInterrupts} (h : m.Records settings now ps)
    (op : InterruptOp) :
    (m.perform settings now op).1.Records settings now (ps.step settings now op) ∧
      ps.Answers (Phase.memoryStatus settings.tombstoneTtlSeconds) now op
        (m.perform settings now op).2 := by
  cases op with
  | remember request => exact ⟨h.remember request, fun r hr => by cases hr⟩
  | discard requestId => exact ⟨h.discard requestId, fun r hr => by cases hr⟩
  | listPending identity interruptType =>
      exact ⟨h.pruneRequests.pruneTombstones, fun r hr => by cases hr⟩
  | resolve requestId =>
      obtain ⟨hnext, hreply⟩ := h.resolve requestId
      refine ⟨hnext, ?_⟩
      intro r hr
      obtain rfl : requestId = r := of_decide_eq_true hr
      change some (m.resolve settings now requestId).2.1 = _
      split
      · rename_i hempty
        rw [MemoryInterrupts.resolve, if_pos hempty]
      · rename_i hne
        rw [hreply hne]

theorem DatabaseInterrupts.Records.perform {t : DatabaseInterrupts}
    (h : t.Records settings now ps) (htimely : ps.Timely now) (op : InterruptOp) :
    ∃ t' reply, DatabaseInterrupts.perform settings now t op = .ok (t', reply) ∧
      t'.Records settings now (ps.step settings now op) ∧
      ps.Answers (Phase.databaseStatus settings.tombstoneTtlSeconds) now op reply := by
  cases op with
  | remember request =>
      obtain ⟨t', hok, hnext⟩ := h.remember request
      refine ⟨t', .done, ?_, hnext, fun r hr => by cases hr⟩
      simp only [DatabaseInterrupts.perform, hok]
      rfl
  | discard requestId =>
      obtain ⟨t', hok, hnext⟩ := h.discard requestId
      refine ⟨t', .done, ?_, hnext, fun r hr => by cases hr⟩
      simp only [DatabaseInterrupts.perform, hok]
      rfl
  | listPending identity interruptType =>
      obtain ⟨t', hok, hnext⟩ := h.listPending identity interruptType
      refine ⟨t', .pending ((listed t' now identity interruptType).mergeSort
        InterruptRequestBinding.before), ?_, hnext, fun r hr => by cases hr⟩
      simp only [DatabaseInterrupts.perform, hok]
      rfl
  | resolve requestId =>
      obtain ⟨t', hok, hnext⟩ := h.resolve htimely requestId
      generalize hanswer : (if requestId = [] then
        (InterruptStatus.missing, (none : Option InterruptRequestBinding)) else _) = answer at hok
      refine ⟨t', .resolved answer.1 answer.2, ?_, hnext, ?_⟩
      · simp only [DatabaseInterrupts.perform, hok]
        rfl
      · intro r hr
        obtain rfl : requestId = r := of_decide_eq_true hr
        change some answer.1 = _
        rw [← hanswer]
        split <;> rfl

/-- The replies to a sequence of operations, each in the phases of its time. -/
def Phases.Answered (settings : InterruptSettings) (status : ℤ → Phase → InterruptStatus) :
    Phases → List (ℤ × InterruptOp) → List InterruptReply → Prop
  | _, [], replies => replies = []
  | ps, (now, op) :: ops, replies =>
      ∃ reply rest, replies = reply :: rest ∧ ps.Answers status now op reply ∧
        Answered settings status (ps.step settings now op) ops rest

theorem MemoryInterrupts.Records.replies {m : MemoryInterrupts} {clock : ℤ}
    (h : m.Records settings clock ps) {ops : List (ℤ × InterruptOp)}
    (hclock : (ops.map Prod.fst).Pairwise (· ≤ ·)) (hstart : ∀ x ∈ ops, clock ≤ x.1) :
    ps.Answered settings (Phase.memoryStatus settings.tombstoneTtlSeconds) ops
      (m.replies settings ops) := by
  induction ops generalizing m ps clock with
  | nil => rfl
  | cons x ops ih =>
      obtain ⟨now, op⟩ := x
      rw [List.map_cons, List.pairwise_cons] at hclock
      have hnow : clock ≤ now := hstart _ (List.mem_cons_self ..)
      obtain ⟨hnext, hreply⟩ := (h.mono hnow).perform op
      refine ⟨_, _, rfl, hreply, ih hnext hclock.2 ?_⟩
      intro y hy
      exact hclock.1 y.1 (List.mem_map.mpr ⟨y, hy, rfl⟩)

theorem DatabaseInterrupts.Records.replies {t : DatabaseInterrupts} {clock : ℤ}
    (h : t.Records settings clock ps) (htimely : ps.Timely clock) {ops : List (ℤ × InterruptOp)}
    (hclock : (ops.map Prod.fst).Pairwise (· ≤ ·)) (hstart : ∀ x ∈ ops, clock ≤ x.1) :
    ∃ replies, DatabaseInterrupts.replies settings t ops = replies.map .ok ∧
      ps.Answered settings (Phase.databaseStatus settings.tombstoneTtlSeconds) ops replies := by
  induction ops generalizing t ps clock with
  | nil => exact ⟨[], rfl, rfl⟩
  | cons x ops ih =>
      obtain ⟨now, op⟩ := x
      rw [List.map_cons, List.pairwise_cons] at hclock
      have hnow : clock ≤ now := hstart _ (List.mem_cons_self ..)
      obtain ⟨t', reply, hok, hnext, hreply⟩ :=
        (h.mono hnow).perform (fun r => (htimely r).mono hnow) op
      obtain ⟨rest, hrest, hanswered⟩ := ih hnext (htimely.step hnow op) hclock.2 fun y hy =>
        hclock.1 y.1 (List.mem_map.mpr ⟨y, hy, rfl⟩)
      refine ⟨reply :: rest, ?_, reply, rest, rfl, hreply, hanswered⟩
      simp only [DatabaseInterrupts.replies, hok, hrest, List.map_cons]

/-- The statuses of one request in a part of the sequence. -/
theorem Phases.Answered.statuses_eq {status : ℤ → Phase → InterruptStatus}
    {pre post : List (ℤ × InterruptOp)} {replies : List InterruptReply}
    (h : ps.Answered settings status (pre ++ post) replies) (r : Text) :
    Store.statuses r post (replies.drop pre.length) =
      Phases.statuses settings (fun now p => if r = [] then .missing else status now p) r
        (ps.after settings pre) post := by
  induction pre generalizing ps replies with
  | nil =>
      change Store.statuses r post replies = _
      unfold Phases.after
      rw [List.foldl_nil]
      induction post generalizing ps replies with
      | nil => rfl
      | cons x post ih =>
          obtain ⟨now, op⟩ := x
          obtain ⟨reply, rest, rfl, hreply, hrest⟩ := h
          have hlater := ih hrest
          unfold Store.statuses at hlater ⊢
          rw [Phases.statuses, ← hlater, List.zip_cons_cons, List.filterMap_cons]
          by_cases hasks : op.asks r = true
          · simp only [hasks, if_true, hreply r hasks]
            rfl
          · simp only [hasks, Bool.false_eq_true, if_false, List.nil_append]
  | cons x pre ih =>
      obtain ⟨now, op⟩ := x
      obtain ⟨reply, rest, rfl, -, hrest⟩ := h
      exact ih hrest

theorem Phases.Answered.orderly {status : ℤ → Phase → InterruptStatus}
    (hstatus : Phases.Advances status)
    (hactive : ∀ now b, now < b.expiresAt → status now (.bound b) = .active)
    {pre post : List (ℤ × InterruptOp)} {start : ℤ} {request : RememberRequest}
    {replies : List InterruptReply}
    (h : ps.Answered settings status (pre ++ (start, .remember request) :: post) replies)
    (hclock : (post.map Prod.fst).Pairwise (· ≤ ·))
    (hpost : ∀ x ∈ post, x.2.replaces request.requestId = false) :
    let answers := Store.statuses request.requestId post (replies.drop (pre.length + 1))
    (answers.Pairwise fun x y => x.2.stage ≤ y.2.stage) ∧
      (request.requestId ≠ [] →
        ∀ x ∈ answers, x.1 < settings.expiry start request → x.2 = .active) := by
  intro answers
  rw [List.append_cons] at h
  have heq := h.statuses_eq request.requestId
  rw [List.length_append, List.length_singleton] at heq
  have hbound : ps.after settings (pre ++ [(start, .remember request)]) request.requestId =
      .bound (request.binding (settings.expiry start request)) := by
    rw [Phases.after, List.foldl_append]
    exact Function.update_self ..
  have hall : answers = _ := heq
  rw [hall]
  constructor
  · refine Phases.statuses_ordered ?_ hpost hclock
    intro now later p q hlater hq
    split
    · exact le_refl _
    · exact hstatus hlater hq
  · intro hne
    simp only [hne, if_false]
    exact Phases.statuses_early (fun now hnow => hactive now _ hnow) hpost hclock
      fun _ => hbound

theorem Phases.Answered.missing {status : ℤ → Phase → InterruptStatus}
    {ops : List (ℤ × InterruptOp)} {replies : List InterruptReply}
    (h : ps.Answered settings status ops replies) :
    ∀ x ∈ Store.statuses [] ops replies, x.2 = .missing := by
  intro x hx
  have hempty : ps.Answered settings status ([] ++ ops) replies := h
  have heq := hempty.statuses_eq []
  rw [List.length_nil, List.drop_zero] at heq
  rw [heq] at hx
  obtain ⟨p, hp⟩ := Phases.mem_statuses hx
  rw [hp, if_pos rfl]

/-- In both repositories: a request that is remembered, and neither remembered again
nor discarded, is active, then expired, then missing, and active until its TTL has
run out. The empty id is always missing. -/
theorem interrupt_lifecycle (settings : InterruptSettings) {ops : List (ℤ × InterruptOp)}
    (hclock : (ops.map Prod.fst).Pairwise (· ≤ ·)) :
    ∃ fromDatabase : List InterruptReply,
      DatabaseInterrupts.initial.replies settings ops = fromDatabase.map .ok ∧
      ∀ replies, replies = MemoryInterrupts.replies settings {} ops ∨ replies = fromDatabase →
        (∀ pre start request post, ops = pre ++ (start, .remember request) :: post →
          (∀ x ∈ post, x.2.replaces request.requestId = false) →
          let answers := statuses request.requestId post (replies.drop (pre.length + 1))
          (answers.Pairwise fun x y => x.2.stage ≤ y.2.stage) ∧
            (request.requestId ≠ [] →
              ∀ x ∈ answers, x.1 < settings.expiry start request → x.2 = .active)) ∧
          ∀ x ∈ statuses [] ops replies, x.2 = .missing := by
  have hpostClock : ∀ pre x post, ops = pre ++ x :: post →
      (post.map Prod.fst).Pairwise (· ≤ ·) := by
    rintro pre x post rfl
    rw [List.map_append, List.map_cons, List.pairwise_append, List.pairwise_cons] at hclock
    exact hclock.2.1.2
  obtain ⟨first, hstart⟩ : ∃ first : ℤ, ∀ x ∈ ops, first ≤ x.1 := by
    cases hops : ops with
    | nil => exact ⟨0, fun x hx => by cases hx⟩
    | cons y rest =>
        have hsorted : ((y :: rest).map Prod.fst).Pairwise (· ≤ ·) := hops ▸ hclock
        rw [List.map_cons, List.pairwise_cons] at hsorted
        refine ⟨y.1, ?_⟩
        intro x hx
        rcases List.mem_cons.mp hx with rfl | hx
        · exact le_refl _
        · exact hsorted.1 x.1 (List.mem_map.mpr ⟨x, hx, rfl⟩)
  obtain ⟨hm, ht⟩ := records_initial settings first
  obtain ⟨fromDatabase, hdatabase, hanswered⟩ := ht.replies (fun r => trivial) hclock hstart
  refine ⟨fromDatabase, hdatabase, ?_⟩
  rintro replies (rfl | rfl)
  · have hmemory := hm.replies hclock hstart
    refine ⟨?_, hmemory.missing⟩
    intro pre start request post hops hpost
    subst hops
    refine hmemory.orderly (Phase.memoryStatus_advances _) ?_ (hpostClock _ _ _ rfl) hpost
    intro now b hlive
    rw [Phase.memoryStatus, if_neg (by omega)]
  · refine ⟨?_, hanswered.missing⟩
    intro pre start request post hops hpost
    subst hops
    refine hanswered.orderly (Phase.databaseStatus_advances _) ?_ (hpostClock _ _ _ rfl) hpost
    intro now b hlive
    rw [Phase.databaseStatus, if_neg (by omega)]

/-- A request that is asked for while it is active, as it expires, and when it is
forgotten. -/
theorem request_expires :
    (∃ fromDatabase : List InterruptReply,
      DatabaseInterrupts.initial.replies ⟨60, 10⟩ promptOps = fromDatabase.map .ok ∧
        ∀ x ∈ statuses ['r'] (promptOps.drop 1) (fromDatabase.drop 1), x.1 < 5 → x.2 = .active) ∧
      statuses ['r'] (promptOps.drop 1) ((MemoryInterrupts.replies ⟨60, 10⟩ {} promptOps).drop 1) =
        [(3, .active), (6, .expired), (30, .missing)] := by
  refine ⟨?_, rfl⟩
  obtain ⟨fromDatabase, hreplies, hall⟩ := @interrupt_lifecycle ⟨60, 10⟩ promptOps (by decide)
  refine ⟨fromDatabase, hreplies, ?_⟩
  exact ((hall fromDatabase (.inr rfl)).1 [] 0
    { requestId := ['r'], sessionId := ['s'], interruptType := ['p'], ttlSeconds := some 5 }
    (promptOps.drop 1) rfl (by decide)).2 (by decide)

/-- The empty id is not looked up: it is missing although its TTL has not run out. -/
theorem empty_id_is_missing :
    statuses [] [(1, .resolve [])]
        ((MemoryInterrupts.replies ⟨60, 10⟩ {} [(0, rememberFor [] 5), (1, .resolve [])]).drop 1) =
        [(1, .missing)] ∧
      DatabaseInterrupts.initial.replies ⟨60, 10⟩ [(0, rememberFor [] 5), (1, .resolve [])] =
        [.ok .done, .ok (.resolved .missing none)] := ⟨rfl, rfl⟩

end OpencodeA2a.Store
