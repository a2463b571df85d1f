import Mathlib.Data.List.Chain
import OpencodeA2a.Store.InterruptRepository
import OpencodeA2a.Stream.BufferedDeltas

/-!
# Interrupt statuses and the repository

The consumer's pending set, the statuses it emits and the binding in the repository
are three records of one interrupt. Other parties use the repository meanwhile, and
any call of the tracker may fail.
-/

namespace OpencodeA2a.Execution

open OpencodeA2a.Stream OpencodeA2a.Store

/-! ## §1  The tracker over a repository in use -/

/-- One use of the repository, as it found it. -/
structure RepositoryUse where
  repository : InterruptRepository
  now : ℤ
  op : InterruptOp
  /-- made by the consumer's tracker -/
  own : Bool
  returned : Bool

structure SharedRepository where
  repository : InterruptRepository
  uses : List RepositoryUse := []
  /-- how often the tracker was called -/
  calls : ℕ := 0

namespace SharedRepository

variable (s : SharedRepository)

/-- `fails` is a failure that leaves the repository alone. -/
def use (own fails : Bool) (now : ℤ) (op : InterruptOp) : SharedRepository × Bool :=
  match s.repository.perform now op, fails with
  | .ok (next, _), false =>
      ({ s with
          repository := next
          uses := s.uses ++ [⟨s.repository, now, op, own, true⟩] }, true)
  | _, _ => ({ s with uses := s.uses ++ [⟨s.repository, now, op, own, false⟩] }, false)

/-- What other parties do, each at its time. -/
def meanwhile (ops : List (ℤ × InterruptOp)) : SharedRepository :=
  ops.foldl (fun s op => (s.use false false op.1 op.2).1) s

end SharedRepository

/-- What happens around the n-th call of the tracker: what others do before it, when
it is made and whether it fails. -/
structure Surroundings where
  others : ℕ → List (ℤ × InterruptOp) := fun _ => []
  now : ℕ → ℤ
  fails : ℕ → Bool := fun _ => false

/-- What `consume` was called with for the tracker. -/
structure Watch where
  sessionId : Text
  identity : Text
  taskId : Text
  contextId : Text

def interruptTypeName : InterruptType → Text
  | .permission => "permission".toList
  | .question => "question".toList

/-- `asked["details"]` -/
def detailsMapping : InterruptDetails → Mapping
  | .permission permission patterns =>
      [("permission".toList, (permission.map Json.str).getD .null),
        ("patterns".toList, .arr (patterns.map Json.str))]
  | .questions questions => [("questions".toList, .arr (questions.map Json.obj))]

/-- `remember_interrupt_request` and `discard_interrupt_request` of the client, as far
as the operation that they ask the repository for. -/
def Watch.op? (w : Watch) : TrackerCall → Option InterruptOp
  | .remember a =>
      (nonempty? a.requestId).bind fun request => (nonempty? w.sessionId).map fun session =>
        .remember
          { requestId := request, sessionId := session
            interruptType := interruptTypeName a.interruptType
            identity := nonempty? w.identity, taskId := nonempty? w.taskId
            contextId := nonempty? w.contextId, details := some (detailsMapping a.details) }
  | .discard resolved => (nonempty? resolved.requestId).map .discard

/-- A call of the tracker. -/
def Watch.track (w : Watch) (env : Surroundings) (s : SharedRepository) (call : TrackerCall) :
    SharedRepository × Bool :=
  let n := s.calls
  let s := { s.meanwhile (env.others n) with calls := n + 1 }
  match w.op? call with
  | none => (s, true)
  | some op => s.use true (env.fails n) (env.now n) op

/-! ## §2  The binding of one request -/

/-- The operation writes or removes the binding of the request. -/
def touches (r : Text) : InterruptOp → Bool
  | .remember request => request.requestId = r
  | .discard discarded => discarded = r
  | _ => false

def isRemember : InterruptOp → Bool
  | .remember _ => true
  | _ => false

/-- The tracker's own calls for the request have all returned. -/
def AllAnswered (r : Text) (uses : List RepositoryUse) : Prop :=
  ∀ u ∈ uses, u.own = true → touches r u.op = true → u.returned = true

/-- Nobody else touches the binding, and it has not expired whenever the repository
is used. -/
def Undisturbed (r : Text) (uses : List RepositoryUse) : Prop :=
  ∀ u ∈ uses, (∀ e, u.repository.expiry? r = some e → u.now < e) ∧
    (u.own = false → touches r u.op = false)

theorem AllAnswered.of_prefix {r : Text} {uses uses' : List RepositoryUse} (h : AllAnswered r uses')
    (hpre : uses <+: uses') : AllAnswered r uses :=
  fun u hu => h u (hpre.subset hu)

theorem Undisturbed.of_prefix {r : Text} {uses uses' : List RepositoryUse}
    (h : Undisturbed r uses') (hpre : uses <+: uses') : Undisturbed r uses :=
  fun u hu => h u (hpre.subset hu)

theorem isSome_expiryAfter (settings : InterruptSettings) (now : ℤ) (r : Text) (e : Option ℤ)
    (op : InterruptOp) :
    (op.expiryAfter settings now r e).isSome =
      if touches r op = true then isRemember op else e.isSome := by
  cases op with
  | remember request =>
      simp only [InterruptOp.expiryAfter, touches, decide_eq_true_eq]
      split <;> rfl
  | discard discarded =>
      simp only [InterruptOp.expiryAfter, touches, decide_eq_true_eq]
      split <;> rfl
  | resolve | listPending => rfl

namespace SharedRepository

variable {s : SharedRepository} {r : Text} {own fails : Bool} {now : ℤ} {op : InterruptOp}

/-- The repository holds a binding for the request. -/
def binds (s : SharedRepository) (r : Text) : Bool := (s.repository.expiry? r).isSome

theorem use_uses : (s.use own fails now op).1.uses =
    s.uses ++ [⟨s.repository, now, op, own, (s.use own fails now op).2⟩] := by
  unfold use
  split <;> rfl

theorem use_sound (h : s.repository.Sound) : (s.use own fails now op).1.repository.Sound := by
  unfold use
  split
  · rename_i next reply hok
    obtain ⟨next', reply', hok', hsound, -⟩ := InterruptRepository.perform_sound (r := []) h now op
    rw [hok] at hok'
    cases hok'
    exact hsound
  · exact h

theorem use_binds (h : s.repository.Sound)
    (hfresh : ∀ e, s.repository.expiry? r = some e → now < e) :
    (s.use own fails now op).1.binds r =
      if (s.use own fails now op).2 = true ∧ touches r op = true then isRemember op
      else s.binds r := by
  unfold use
  split
  · rename_i next reply hok
    obtain ⟨next', reply', hok', -, hexpiry⟩ := InterruptRepository.perform_expiry h hfresh op
    rw [hok] at hok'
    cases hok'
    show (next.expiry? r).isSome = _
    rw [hexpiry, isSome_expiryAfter]
    simp only [true_and]
    rfl
  · simp only [Bool.false_eq_true, false_and, if_false]
    rfl

theorem meanwhile_uses (ops : List (ℤ × InterruptOp)) : s.uses <+: (s.meanwhile ops).uses := by
  induction ops generalizing s with
  | nil => exact List.prefix_refl _
  | cons op ops ih =>
      refine List.IsPrefix.trans ?_ ih
      rw [use_uses]
      exact List.prefix_append ..

theorem meanwhile_sound (h : s.repository.Sound) (ops : List (ℤ × InterruptOp)) :
    (s.meanwhile ops).repository.Sound := by
  induction ops generalizing s with
  | nil => exact h
  | cons op ops ih => exact ih (use_sound h)

theorem meanwhile_binds (h : s.repository.Sound) {ops : List (ℤ × InterruptOp)}
    (hspared : Undisturbed r (s.meanwhile ops).uses) : (s.meanwhile ops).binds r = s.binds r := by
  induction ops generalizing s with
  | nil => rfl
  | cons op ops ih =>
      have hfirst := hspared.of_prefix (meanwhile_uses ops)
      rw [use_uses] at hfirst
      obtain ⟨hfresh, htouch⟩ := hfirst _ (List.mem_append_right _ (List.mem_singleton_self _))
      have hbinds := @use_binds s r false false op.1 op.2 h hfresh
      rw [if_neg fun hcon => by rw [htouch rfl] at hcon; cases hcon.2] at hbinds
      exact (ih (use_sound h) hspared).trans hbinds

end SharedRepository

section Track

variable {w : Watch} {env : Surroundings} {s : SharedRepository} {r : Text} {call : TrackerCall}

/-- What the tracker's call leaves of the repository. -/
structure Tracked (w : Watch) (r : Text) (call : TrackerCall) (s s' : SharedRepository)
    (returned : Bool) : Prop where
  uses : s.uses <+: s'.uses
  sound : s.repository.Sound → s'.repository.Sound
  answered : AllAnswered r s'.uses → ∀ op, w.op? call = some op → touches r op = true →
    returned = true
  binds : s.repository.Sound → Undisturbed r s'.uses → s'.binds r =
    match w.op? call with
    | some op => if returned = true ∧ touches r op = true then isRemember op else s.binds r
    | none => s.binds r

theorem track_spec (w : Watch) (env : Surroundings) (r : Text) (s : SharedRepository)
    (call : TrackerCall) :
    Tracked w r call s (w.track env s call).1 (w.track env s call).2 := by
  generalize hm : { s.meanwhile (env.others s.calls) with calls := s.calls + 1 } = m
  have hmuses : s.uses <+: m.uses := by
    rw [← hm]
    exact SharedRepository.meanwhile_uses _
  have hmsound : s.repository.Sound → m.repository.Sound := by
    intro h
    rw [← hm]
    exact SharedRepository.meanwhile_sound h _
  have hmbinds : s.repository.Sound → Undisturbed r m.uses → m.binds r = s.binds r := by
    intro h hspared
    rw [← hm] at hspared ⊢
    exact SharedRepository.meanwhile_binds h hspared
  have htrack : w.track env s call = match w.op? call with
      | none => (m, true)
      | some op => m.use true (env.fails s.calls) (env.now s.calls) op := by
    rw [← hm]
    rfl
  cases hop : w.op? call with
  | none =>
      rw [hop] at htrack
      rw [htrack]
      refine ⟨hmuses, hmsound, fun _ op hcon => ?_, ?_⟩
      · rw [hop] at hcon
        cases hcon
      · rw [hop]
        exact hmbinds
  | some op =>
      rw [hop] at htrack
      rw [htrack]
      have huses := @SharedRepository.use_uses m true (env.fails s.calls) (env.now s.calls) op
      refine ⟨?_, fun h => SharedRepository.use_sound (hmsound h), ?_, ?_⟩
      · rw [huses]
        exact hmuses.trans (List.prefix_append ..)
      · intro hanswered op' hop' htouch
        rw [hop] at hop'
        cases hop'
        rw [huses] at hanswered
        exact hanswered _ (List.mem_append_right _ (List.mem_singleton_self _)) rfl htouch
      · intro h hspared
        rw [hop]
        rw [huses] at hspared
        have hbefore : Undisturbed r m.uses := hspared.of_prefix (List.prefix_append ..)
        have hfresh := (hspared _ (List.mem_append_right _ (List.mem_singleton_self _))).1
        rw [SharedRepository.use_binds (hmsound h) hfresh, hmbinds h hbefore]

end Track

/-! ## §3  What has nothing to do with the request -/

/-- Which of the statuses of the request ask. -/
def asks (r : Text) (statuses : List InterruptMetadata) : List Bool :=
  statuses.filterMap fun m =>
    if m.requestId = r then
      some (match m.phase with
        | .asked _ => true
        | .resolved _ => false)
    else none

variable {cfg : Config} {w : Watch} {env : Surroundings} {r : Text}
  {c c' : Consumption SharedRepository}

def Pending (r : Text) (c : Consumption SharedRepository) : Prop :=
  r ∈ c.runtime.out.pendingInterruptRequestIds

/-- The three records of the request. -/
structure Aligned (r : Text) (c : Consumption SharedRepository) : Prop where
  sound : c.tracker.repository.Sound
  alternate : AllAnswered r c.tracker.uses → List.IsChain (· ≠ ·) (false :: asks r c.statuses)
  pending : AllAnswered r c.tracker.uses →
    ((asks r c.statuses).getLast? = some true ↔ Pending r c)
  bound : AllAnswered r c.tracker.uses → Undisturbed r c.tracker.uses →
    (c.tracker.binds r = true ↔ Pending r c)

/-- Nothing that concerns the request has happened. -/
structure Apart (r : Text) (c c' : Consumption SharedRepository) : Prop where
  statuses : asks r c'.statuses = asks r c.statuses
  pending : Pending r c' ↔ Pending r c
  uses : c.tracker.uses <+: c'.tracker.uses
  sound : c.tracker.repository.Sound → c'.tracker.repository.Sound
  binds : c.tracker.repository.Sound → Undisturbed r c'.tracker.uses →
    c'.tracker.binds r = c.tracker.binds r

theorem Apart.refl (c : Consumption SharedRepository) : Apart r c c :=
  ⟨rfl, .rfl, List.prefix_refl _, id, fun _ _ => rfl⟩

theorem Apart.trans {c'' : Consumption SharedRepository} (h : Apart r c c') (h' : Apart r c' c'') :
    Apart r c c'' where
  statuses := h'.statuses.trans h.statuses
  pending := h'.pending.trans h.pending
  uses := h.uses.trans h'.uses
  sound hs := h'.sound (h.sound hs)
  binds hs hu := (h'.binds (h.sound hs) hu).trans (h.binds hs (hu.of_prefix h'.uses))

theorem Aligned.apart (h : Aligned r c) (hapart : Apart r c c') : Aligned r c' := by
  refine ⟨hapart.sound h.sound, ?_, ?_, ?_⟩
  · intro hanswered
    rw [hapart.statuses]
    exact h.alternate (hanswered.of_prefix hapart.uses)
  · intro hanswered
    rw [hapart.statuses, hapart.pending]
    exact h.pending (hanswered.of_prefix hapart.uses)
  · intro hanswered hspared
    rw [hapart.binds h.sound hspared, hapart.pending]
    exact h.bound (hanswered.of_prefix hapart.uses) (hspared.of_prefix hapart.uses)

theorem perform_pending (cfg : Config) (s : StreamOutputState) (a : Act) :
    (a.perform cfg s).1.pendingInterruptRequestIds = s.pendingInterruptRequestIds := by
  cases a with
  | progress | asked | resolved | rememberRequest | discardRequest => rfl
  | chunk chunk =>
      have hemit : (emitChunk cfg s chunk).1.pendingInterruptRequestIds =
          s.pendingInterruptRequestIds := by
        unfold emitChunk
        split
        · rfl
        · split
          · rfl
          · rename_i s₁ b hreg
            have hs₁ : s₁.pendingInterruptRequestIds = s.pendingInterruptRequestIds := by
              unfold StreamOutputState.registerChunk at hreg
              simp only at hreg
              split at hreg <;> cases hreg
              rfl
            simp only
            split
            · unfold StreamOutputState.rememberTextArtifactId
              split <;> exact hs₁
            · exact hs₁
      simp only [Act.perform]
      split
      · rename_i s' u h
        rw [h] at hemit
        exact hemit
      · rename_i s' h
        rw [h] at hemit
        exact hemit

/-- A call that is not about the request. -/
def ApartCall (w : Watch) (r : Text) (call : TrackerCall) : Prop :=
  ∀ op, w.op? call = some op → touches r op = false

/-- An act that emits no status of the request and makes no call for it. -/
def ApartAct (w : Watch) (r : Text) (a : Act) : Prop :=
  (∀ m, a.interrupt? = some m → m.requestId ≠ r) ∧ ∀ call, a.call? = some call → ApartCall w r call

theorem ApartAct.act {a : Act} (h : ApartAct w r a) (c : Consumption SharedRepository) :
    Apart r c (Consumption.act cfg (w.track env) c a).1 := by
  have hpending : (a.perform cfg c.runtime.out).1.pendingInterruptRequestIds =
      c.runtime.out.pendingInterruptRequestIds := perform_pending cfg _ a
  have hstays : (Pending r { c with runtime := { c.runtime with
      out := (a.perform cfg c.runtime.out).1 } }) ↔ Pending r c := by
    unfold Pending
    rw [hpending]
  have hnone : asks r a.interrupt?.toList = [] := by
    unfold asks
    cases hm : a.interrupt? with
    | none => rfl
    | some m =>
        simp only [Option.toList_some, List.filterMap, if_neg (h.1 m hm)]
  unfold Consumption.act
  simp only
  split
  · refine ⟨?_, hstays, List.prefix_refl _, id, fun _ _ => rfl⟩
    show asks r (c.statuses ++ a.interrupt?.toList) = _
    unfold asks at hnone ⊢
    rw [List.filterMap_append, hnone, List.append_nil]
  · rename_i call _ hcall
    obtain ⟨huses, hsound, -, hbinds⟩ := track_spec w env r c.tracker call
    refine ⟨rfl, hstays, huses, hsound, ?_⟩
    intro hs hu
    refine (hbinds hs hu).trans ?_
    split
    · rename_i op hop
      rw [if_neg fun hcon => by rw [h.2 call hcall op hop] at hcon; cases hcon.2]
    · rfl
  · exact ⟨rfl, hstays, List.prefix_refl _, id, fun _ _ => rfl⟩

theorem ApartAct.acts {as : List Act} (h : ∀ a ∈ as, ApartAct w r a)
    (c : Consumption SharedRepository) :
    Apart r c (Consumption.acts cfg (w.track env) c as).1 := by
  induction as generalizing c with
  | nil => exact .refl c
  | cons a as ih =>
      have hfirst : Apart r c (Consumption.act cfg (w.track env) c a).1 :=
        (h a (List.mem_cons_self ..)).act c
      rcases hdone : Consumption.act cfg (w.track env) c a with ⟨c', _ | _⟩ <;> rw [hdone] at hfirst
      · rw [Consumption.acts_of_raised hdone]
        exact hfirst
      · rw [Consumption.acts_of_returned hdone]
        exact hfirst.trans (ih (fun a' ha' => h a' (List.mem_cons_of_mem a ha')) c')

/-! ## §4  What concerns the request -/

/-- What the extractors make sure of: ids are stripped and not blank, and only a
session with such an id has events. -/
def Extracted (cfg : Config) : Op → Prop
  | .asked a => nonempty? a.requestId = some a.requestId ∧
      nonempty? cfg.sessionId = some cfg.sessionId
  | .resolved a => nonempty? a.requestId = some a.requestId
  | _ => True

theorem nonempty?_self_of_eq {t u : Text} (h : nonempty? t = some u) : nonempty? u = some u := by
  obtain ⟨rfl, hblank⟩ := nonempty?_eq_some h
  rw [nonempty?_of_not_blank (Text.not_blank_strip hblank), Text.strip_strip]

theorem extractFirst_self {source : Mapping} {key : String} {t : Text}
    (h : extractFirstNonemptyString source [key] = some t) : nonempty? t = some t := by
  rw [extractFirstNonemptyString_singleton] at h
  obtain ⟨u, -, hu⟩ := Option.bind_eq_some_iff.mp h
  exact nonempty?_self_of_eq hu

theorem extractEventSessionId_self {event : Mapping} {t : Text}
    (h : extractEventSessionId event = some t) : nonempty? t = some t := by
  unfold extractEventSessionId at h
  obtain ⟨props, -, h⟩ := Option.bind_eq_some_iff.mp h
  rcases eq_some_of_orElse h with hdirect | h
  · exact extractFirst_self hdirect
  · rcases eq_some_of_orElse h with hinfo | hpart
    · obtain ⟨info, -, hinfo⟩ := Option.bind_eq_some_iff.mp hinfo
      exact extractFirst_self hinfo
    · obtain ⟨part, -, hpart⟩ := Option.bind_eq_some_iff.mp hpart
      exact extractFirst_self hpart

theorem extractInterruptAskedEvent_self {eventType : Text} {props : Mapping} {a : InterruptAsked}
    (h : extractInterruptAskedEvent eventType props = some a) :
    nonempty? a.requestId = some a.requestId := by
  unfold extractInterruptAskedEvent at h
  split at h
  · obtain ⟨id, hid, rfl⟩ := Option.map_eq_some_iff.mp h
    exact extractFirst_self hid
  · split at h
    · obtain ⟨id, hid, rfl⟩ := Option.map_eq_some_iff.mp h
      exact extractFirst_self hid
    · cases h

theorem extractInterruptResolvedEvent_self {eventType : Text} {props : Mapping}
    {a : InterruptResolved} (h : extractInterruptResolvedEvent eventType props = some a) :
    nonempty? a.requestId = some a.requestId := by
  unfold extractInterruptResolvedEvent at h
  split at h
  · obtain ⟨id, hid, rfl⟩ := Option.map_eq_some_iff.mp h
    exact extractFirst_self hid
  · cases h

/-- An interrupt operation of an event of the session comes from its type and its
properties. -/
theorem interrupt_of_mem {event : Mapping} {o : Op} (ho : o ∈ eventOps cfg event) :
    (∀ a, o = .asked a → extractEventSessionId event = some cfg.sessionId ∧
      ∃ eventType props, event.getStr? "type" = some eventType ∧
        event.getMapping? "properties" = some props ∧
        extractInterruptAskedEvent eventType props = some a) ∧
    ∀ b, o = .resolved b → ∃ eventType props, event.getStr? "type" = some eventType ∧
      event.getMapping? "properties" = some props ∧
      extractInterruptResolvedEvent eventType props = some b := by
  have hneither : ∀ {o : Op}, (∀ a, o ≠ .asked a) → (∀ b, o ≠ .resolved b) →
      (∀ a, o = .asked a → extractEventSessionId event = some cfg.sessionId ∧
        ∃ eventType props, event.getStr? "type" = some eventType ∧
          event.getMapping? "properties" = some props ∧
          extractInterruptAskedEvent eventType props = some a) ∧
      ∀ b, o = .resolved b → ∃ eventType props, event.getStr? "type" = some eventType ∧
        event.getMapping? "properties" = some props ∧
        extractInterruptResolvedEvent eventType props = some b :=
    fun hasked hresolved => ⟨fun a ha => absurd ha (hasked a), fun b hb => absurd hb (hresolved b)⟩
  unfold eventOps at ho
  split at ho
  · rename_i eventType props htype hprops
    rw [List.mem_append] at ho
    rcases ho with ho | ho
    · split at ho
      · rename_i hsession
        unfold sessionOps at ho
        simp only [List.mem_append, Option.mem_toList, Option.map_eq_some_iff] at ho
        rcases ho with ((((hop | ⟨_, -, rfl⟩) | ⟨_, -, rfl⟩) | ⟨_, -, rfl⟩) | ⟨a, ha, rfl⟩) |
          ⟨b, hb, rfl⟩
        · obtain ⟨i, q, mid, rfl⟩ := mem_progressOp? (Option.mem_toList.mpr hop)
          exact hneither (fun a ha => by cases ha) (fun b hb => by cases hb)
        · exact hneither (fun a ha => by cases ha) (fun b hb => by cases hb)
        · exact hneither (fun a ha => by cases ha) (fun b hb => by cases hb)
        · exact hneither (fun a ha => by cases ha) (fun b hb => by cases hb)
        · refine ⟨?_, fun b hb => by cases hb⟩
          rintro a' ⟨⟩
          exact ⟨hsession, eventType, props, htype, hprops, ha⟩
        · refine ⟨(fun a ha => by cases ha), ?_⟩
          rintro b' ⟨⟩
          exact ⟨eventType, props, htype, hprops, hb⟩
      · cases ho
    · obtain ⟨e, -, rfl⟩ := Option.map_eq_some_iff.mp (Option.mem_toList.mp ho)
      exact hneither (fun a ha => by cases ha) (fun b hb => by cases hb)
  · cases ho

theorem extracted_of_mem {event : Mapping} : ∀ o ∈ eventOps cfg event, Extracted cfg o := by
  intro o ho
  cases o with
  | progress | upstreamError | usage | terminalSignal | part => trivial
  | asked a =>
      obtain ⟨hsession, _, _, -, -, ha⟩ := (interrupt_of_mem ho).1 a rfl
      exact ⟨extractInterruptAskedEvent_self ha, extractEventSessionId_self hsession⟩
  | resolved b =>
      obtain ⟨_, _, -, -, hb⟩ := (interrupt_of_mem ho).2 b rfl
      exact extractInterruptResolvedEvent_self hb

theorem pending_mark {s s' : StreamOutputState} {id : Text} (hid : nonempty? id = some id)
    (h : s.markInterruptPending id = some s') :
    id ∉ s.pendingInterruptRequestIds ∧
      s'.pendingInterruptRequestIds = id :: s.pendingInterruptRequestIds := by
  unfold StreamOutputState.markInterruptPending at h
  rw [hid] at h
  simp only at h
  split at h
  · cases h
  · rename_i hnot
    cases h
    exact ⟨fun hmem => hnot (List.contains_iff_mem.mpr hmem), rfl⟩

theorem pending_clear {s s' : StreamOutputState} {id : Text} (hid : nonempty? id = some id)
    (h : s.clearInterruptPending id = some s') :
    id ∈ s.pendingInterruptRequestIds ∧
      s'.pendingInterruptRequestIds = s.pendingInterruptRequestIds.filter fun i => i ≠ id := by
  unfold StreamOutputState.clearInterruptPending at h
  rw [hid] at h
  simp only at h
  split at h
  · rename_i hmem
    cases h
    exact ⟨List.contains_iff_mem.mp hmem, rfl⟩
  · cases h

theorem pending_clear_none {s : StreamOutputState} {id : Text} (hid : nonempty? id = some id)
    (h : s.clearInterruptPending id = none) : id ∉ s.pendingInterruptRequestIds := by
  unfold StreamOutputState.clearInterruptPending at h
  rw [hid] at h
  simp only at h
  split at h
  · cases h
  · rename_i hnot
    exact fun hmem => hnot (List.contains_iff_mem.mpr hmem)

theorem touches_of_op? {call : TrackerCall} {id : Text}
    (hcall : (∃ a, call = .remember a ∧ a.requestId = id) ∨ ∃ a, call = .discard a ∧ a.requestId = id)
    (hid : nonempty? id = some id) (r : Text) :
    ∀ op, w.op? call = some op → touches r op = decide (id = r) := by
  intro op hop
  rcases hcall with ⟨a, rfl, rfl⟩ | ⟨a, rfl, rfl⟩
  · simp only [Watch.op?, hid, Option.bind_some, Option.map_eq_some_iff] at hop
    obtain ⟨session, -, rfl⟩ := hop
    rfl
  · simp only [Watch.op?, hid, Option.map_some, Option.some.injEq] at hop
    subst hop
    rfl

/-- The runtime is another one, in which the same is pending of the request. -/
theorem apart_of_runtime {rt : Runtime}
    (h : r ∈ rt.out.pendingInterruptRequestIds ↔ Pending r c) : Apart r c { c with runtime := rt } :=
  ⟨rfl, h, List.prefix_refl _, id, fun _ _ => rfl⟩

theorem apartAct_of_output {a : Act} (h : a.isOutput = true) : ApartAct w r a := by
  cases a with
  | chunk | progress =>
      refine ⟨?_, ?_⟩
      · intro m hm
        cases hm
      · intro call hcall
        cases hcall
  | rememberRequest | asked | discardRequest | resolved => cases h

theorem pending_of_quiet {o : Op} (h : o.isQuiet = true) (rt : Runtime) :
    (o.perform cfg rt).1.out.pendingInterruptRequestIds = rt.out.pendingInterruptRequestIds := by
  cases o with
  | terminalSignal | asked | resolved => cases h
  | upstreamError | usage => rfl
  | progress i q mid =>
      simp only [Op.perform]
      cases hreg : rt.out.registerProgress i (cfg.dumps false q.toMapping) with
      | none => rfl
      | some out =>
          unfold StreamOutputState.registerProgress at hreg
          split at hreg <;> cases hreg
          rfl
  | part e =>
      show (rt.handlePart cfg e).1.out.pendingInterruptRequestIds = _
      rw [handlePart_out]

theorem apart_of_quiet {o : Op} (h : o.isQuiet = true) (c : Consumption SharedRepository) :
    Apart r c (Consumption.op cfg (w.track env) c o).1 := by
  have hsignal : ∀ s, o ≠ .terminalSignal s := by
    rintro s rfl
    cases h
  rw [Consumption.op_eq_acts hsignal]
  have hruntime : Apart r c { c with runtime := (o.perform cfg c.runtime).1 } := by
    apply apart_of_runtime
    rw [pending_of_quiet h]
    rfl
  exact hruntime.trans (ApartAct.acts
    (fun a ha => apartAct_of_output (isOutput_of_mem_perform h ha)) _)

/-- A turn of the request: the tracker is called for it, and if the call returns, the
status follows. -/
theorem Aligned.turn (h : Aligned r c) {call : TrackerCall} {ok asked : Bool}
    (htracked : Tracked w r call c.tracker c'.tracker ok)
    (hop : ∃ op, w.op? call = some op ∧ touches r op = true ∧ isRemember op = asked)
    (hbefore : Pending r c ↔ asked = false) (hafter : Pending r c' ↔ asked = true)
    (hstatuses : ok = true → asks r c'.statuses = asks r c.statuses ++ [asked]) :
    Aligned r c' := by
  obtain ⟨op, hop, htouch, hremember⟩ := hop
  have hreturned : AllAnswered r c'.tracker.uses →
      ok = true ∧ AllAnswered r c.tracker.uses := fun hans =>
    ⟨htracked.answered hans op hop htouch, hans.of_prefix htracked.uses⟩
  refine ⟨htracked.sound h.sound, ?_, ?_, ?_⟩
  · intro hans
    obtain ⟨hok, hans'⟩ := hreturned hans
    rw [hstatuses hok, ← List.cons_append, List.isChain_append]
    refine ⟨h.alternate hans', List.isChain_singleton _, ?_⟩
    rintro b hb _ ⟨⟩
    -- the last status was the other one, or there was none
    have hlast := h.pending hans'
    rw [hbefore] at hlast
    cases hl : (asks r c.statuses).getLast? with
    | none =>
        rw [List.getLast?_eq_none_iff.mp hl] at hb
        cases hb
        rintro rfl
        rw [hl] at hlast
        cases hlast.mpr rfl
    | some b' =>
        rw [List.getLast?_cons, hl] at hb
        cases hb
        rw [hl, Option.some.injEq] at hlast
        rintro rfl
        cases b' with
        | true => cases hlast.mp rfl
        | false => cases hlast.mpr rfl
  · intro hans
    rw [hstatuses (hreturned hans).1, List.getLast?_concat, hafter, Option.some.injEq]
  · intro hans hspared
    have hbinds := htracked.binds h.sound hspared
    rw [hop] at hbinds
    simp only [(hreturned hans).1, htouch, and_self, if_true, hremember] at hbinds
    rw [hbinds, hafter]

theorem asks_append (r : Text) (l l' : List InterruptMetadata) :
    asks r (l ++ l') = asks r l ++ asks r l' := by
  unfold asks
  exact List.filterMap_append

/-- The tracker's call and the status after it. -/
theorem acts_call_status {a b : Act} {call : TrackerCall} {m : InterruptMetadata}
    (ha : a.call? = some call) (hb : b.interrupt? = some m) (c : Consumption SharedRepository) :
    ∃ c', (Consumption.acts cfg (w.track env) c [a, b]).1 = c' ∧
      c'.tracker = (w.track env c.tracker call).1 ∧
      (Pending r c' ↔ Pending r c) ∧
      ((w.track env c.tracker call).2 = true → c'.statuses = c.statuses ++ [m]) := by
  have hact : Consumption.act cfg (w.track env) c a =
      ({ c with
          tracker := (w.track env c.tracker call).1
          calls := c.calls ++ [call] }, (w.track env c.tracker call).2) := by
    cases a with
    | chunk | progress | asked | resolved => cases ha
    | rememberRequest a | discardRequest a =>
        cases ha
        rfl
  cases hok : (w.track env c.tracker call).2 with
  | false =>
      rw [hok] at hact
      rw [Consumption.acts_of_raised hact]
      refine ⟨_, rfl, rfl, .rfl, ?_⟩
      intro hcon
      cases hcon
  | true =>
      rw [hok] at hact
      rw [Consumption.acts_of_returned hact]
      cases b with
      | chunk | progress | rememberRequest | discardRequest => cases hb
      | asked b | resolved b =>
          cases hb
          exact ⟨_, rfl, rfl, .rfl, fun _ => rfl⟩

theorem Aligned.asked (h : Aligned r c) {a : InterruptAsked}
    (hid : nonempty? a.requestId = some a.requestId)
    (hsession : nonempty? w.sessionId = some w.sessionId) :
    Aligned r (Consumption.op cfg (w.track env) c (.asked a)).1 := by
  rw [Consumption.op_eq_acts (fun s hs => by cases hs)]
  simp only [Op.perform]
  cases hmark : c.runtime.out.markInterruptPending a.requestId with
  | none => exact h
  | some out =>
      obtain ⟨hnot, hpending⟩ := pending_mark hid hmark
      simp only
      by_cases hr : a.requestId = r
      · subst hr
        obtain ⟨c', hc', htracker, hstays, hstatuses⟩ :=
          @acts_call_status cfg w env a.requestId (.rememberRequest a) (.asked a) _ _ rfl rfl
            { c with runtime := { c.runtime with out := out } }
        rw [hc']
        have htracked := track_spec w env a.requestId c.tracker (.remember a)
        rw [← htracker] at htracked
        have hop : ∃ op, w.op? (.remember a) = some op ∧ touches a.requestId op = true ∧
            isRemember op = true := by
          simp only [Watch.op?, hid, hsession, Option.bind_some, Option.map_some]
          exact ⟨_, rfl, decide_eq_true rfl, rfl⟩
        refine h.turn htracked hop ?_ ?_ ?_
        · exact iff_of_false hnot (by decide)
        · rw [hstays]
          refine iff_of_true ?_ rfl
          show a.requestId ∈ out.pendingInterruptRequestIds
          rw [hpending]
          exact List.mem_cons_self ..
        · intro hok
          rw [hstatuses hok, asks_append]
          simp [asks]
      · have hruntime : Apart r c { c with runtime := { c.runtime with out := out } } := by
          apply apart_of_runtime
          show r ∈ out.pendingInterruptRequestIds ↔ r ∈ c.runtime.out.pendingInterruptRequestIds
          rw [hpending, List.mem_cons, or_iff_right fun heq => hr heq.symm]
        refine h.apart (hruntime.trans (ApartAct.acts ?_ _))
        intro act hact
        simp only [List.mem_cons, List.not_mem_nil, or_false] at hact
        rcases hact with rfl | rfl
        · refine ⟨(fun m hm => by cases hm), ?_⟩
          rintro call ⟨⟩ op hop
          rw [touches_of_op? (.inl ⟨a, rfl, rfl⟩) hid r op hop]
          exact decide_eq_false hr
        · refine ⟨?_, (fun call hcall => by cases hcall)⟩
          rintro m ⟨⟩
          exact hr

/-- A resolution of what is not pending: the tracker is called all the same. -/
theorem Aligned.discarded (h : Aligned r c) {call : TrackerCall} {ok : Bool}
    (htracked : Tracked w r call c.tracker c'.tracker ok) (hstatuses : c'.statuses = c.statuses)
    (hop : ∀ op, w.op? call = some op → isRemember op = false)
    (hbefore : ¬ Pending r c) (hafter : ¬ Pending r c') : Aligned r c' := by
  refine ⟨htracked.sound h.sound, ?_, ?_, ?_⟩
  · intro hans
    rw [hstatuses]
    exact h.alternate (hans.of_prefix htracked.uses)
  · intro hans
    rw [hstatuses, h.pending (hans.of_prefix htracked.uses)]
    exact iff_of_false hbefore hafter
  · intro hans hspared
    have hnone : c.tracker.binds r = false := by
      rw [← Bool.not_eq_true,
        h.bound (hans.of_prefix htracked.uses) (hspared.of_prefix htracked.uses)]
      exact hbefore
    have hbinds : c'.tracker.binds r = false := by
      rw [htracked.binds h.sound hspared]
      split
      · rename_i op hsome
        split
        · exact hop op hsome
        · exact hnone
      · exact hnone
    rw [hbinds]
    exact iff_of_false Bool.false_ne_true hafter

theorem acts_of_resolution (a : InterruptResolved) (c : Consumption SharedRepository) :
    (Consumption.acts cfg (w.track env) c [.discardRequest a]).1 =
      { c with
        tracker := (w.track env c.tracker (.discard a)).1
        calls := c.calls ++ [.discard a] } := by
  have hact : Consumption.act cfg (w.track env) c (.discardRequest a) =
      ({ c with
          tracker := (w.track env c.tracker (.discard a)).1
          calls := c.calls ++ [.discard a] }, (w.track env c.tracker (.discard a)).2) := rfl
  cases hok : (w.track env c.tracker (.discard a)).2 <;> rw [hok] at hact
  · rw [Consumption.acts_of_raised hact]
  · rw [Consumption.acts_of_returned hact]
    rfl

theorem Aligned.resolved (h : Aligned r c) {a : InterruptResolved}
    (hid : nonempty? a.requestId = some a.requestId) :
    Aligned r (Consumption.op cfg (w.track env) c (.resolved a)).1 := by
  have hapart : a.requestId ≠ r → ApartAct w r (.discardRequest a) := by
    intro hr
    refine ⟨(fun m hm => by cases hm), ?_⟩
    rintro call ⟨⟩ op hop
    rw [touches_of_op? (.inr ⟨a, rfl, rfl⟩) hid r op hop]
    exact decide_eq_false hr
  rw [Consumption.op_eq_acts (fun s hs => by cases hs)]
  simp only [Op.perform]
  cases hclear : c.runtime.out.clearInterruptPending a.requestId with
  | none =>
      simp only
      by_cases hr : a.requestId = r
      · subst hr
        have hnot : ¬ Pending a.requestId c := pending_clear_none hid hclear
        rw [show ({ c with runtime := c.runtime } : Consumption SharedRepository) = c from rfl,
          acts_of_resolution]
        refine h.discarded (track_spec w env a.requestId c.tracker (.discard a)) rfl ?_ hnot hnot
        intro op hop
        simp only [Watch.op?, hid, Option.map_some, Option.some.injEq] at hop
        subst hop
        rfl
      · refine h.apart (ApartAct.acts ?_ _)
        intro act hact
        obtain rfl := List.mem_singleton.mp hact
        exact hapart hr
  | some out =>
      obtain ⟨hmem, hpending⟩ := pending_clear hid hclear
      simp only
      by_cases hr : a.requestId = r
      · subst hr
        obtain ⟨c', hc', htracker, hstays, hstatuses⟩ :=
          @acts_call_status cfg w env a.requestId (.discardRequest a) (.resolved a) _ _ rfl rfl
            { c with runtime := { c.runtime with out := out } }
        rw [hc']
        have htracked := track_spec w env a.requestId c.tracker (.discard a)
        rw [← htracker] at htracked
        have hop : ∃ op, w.op? (.discard a) = some op ∧ touches a.requestId op = true ∧
            isRemember op = false := by
          simp only [Watch.op?, hid, Option.map_some]
          exact ⟨_, rfl, decide_eq_true rfl, rfl⟩
        refine h.turn htracked hop ?_ ?_ ?_
        · exact iff_of_true hmem rfl
        · rw [hstays]
          refine iff_of_false ?_ Bool.false_ne_true
          show a.requestId ∉ out.pendingInterruptRequestIds
          rw [hpending, List.mem_filter]
          intro hcon
          exact of_decide_eq_true hcon.2 rfl
        · intro hok
          rw [hstatuses hok, asks_append]
          simp [asks]
      · have hruntime : Apart r c { c with runtime := { c.runtime with out := out } } := by
          apply apart_of_runtime
          show r ∈ out.pendingInterruptRequestIds ↔ r ∈ c.runtime.out.pendingInterruptRequestIds
          rw [hpending, List.mem_filter, and_iff_left]
          exact decide_eq_true fun heq => hr heq.symm
        refine h.apart (hruntime.trans (ApartAct.acts ?_ _))
        intro act hact
        simp only [List.mem_cons, List.not_mem_nil, or_false] at hact
        rcases hact with rfl | rfl
        · exact hapart hr
        · refine ⟨?_, (fun call hcall => by cases hcall)⟩
          rintro m ⟨⟩
          exact hr

/-! ## §5  Along the stream -/

theorem Aligned.op (h : Aligned r c) (hw : w.sessionId = cfg.sessionId) {o : Op}
    (ho : Extracted cfg o) : Aligned r (Consumption.op cfg (w.track env) c o).1 := by
  cases o with
  | asked a => exact h.asked ho.1 (hw ▸ ho.2)
  | resolved a => exact h.resolved ho
  | terminalSignal s =>
      simp only [Consumption.op]
      split
      · exact h
      · exact ⟨h.sound, h.alternate, h.pending, h.bound⟩
  | progress i q mid => exact h.apart (apart_of_quiet rfl c)
  | upstreamError e => exact h.apart (apart_of_quiet rfl c)
  | usage u => exact h.apart (apart_of_quiet rfl c)
  | part e => exact h.apart (apart_of_quiet rfl c)

theorem Aligned.ops (h : Aligned r c) (hw : w.sessionId = cfg.sessionId) {os : List Op}
    (hos : ∀ o ∈ os, Extracted cfg o) : Aligned r (Consumption.ops cfg (w.track env) c os).1 := by
  induction os generalizing c with
  | nil => exact h
  | cons o os ih =>
      have hfirst : Aligned r (Consumption.op cfg (w.track env) c o).1 :=
        h.op hw (hos o (List.mem_cons_self ..))
      rcases hdone : Consumption.op cfg (w.track env) c o with ⟨c', _ | _⟩ <;> rw [hdone] at hfirst
      · rw [Consumption.ops_of_raised hdone]
        exact hfirst
      · rw [Consumption.ops_of_returned hdone]
        exact ih hfirst fun o' ho' => hos o' (List.mem_cons_of_mem o ho')

theorem Aligned.takeAll (h : Aligned r c) (hw : w.sessionId = cfg.sessionId)
    (events : List Mapping) : Aligned r (events.foldl (Consumption.take cfg (w.track env)) c) := by
  induction events generalizing c with
  | nil => exact h
  | cons event events ih =>
      refine ih ?_
      unfold Consumption.take
      split
      · exact h
      · exact h.ops hw extracted_of_mem

/-! ## §6  What emits nothing -/

/-- A repeated question, or a resolution of what is not pending. -/
def Mute (c : Consumption SharedRepository) : Op → Prop
  | .asked a => Pending a.requestId c
  | .resolved a => ¬ Pending a.requestId c
  | _ => True

theorem op_of_mute {o : Op} (hextracted : Extracted cfg o) (ho : Mute c o) :
    (Consumption.op cfg (w.track env) c o).1.statuses = c.statuses ∧
      ∀ r, Pending r (Consumption.op cfg (w.track env) c o).1 ↔ Pending r c := by
  have hquiet : ∀ o : Op, o.isQuiet = true →
      (Consumption.op cfg (w.track env) c o).1.statuses = c.statuses ∧
        ∀ r, Pending r (Consumption.op cfg (w.track env) c o).1 ↔ Pending r c := by
    intro o ho
    refine ⟨?_, fun r => (apart_of_quiet ho c).pending⟩
    rw [Consumption.op_eq_acts (by rintro s rfl; cases ho),
      Consumption.acts_of_output fun a ha => isOutput_of_mem_perform ho ha]
    rfl
  cases o with
  | progress i q mid => exact hquiet _ rfl
  | upstreamError e => exact hquiet _ rfl
  | usage u => exact hquiet _ rfl
  | part e => exact hquiet _ rfl
  | terminalSignal s =>
      simp only [Consumption.op]
      split <;> exact ⟨rfl, fun _ => .rfl⟩
  | asked a =>
      have hmark : c.runtime.out.markInterruptPending a.requestId = none := by
        cases h : c.runtime.out.markInterruptPending a.requestId with
        | none => rfl
        | some out => exact absurd ho (pending_mark hextracted.1 h).1
      rw [Consumption.op_eq_acts (fun s hs => by cases hs)]
      simp only [Op.perform, hmark]
      exact ⟨rfl, fun _ => .rfl⟩
  | resolved a =>
      have hclear : c.runtime.out.clearInterruptPending a.requestId = none := by
        cases h : c.runtime.out.clearInterruptPending a.requestId with
        | none => rfl
        | some out => exact absurd (pending_clear hextracted h).1 ho
      rw [Consumption.op_eq_acts (fun s hs => by cases hs)]
      simp only [Op.perform, hclear]
      rw [acts_of_resolution]
      exact ⟨rfl, fun _ => .rfl⟩

theorem ops_of_mute {os : List Op} (hextracted : ∀ o ∈ os, Extracted cfg o)
    (h : ∀ o ∈ os, Mute c o) :
    (Consumption.ops cfg (w.track env) c os).1.statuses = c.statuses := by
  induction os generalizing c with
  | nil => rfl
  | cons o os ih =>
      have hfirst : (Consumption.op cfg (w.track env) c o).1.statuses = c.statuses ∧
          ∀ r, Pending r (Consumption.op cfg (w.track env) c o).1 ↔ Pending r c :=
        op_of_mute (hextracted o (List.mem_cons_self ..)) (h o (List.mem_cons_self ..))
      rcases hdone : Consumption.op cfg (w.track env) c o with ⟨c', _ | _⟩ <;> rw [hdone] at hfirst
      · rw [Consumption.ops_of_raised hdone]
        exact hfirst.1
      · rw [Consumption.ops_of_returned hdone]
        refine Eq.trans (ih (fun o' ho' => hextracted o' (List.mem_cons_of_mem o ho')) ?_) hfirst.1
        intro o' ho'
        have hmute := h o' (List.mem_cons_of_mem o ho')
        cases o' with
        | asked a => exact (hfirst.2 a.requestId).mpr hmute
        | resolved a => exact mt (hfirst.2 a.requestId).mp hmute
        | progress | upstreamError | usage | terminalSignal | part => trivial

/-- No type asks and resolves. -/
theorem not_asked_and_resolved {eventType : Text} {props : Mapping} {a : InterruptAsked}
    {b : InterruptResolved} (ha : extractInterruptAskedEvent eventType props = some a)
    (hb : extractInterruptResolvedEvent eventType props = some b) : False := by
  have htype : eventType = "permission.asked".toList ∨ eventType = "question.asked".toList := by
    unfold extractInterruptAskedEvent at ha
    split_ifs at ha with h₁ h₂
    · exact .inl h₁
    · exact .inr h₂
  unfold extractInterruptResolvedEvent at hb
  rcases htype with rfl | rfl <;> rw [if_neg (by decide)] at hb <;> cases hb

theorem mute_of_asked {event : Mapping} {a : InterruptAsked}
    (ha : .asked a ∈ eventOps cfg event) (hpending : Pending a.requestId c) :
    ∀ o ∈ eventOps cfg event, Mute c o := by
  obtain ⟨-, eventType, props, htype, hprops, hasked⟩ := (interrupt_of_mem ha).1 a rfl
  intro o ho
  cases o with
  | progress | upstreamError | usage | terminalSignal | part => trivial
  | asked b =>
      obtain ⟨-, eventType', props', htype', hprops', hasked'⟩ := (interrupt_of_mem ho).1 b rfl
      rw [htype] at htype'
      rw [hprops] at hprops'
      cases htype'
      cases hprops'
      rw [hasked] at hasked'
      cases hasked'
      exact hpending
  | resolved b =>
      obtain ⟨eventType', props', htype', hprops', hresolved⟩ := (interrupt_of_mem ho).2 b rfl
      rw [htype] at htype'
      rw [hprops] at hprops'
      cases htype'
      cases hprops'
      exact (not_asked_and_resolved hasked hresolved).elim

theorem mute_of_resolved {event : Mapping} {b : InterruptResolved}
    (hb : .resolved b ∈ eventOps cfg event) (hpending : ¬ Pending b.requestId c) :
    ∀ o ∈ eventOps cfg event, Mute c o := by
  obtain ⟨eventType, props, htype, hprops, hresolved⟩ := (interrupt_of_mem hb).2 b rfl
  intro o ho
  cases o with
  | progress | upstreamError | usage | terminalSignal | part => trivial
  | asked a =>
      obtain ⟨-, eventType', props', htype', hprops', hasked⟩ := (interrupt_of_mem ho).1 a rfl
      rw [htype] at htype'
      rw [hprops] at hprops'
      cases htype'
      cases hprops'
      exact (not_asked_and_resolved hasked hresolved).elim
  | resolved b' =>
      obtain ⟨eventType', props', htype', hprops', hresolved'⟩ := (interrupt_of_mem ho).2 b' rfl
      rw [htype] at htype'
      rw [hprops] at hprops'
      cases htype'
      cases hprops'
      rw [hresolved] at hresolved'
      cases hresolved'
      exact hpending

theorem take_of_mute {event : Mapping} (h : ∀ o ∈ eventOps cfg event, Mute c o) :
    (Consumption.take cfg (w.track env) c event).statuses = c.statuses := by
  unfold Consumption.take
  split
  · rfl
  · exact ops_of_mute extracted_of_mem h

/-- The statuses of a request alternate, as long as the repository answers the
tracker's calls for it: a repeated question and the resolution of what is not pending
emit nothing. And the repository holds a binding exactly while the last status asks,
whatever others do besides. -/
theorem interrupt_statuses_agree (hw : w.sessionId = cfg.sessionId)
    (hstatuses : c.statuses = []) (hpending : c.runtime.out.pendingInterruptRequestIds = [])
    (hsound : c.tracker.repository.Sound) (hfree : c.tracker.repository.expiry? r = none)
    (events : List Mapping) {c' : Consumption SharedRepository}
    (hc' : events.foldl (Consumption.take cfg (w.track env)) c = c')
    (hanswered : AllAnswered r c'.tracker.uses) :
    List.IsChain (· ≠ ·) (false :: asks r c'.statuses) ∧
      (∀ event a, Op.asked a ∈ eventOps cfg event → a.requestId = r →
        (asks r c'.statuses).getLast? = some true →
        (Consumption.take cfg (w.track env) c' event).statuses = c'.statuses) ∧
      (∀ event b, Op.resolved b ∈ eventOps cfg event → b.requestId = r →
        (asks r c'.statuses).getLast? ≠ some true →
        (Consumption.take cfg (w.track env) c' event).statuses = c'.statuses) ∧
      ∀ after : List (ℤ × InterruptOp), Undisturbed r (c'.tracker.meanwhile after).uses →
        ((c'.tracker.meanwhile after).binds r = true ↔
          (asks r c'.statuses).getLast? = some true) := by
  have hinitial : Aligned r c := by
    refine ⟨hsound, ?_, ?_, ?_⟩ <;> intro hans
    · rw [hstatuses]
      exact List.isChain_singleton _
    · rw [hstatuses]
      unfold Pending
      rw [hpending]
      exact iff_of_false (by simp [asks]) List.not_mem_nil
    · intro _
      unfold Pending SharedRepository.binds
      rw [hpending, hfree]
      exact iff_of_false Bool.false_ne_true List.not_mem_nil
  have haligned : Aligned r c' := hc' ▸ hinitial.takeAll hw events
  refine ⟨haligned.alternate hanswered, ?_, ?_, ?_⟩
  · rintro event a ha rfl hlast
    exact take_of_mute (mute_of_asked ha ((haligned.pending hanswered).mp hlast))
  · rintro event b hb rfl hlast
    exact take_of_mute (mute_of_resolved hb (mt (haligned.pending hanswered).mpr hlast))
  · intro after hspared
    have hbefore := hspared.of_prefix (SharedRepository.meanwhile_uses after)
    rw [SharedRepository.meanwhile_binds haligned.sound hspared,
      haligned.bound hanswered hbefore, haligned.pending hanswered]

/-! The run of the example: a permission is asked for, twice, granted and asked for
again, while somebody lists the pending requests. -/

def interruptEvent (type key : String) : Mapping :=
  [("type".toList, .str type.toList),
    ("properties".toList, .obj
      [("sessionID".toList, .str "session-1".toList), (key.toList, .str "perm-1".toList)])]

def exampleWatch : Watch where
  sessionId := "session-1".toList
  identity := "user-1".toList
  taskId := "task-1".toList
  contextId := "context-1".toList

def exampleSurroundings : Surroundings where
  others := fun n => [(n, .listPending "user-1".toList none)]
  now := fun n => n

def beforeInterrupts : Consumption SharedRepository :=
  { runtime := exampleRuntime, tracker := ⟨.memory ⟨60, 10⟩ {}, [], 0⟩ }

def afterInterrupts : Consumption SharedRepository :=
  [interruptEvent "permission.asked" "id", interruptEvent "permission.asked" "id",
    interruptEvent "permission.replied" "requestID", interruptEvent "permission.asked" "id"].foldl
      (Consumption.take exampleConfig (exampleWatch.track exampleSurroundings)) beforeInterrupts

theorem asked_again_is_bound :
    asks "perm-1".toList afterInterrupts.statuses = [true, false, true] ∧
      afterInterrupts.tracker.binds "perm-1".toList = true := by
  have hanswered : AllAnswered "perm-1".toList afterInterrupts.tracker.uses := by
    have hall : afterInterrupts.tracker.uses.all (fun u => u.returned) = true := by rfl
    intro u hu _ _
    exact List.all_eq_true.mp hall u hu
  have hspared : Undisturbed "perm-1".toList afterInterrupts.tracker.uses := by
    have hall : afterInterrupts.tracker.uses.all (fun u =>
        (u.repository.expiry? "perm-1".toList).all (fun e => u.now < e) &&
          (u.own || !touches "perm-1".toList u.op)) = true := by rfl
    intro u hu
    have hu' := List.all_eq_true.mp hall u hu
    rw [Bool.and_eq_true] at hu'
    refine ⟨?_, ?_⟩
    · intro e he
      have hlt := hu'.1
      rw [he] at hlt
      exact of_decide_eq_true hlt
    · intro hown
      have htouch := hu'.2
      rw [hown, Bool.false_or, Bool.not_eq_true'] at htouch
      exact htouch
  have hsound : beforeInterrupts.tracker.repository.Sound := trivial
  obtain ⟨-, -, -, hbound⟩ :=
    interrupt_statuses_agree (r := "perm-1".toList) rfl rfl rfl hsound rfl _ rfl hanswered
  exact ⟨rfl, (hbound [] hspared).mpr rfl⟩

end OpencodeA2a.Execution
