import OpencodeA2a.Jsonrpc.InterruptCallbacks
import OpencodeA2a.Store.InterruptRepository
import OpencodeA2a.Library.Machine
import Mathlib.Logic.Function.Basic

/-!
# Callbacks side by side

Any number of interrupt callbacks run concurrently over one repository. A callback
can be overtaken wherever its handler awaits: between looking the binding up and
sending the reply, while upstream has the reply, and before the binding is
discarded.
-/

namespace OpencodeA2a.Jsonrpc

open OpencodeA2a.Stream (Text Json Mapping)
open OpencodeA2a.Store

/-! ## §1  The system -/

def UpstreamCall.requestId : UpstreamCall → Text
  | .permissionReply requestId _ _ _ => requestId
  | .questionReply requestId _ _ => requestId
  | .questionReject requestId _ => requestId

/-- How far the handler of a callback has come. -/
inductive CallbackStage where
  | arrived
  | looked (requestId : Text) (routing : Routing) (status : InterruptStatus)
      (binding : Option InterruptRequestBinding)
  | calling (call : UpstreamCall)
  /-- upstream has accepted the reply, or does not know the request -/
  | discarding (requestId : Text) (accepted : Bool)
  | answered (answer : CallbackAnswer)
  /-- the exception has left the handler -/
  | raised (e : DbError)

structure CallbackState (ι : Type) where
  repository : InterruptRepository
  stage : ι → CallbackStage
  /-- the replies that upstream has accepted -/
  accepted : List (ι × UpstreamCall)

inductive CallbackAction (ι : Type) where
  | lookUp (i : ι) (now : ℤ)
  | send (i : ι)
  | reply (i : ι) (outcome : UpstreamOutcome)
  | discard (i : ι)
  /-- anything else that happens to the repository -/
  | store (now : ℤ) (op : InterruptOp)

namespace CallbackState

variable {ι : Type} [DecidableEq ι]

def goto (s : CallbackState ι) (i : ι) (stage : CallbackStage) : CallbackState ι :=
  { s with stage := Function.update s.stage i stage }

/-- Everything up to the answer of the repository. -/
def lookUp (requests : ι → CallbackRequest) (s : CallbackState ι) (i : ι) (now : ℤ) :
    CallbackState ι :=
  match (requests i).parse with
  | .error e => s.goto i (.answered (.error e))
  | .ok (requestId, routing) =>
      match s.repository.resolve now requestId with
      | .error e => s.goto i (.raised e)
      | .ok (repository, status, binding) =>
          { s with repository := repository }.goto i (.looked requestId routing status binding)

def reply (s : CallbackState ι) (i : ι) (call : UpstreamCall) (outcome : UpstreamOutcome) :
    CallbackState ι :=
  match outcome.afterCall call.requestId with
  | .discard => { s with accepted := s.accepted ++ [(i, call)] }.goto i (.discarding call.requestId true)
  | .discardNotFound => s.goto i (.discarding call.requestId false)
  | .answer e => s.goto i (.answered (.error e))

def discard (requests : ι → CallbackRequest) (s : CallbackState ι) (i : ι) (requestId : Text)
    (accepted : Bool) : CallbackState ι :=
  match s.repository.discard requestId with
  | .ok repository =>
      { s with repository := repository }.goto i (.answered
        (if accepted then (requests i).successAnswer requestId
        else .error (interruptNotFoundError errInterruptNotFound requestId false)))
  | .error e =>
      -- the second discard is in an `except` clause, so that its exception gets out
      s.goto i (if accepted then .answered (.error (.internal (.database e))) else .raised e)

def step (requests : ι → CallbackRequest) (s : CallbackState ι) :
    CallbackAction ι → Option (CallbackState ι)
  | .lookUp i now =>
      match s.stage i with
      | .arrived => some (s.lookUp requests i now)
      | _ => none
  | .send i =>
      match s.stage i with
      | .looked requestId routing status binding =>
          match (requests i).proceed requestId routing status binding with
          | .ok call => some (s.goto i (.calling call))
          | .error e => some (s.goto i (.answered (.error e)))
      | _ => none
  | .reply i outcome =>
      match s.stage i with
      | .calling call => some (s.reply i call outcome)
      | _ => none
  | .discard i =>
      match s.stage i with
      | .discarding requestId accepted => some (s.discard requests i requestId accepted)
      | _ => none
  | .store now op =>
      match s.repository.perform now op with
      | .ok (repository, _) => some { s with repository := repository }
      | .error _ => some s

end CallbackState

/-! ## §2  One reply at a time -/

/-- A reply to the request is on its way, or accepted with the binding not yet
discarded. -/
def CallbackStage.replying (r : Text) : CallbackStage → Bool
  | .calling call => call.requestId = r
  | .discarding requestId true => requestId = r
  | _ => false

/-- Upstream has accepted the reply of the callback. -/
def CallbackStage.Succeeds : CallbackStage → Prop
  | .discarding _ accepted => accepted = true
  | .answered .noContent => True
  | .answered (.success _) => True
  | _ => False

/-- The reply that a callback is about to send. -/
def CallbackStage.sends (request : CallbackRequest) : CallbackStage → Option UpstreamCall
  | .looked requestId routing status binding =>
      (request.proceed requestId routing status binding).toOption
  | _ => none

variable {ι : Type}

/-- A callback sends a reply to the request only while the repository still holds the
binding and no other reply is on its way; the request is not remembered again. -/
def Unrivalled (requests : ι → CallbackRequest) (r : Text) (s : CallbackState ι) :
    CallbackAction ι → Prop
  | .send i => ∀ call, (s.stage i).sends (requests i) = some call → call.requestId = r →
      s.repository.holds r = true ∧ ∀ j, j ≠ i → (s.stage j).replying r = false
  | .store _ op => op.remembers r = false
  | _ => True

def CallbackState.acceptedFor (s : CallbackState ι) (r : Text) : List (ι × UpstreamCall) :=
  s.accepted.filter fun x => x.2.requestId = r

structure CallbackState.Once (r : Text) (s : CallbackState ι) : Prop where
  sound : s.repository.Sound
  lone : ∀ i j, (s.stage i).replying r = true → (s.stage j).replying r = true → i = j
  fresh : ∀ i call, s.stage i = .calling call → call.requestId = r → s.acceptedFor r = []
  one : (s.acceptedFor r).length ≤ 1
  gone : s.acceptedFor r ≠ [] →
    (∃ i, s.stage i = .discarding r true) ∨ s.repository.holds r = false
  succeeded : ∀ i, (s.stage i).Succeeds → ∃ call, (i, call) ∈ s.accepted

theorem requestId_of_upstreamCall {request : CallbackRequest} {requestId : Text}
    {routing : Routing} {call : UpstreamCall}
    (h : request.upstreamCall requestId routing = .ok call) : call.requestId = requestId := by
  unfold CallbackRequest.upstreamCall at h
  split at h
  · obtain ⟨reply, -, h⟩ := bind_eq_ok.mp h
    split at h <;> cases h <;> rfl
  · obtain ⟨answers, -, h⟩ := bind_eq_ok.mp h
    cases h
    rfl
  · cases h
    rfl

theorem requestId_of_proceed {request : CallbackRequest} {requestId : Text} {routing : Routing}
    {status : InterruptStatus} {binding : Option InterruptRequestBinding} {call : UpstreamCall}
    (h : request.proceed requestId routing status binding = .ok call) :
    call.requestId = requestId := by
  unfold CallbackRequest.proceed at h
  obtain ⟨-, -, h⟩ := bind_eq_ok.mp h
  simp only at h
  split at h
  · cases h
  · split at h
    · rename_i call' hcall
      cases h
      exact requestId_of_upstreamCall hcall
    · cases h

namespace CallbackState

variable [DecidableEq ι] {requests : ι → CallbackRequest} {r : Text} {s t : CallbackState ι}

/-- A callback goes on to a stage in which it does not reply to the request. -/
theorem Once.move (h : s.Once r) {repository : InterruptRepository} (hsound : repository.Sound)
    (hholds : s.repository.holds r = false → repository.holds r = false) {i : ι}
    {stage : CallbackStage} (hquiet : stage.replying r = false)
    (hdone : s.stage i = .discarding r true → repository.holds r = false)
    (hsucceeds : stage.Succeeds → ∃ call, (i, call) ∈ s.accepted) :
    ({ s with repository := repository }.goto i stage).Once r := by
  have hreplying : ∀ j, ((Function.update s.stage i stage) j).replying r = true →
      (s.stage j).replying r = true := by
    intro j hj
    rw [Function.update_apply] at hj
    split at hj
    · rw [hquiet] at hj
      cases hj
    · exact hj
  refine ⟨hsound, ?_, ?_, h.one, ?_, ?_⟩
  · intro j k hj hk
    exact h.lone j k (hreplying j hj) (hreplying k hk)
  · intro j call hj hcall
    change Function.update s.stage i stage j = _ at hj
    rw [Function.update_apply] at hj
    split at hj
    · rw [hj] at hquiet
      exact absurd hcall (of_decide_eq_false hquiet)
    · exact h.fresh j call hj hcall
  · intro hne
    rcases h.gone hne with ⟨j, hj⟩ | hgone
    · by_cases hji : j = i
      · exact .inr (hdone (hji ▸ hj))
      · exact .inl ⟨j, (Function.update_of_ne hji ..).trans hj⟩
    · exact .inr (hholds hgone)
  · intro j hj
    change CallbackStage.Succeeds (Function.update s.stage i stage j) at hj
    rw [Function.update_apply] at hj
    split at hj
    · rename_i hji
      rw [hji]
      exact hsucceeds hj
    · exact h.succeeded j hj

theorem Once.lookUp (h : s.Once r) {i : ι} (hi : s.stage i = .arrived) (now : ℤ) :
    (s.lookUp requests i now).Once r := by
  have hdone : ∀ {repository : InterruptRepository}, s.stage i = .discarding r true →
      repository.holds r = false := by
    intro repository hcon
    rw [hi] at hcon
    cases hcon
  unfold CallbackState.lookUp
  split
  · exact h.move h.sound id rfl hdone fun hs => by cases hs
  · rename_i requestId routing hparse
    obtain ⟨next, answer, hok, hsound, hholds⟩ :=
      InterruptRepository.resolve_sound (r := r) h.sound now requestId
    rw [hok]
    exact h.move hsound hholds rfl hdone fun hs => by cases hs

theorem Once.send (h : s.Once r) {i : ι} {requestId : Text} {routing : Routing}
    {status : InterruptStatus} {binding : Option InterruptRequestBinding} {call : UpstreamCall}
    (hi : s.stage i = .looked requestId routing status binding) (hcall : call.requestId = requestId)
    (hok : requestId = r →
      s.repository.holds r = true ∧ ∀ j, j ≠ i → (s.stage j).replying r = false) :
    (s.goto i (.calling call)).Once r := by
  have hnot : s.stage i ≠ .discarding r true := by
    rw [hi]
    exact fun hcon => by cases hcon
  by_cases hr : requestId = r
  · obtain ⟨hholds, hothers⟩ := hok hr
    have hnone : s.acceptedFor r = [] := by
      by_contra hne
      rcases h.gone hne with ⟨j, hj⟩ | hgone
      · have hji : j ≠ i := by
          rintro rfl
          exact hnot hj
        have hquiet := hothers j hji
        rw [hj] at hquiet
        exact absurd rfl (of_decide_eq_false hquiet)
      · rw [hgone] at hholds
        cases hholds
    have hself : ∀ j, ((s.goto i (.calling call)).stage j).replying r = true → j = i := by
      intro j hj
      by_contra hji
      change CallbackStage.replying r (Function.update s.stage i _ j) = true at hj
      rw [Function.update_of_ne hji, hothers j hji] at hj
      cases hj
    refine ⟨h.sound, ?_, fun _ _ _ _ => hnone, h.one, fun hne => absurd hnone hne, ?_⟩
    · intro j k hj hk
      rw [hself j hj, hself k hk]
    · intro j hj
      change CallbackStage.Succeeds (Function.update s.stage i _ j) at hj
      rw [Function.update_apply] at hj
      split at hj
      · cases hj
      · exact h.succeeded j hj
  · have hquiet : (CallbackStage.calling call).replying r = false := by
      rw [← hcall] at hr
      exact decide_eq_false hr
    exact h.move h.sound id hquiet (fun hcon => absurd hcon hnot) fun hs => by cases hs

/-- Upstream accepts a reply. -/
theorem Once.accept (h : s.Once r) {i : ι} {call : UpstreamCall} (hi : s.stage i = .calling call) :
    ({ s with accepted := s.accepted ++ [(i, call)] }.goto i
      (.discarding call.requestId true)).Once r := by
  have hreplying : ∀ j, ((Function.update s.stage i (.discarding call.requestId true)) j).replying r
      = true → (s.stage j).replying r = true := by
    intro j hj
    rw [Function.update_apply] at hj
    split at hj
    · rename_i hji
      rw [hji, hi]
      exact hj
    · exact hj
  have hfor : (s.accepted ++ [(i, call)]).filter (fun x => x.2.requestId = r) =
      if call.requestId = r then s.acceptedFor r ++ [(i, call)] else s.acceptedFor r := by
    rw [List.filter_append]
    split
    · rename_i hr
      rw [List.filter_singleton, decide_eq_true hr]
      rfl
    · rename_i hr
      rw [List.filter_singleton, decide_eq_false hr]
      exact List.append_nil _
  have hempty : call.requestId = r → s.acceptedFor r = [] := h.fresh i call hi
  refine ⟨h.sound, ?_, ?_, ?_, ?_, ?_⟩
  · intro j k hj hk
    exact h.lone j k (hreplying j hj) (hreplying k hk)
  · intro j call' hj hcall'
    change Function.update s.stage i _ j = _ at hj
    rw [Function.update_apply] at hj
    split at hj
    · cases hj
    · rename_i hji
      change (s.accepted ++ [(i, call)]).filter _ = []
      rw [hfor]
      split
      · rename_i hr
        have hij := h.lone i j (by rw [hi]; exact decide_eq_true hr)
          (by rw [hj]; exact decide_eq_true hcall')
        exact absurd hij.symm hji
      · exact h.fresh j call' hj hcall'
  · change ((s.accepted ++ [(i, call)]).filter _).length ≤ 1
    rw [hfor]
    split
    · rename_i hr
      rw [hempty hr]
      exact le_refl 1
    · exact h.one
  · intro hne
    change (s.accepted ++ [(i, call)]).filter _ ≠ [] at hne
    rw [hfor] at hne
    by_cases hr : call.requestId = r
    · exact .inl ⟨i, by rw [← hr]; exact Function.update_self ..⟩
    · rw [if_neg hr] at hne
      rcases h.gone hne with ⟨j, hj⟩ | hgone
      · have hji : j ≠ i := by
          rintro rfl
          rw [hi] at hj
          cases hj
        exact .inl ⟨j, (Function.update_of_ne hji ..).trans hj⟩
      · exact .inr hgone
  · intro j hj
    change CallbackStage.Succeeds (Function.update s.stage i _ j) at hj
    rw [Function.update_apply] at hj
    split at hj
    · rename_i hji
      rw [hji]
      exact ⟨call, List.mem_append_right _ (List.mem_singleton.mpr rfl)⟩
    · obtain ⟨call', hmem⟩ := h.succeeded j hj
      exact ⟨call', List.mem_append_left _ hmem⟩

theorem Once.reply (h : s.Once r) {i : ι} {call : UpstreamCall} (hi : s.stage i = .calling call)
    (outcome : UpstreamOutcome) : (s.reply i call outcome).Once r := by
  have hdone : s.stage i = .discarding r true → s.repository.holds r = false := by
    intro hcon
    rw [hi] at hcon
    cases hcon
  unfold CallbackState.reply
  split
  · exact h.accept hi
  · exact h.move h.sound id rfl hdone fun hs => by cases hs
  · exact h.move h.sound id rfl hdone fun hs => by cases hs

theorem Once.discard (h : s.Once r) {i : ι} {requestId : Text} {accepted : Bool}
    (hi : s.stage i = .discarding requestId accepted) :
    (s.discard requests i requestId accepted).Once r := by
  obtain ⟨next, hok, hsound, hgone, hholds⟩ :=
    InterruptRepository.discard_sound (r := r) h.sound requestId
  unfold CallbackState.discard
  rw [hok]
  refine h.move hsound hholds rfl ?_ ?_
  · intro hself
    rw [hi] at hself
    cases hself
    exact hgone
  · intro hs
    cases accepted with
    | false => cases hs
    | true =>
        apply h.succeeded i
        rw [hi]
        rfl

theorem Once.step (h : s.Once r) {a : CallbackAction ι} (hok : Unrivalled requests r s a)
    (hstep : CallbackState.step requests s a = some t) : t.Once r := by
  unfold CallbackState.step at hstep
  cases a with
  | lookUp i now =>
      simp only at hstep
      split at hstep
      · rename_i hi
        cases hstep
        exact h.lookUp hi now
      · cases hstep
  | send i =>
      simp only at hstep
      split at hstep
      · rename_i requestId routing status binding hi
        split at hstep
        · rename_i call hproceed
          cases hstep
          have hcall := requestId_of_proceed hproceed
          have hsends : (s.stage i).sends (requests i) = some call := by
            rw [hi, CallbackStage.sends, hproceed]
            rfl
          exact h.send hi hcall fun hr => hok call hsends (hcall.trans hr)
        · cases hstep
          refine h.move h.sound id rfl ?_ fun hs => by cases hs
          intro hcon
          rw [hi] at hcon
          cases hcon
      · cases hstep
  | reply i outcome =>
      simp only at hstep
      split at hstep
      · rename_i call hi
        cases hstep
        exact h.reply hi outcome
      · cases hstep
  | discard i =>
      simp only at hstep
      split at hstep
      · rename_i requestId accepted hi
        cases hstep
        exact h.discard hi
      · cases hstep
  | store now op =>
      obtain ⟨next, answer, hperform, hsound, hholds⟩ :=
        InterruptRepository.perform_sound (r := r) h.sound now op
      simp only [hperform] at hstep
      cases hstep
      refine ⟨hsound, h.lone, h.fresh, h.one, ?_, h.succeeded⟩
      intro hne
      exact (h.gone hne).imp_right (hholds hok)

end CallbackState

/-- No callback has come yet. -/
def CallbackState.initial (repository : InterruptRepository) : CallbackState ι :=
  ⟨repository, fun _ => .arrived, []⟩

/-- Where no reply is sent over another that is on its way, upstream accepts at most
one reply to a request, and every other callback is answered with an error. -/
theorem one_reply_accepted [DecidableEq ι] {requests : ι → CallbackRequest} {r : Text}
    {repository : InterruptRepository} (hsound : repository.Sound)
    {actions : List (CallbackAction ι)} {s : CallbackState ι}
    (hrun : Machine.Runs (CallbackState.step requests) (Unrivalled requests r)
      (CallbackState.initial repository) actions s) :
    (s.acceptedFor r).length ≤ 1 ∧
      ∀ i answer, s.stage i = .answered answer →
        (∃ e, answer = .error e) ∨ ∃ call, (i, call) ∈ s.accepted := by
  have hinitial : (CallbackState.initial repository : CallbackState ι).Once r := by
    refine ⟨hsound, ?_, ?_, Nat.zero_le 1, fun hne => absurd rfl hne, ?_⟩
    · intro i j hi _
      cases hi
    · intro i call hi _
      cases hi
    · intro i hi
      cases hi
  have honce : s.Once r :=
    hrun.invariant (fun s a t h hok hstep => h.step hok hstep) hinitial
  refine ⟨honce.one, ?_⟩
  intro i answer hi
  cases answer with
  | error e => exact .inl ⟨e, rfl⟩
  | noContent | success requestId =>
      right
      apply honce.succeeded i
      rw [hi]
      trivial

/-- Two clients reject the same question. -/
def rejectBoth (i : Bool) : CallbackRequest where
  id := some (.int (if i then 1 else 0))
  method := .rejectQuestion
  params := [("request_id".toList, .str "q".toList)]
  userIdentity := some "alice".toList
  userCredentialId := none

/-- A question that has been asked. -/
def asked : InterruptRepository :=
  let request : RememberRequest :=
    { requestId := "q".toList
      sessionId := "s".toList
      interruptType := "question".toList
      identity := some "alice".toList }
  .memory ⟨60, 10⟩ (MemoryInterrupts.remember ⟨60, 10⟩ {} 0 request)

/-- One after the other. -/
def inTurn : List (CallbackAction Bool) :=
  [.lookUp false 1, .send false, .reply false (.returned true), .discard false,
    .lookUp true 2, .send true]

def unrivalledCheck (s : CallbackState Bool) : CallbackAction Bool → Bool
  | .send i => (s.repository.holds "q".toList && !(s.stage (!i)).replying "q".toList) ||
      ((s.stage i).sends (rejectBoth i)).isNone
  | .store _ _ => false
  | _ => true

/-- The second client is told that there is no such request. -/
theorem second_reply_refused :
    ∃ s, Machine.run (CallbackState.step rejectBoth) (CallbackState.initial asked) inTurn = some s ∧
      (s.acceptedFor "q".toList).length ≤ 1 ∧
      s.stage true = .answered
        (.error (interruptNotFoundError errInterruptNotFound "q".toList false)) := by
  have hcheck : ∀ s a, unrivalledCheck s a = true →
      Unrivalled rejectBoth "q".toList s a := by
    intro s a h
    cases a with
    | send i =>
        intro call hcall _
        simp only [unrivalledCheck, hcall, Option.isNone_some, Bool.or_false, Bool.and_eq_true,
          Bool.not_eq_true'] at h
        refine ⟨h.1, ?_⟩
        intro j hj
        rw [Bool.eq_not_of_ne hj]
        exact h.2
    | store now op => cases h
    | lookUp i now | reply i outcome | discard i => trivial
  have hrun : (Machine.run (Machine.restrict (CallbackState.step rejectBoth) unrivalledCheck)
      (CallbackState.initial asked) inTurn).isSome = true := by rfl
  have hruns := Machine.runs_of_restrict unrivalledCheck hcheck (Machine.run_after hrun)
  have hsound : asked.Sound := trivial
  exact ⟨_, Machine.runs_iff_run.mp (hruns.mono fun _ _ _ => trivial),
    (one_reply_accepted hsound hruns).1, rfl⟩

/-- One upon the other. -/
def atOnce : List (CallbackAction Bool) :=
  [.lookUp false 1, .lookUp true 1, .send false, .send true, .reply false (.returned true),
    .reply true (.returned true), .discard false, .discard true]

/-- Both replies are accepted, and both clients are told so. -/
theorem both_replies_accepted :
    ∃ s, Machine.run (CallbackState.step rejectBoth) (CallbackState.initial asked) atOnce = some s ∧
      (s.acceptedFor "q".toList).length = 2 ∧
      ∀ i, s.stage i = .answered (.success "q".toList) := by
  refine ⟨_, Machine.run_after (by rfl), rfl, ?_⟩
  intro i
  cases i <;> rfl

end OpencodeA2a.Jsonrpc
