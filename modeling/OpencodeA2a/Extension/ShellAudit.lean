import OpencodeA2a.Extension.Results
import OpencodeA2a.Extension.Sending

/-!
# The audit log of shell lines

A request for a shell line that names its session and carries a payload is in the audit log with
one line, which is written last and says what the client is told: the caller may not run shell
lines, the upstream server has answered, or which exception there was. Only a request that is
cancelled, or whose payload or routing is turned down, leaves nothing.
-/

namespace OpencodeA2a.Extension

open OpencodeA2a.Stream (Text Json Mapping)
open OpencodeA2a.Effects
open OpencodeA2a.Jsonrpc

/-! ## §1  Lines and replies -/

/-- What a request for a shell line awaits before its line in the audit log, how it ends, and its
line. -/
inductive Audited (context : HandlerContext) (request : Request) :
    List Effect → Except Raised Reply → Option Effect → Prop
  | unread {e : RpcError} (hread : ControlMethod.readTarget request.params = .error e) :
      Audited context request [] (.ok (request.reject e)) none
  | forbidden {sessionId : Text} {payload : Mapping}
      (hread : ControlMethod.readTarget request.params = .ok (sessionId, payload))
      (hforbids : request.caller.hasCapability capabilitySessionShell = false) :
      Audited context request []
        (.ok (request.reject (authorizationForbiddenError ControlMethod.shell.text
          capabilitySessionShell request.caller.userCredentialId)))
        (some (.audit request.caller.userIdentity sessionId .authorizationForbidden))
  | rejected {sessionId : Text} {payload : Mapping} {e : RpcError}
      (hread : ControlMethod.readTarget request.params = .ok (sessionId, payload))
      (hallows : request.caller.hasCapability capabilitySessionShell = true)
      (hplan : ControlMethod.shell.plan context request.params sessionId payload =
        .error (.answered e)) :
      Audited context request [] (.ok (request.reject e)) none
  | unresolved {sessionId : Text} {payload : Mapping} {x : Raised}
      (hread : ControlMethod.readTarget request.params = .ok (sessionId, payload))
      (hallows : request.caller.hasCapability capabilitySessionShell = true)
      (hplan : ControlMethod.shell.plan context request.params sessionId payload =
        .error (.raised x))
      (hresolver : context.FailsToResolve x) :
      Audited context request [] (.error x) none
  | success {sessionId : Text} {payload : Mapping} {p : ControlPlan} (calls : List Effect)
      (result : Mapping)
      (hread : ControlMethod.readTarget request.params = .ok (sessionId, payload))
      (hallows : request.caller.hasCapability capabilitySessionShell = true)
      (hplan : ControlMethod.shell.plan context request.params sessionId payload = .ok p) :
      Audited context request calls (.ok (request.answer result))
        (some (.audit request.caller.userIdentity sessionId .success))
  | failed {sessionId : Text} {payload : Mapping} {p : ControlPlan} (calls : List Effect)
      (x : Raised) (hx : x ≠ .cancelled)
      (hread : ControlMethod.readTarget request.params = .ok (sessionId, payload))
      (hallows : request.caller.hasCapability capabilitySessionShell = true)
      (hplan : ControlMethod.shell.plan context request.params sessionId payload = .ok p) :
      Audited context request calls
        (.ok (request.reject ((ControlMethod.shell.exceptionHandling sessionId).respond x)))
        (some (.audit request.caller.userIdentity sessionId (ControlMethod.shellAuditOutcome x)))
  | cancelled {sessionId : Text} {payload : Mapping} {p : ControlPlan} (calls : List Effect)
      (hread : ControlMethod.readTarget request.params = .ok (sessionId, payload))
      (hallows : request.caller.hasCapability capabilitySessionShell = true)
      (hplan : ControlMethod.shell.plan context request.params sessionId payload = .ok p) :
      Audited context request calls (.error .cancelled) none

/-! ## §2  The guard -/

/-- The program writes no line. -/
abbrev Silent {α : Type} (p : Action α) : Prop := Calls (fun e => isAudit e = false) p

theorem silent_call {e : Effect} (h : isAudit e = false) :
    Silent (Prog.call e : Action (Effect.Answer e)) :=
  calls_call.mpr h

/-- Requests are no lines. -/
theorem silent_of_asksOnce {α : Type} {p : Action α} {r : HttpRequest} (h : p.AsksOnce (.send r)) :
    Silent p := by
  obtain ⟨k, rfl, hk⟩ := h
  refine ⟨rfl, fun x => ?_⟩
  obtain ⟨r, hr⟩ := hk x
  rw [hr]
  exact calls_ofExcept

section Guard

variable {α β : Type} {g : SessionClaimGuard}

theorem silent_enter : Silent g.enter := by
  unfold SessionClaimGuard.enter
  split
  · exact calls_pure
  · exact (silent_call rfl).bind fun _ => calls_pure

theorem silent_exit : Silent g.exit := by
  unfold SessionClaimGuard.exit
  split
  · exact calls_pure
  · exact calls_exceptException (silent_call rfl) fun _ => calls_pure

/-- A finalised guard has nothing left to do. -/
theorem meets_closing_finalize {Q : Except Raised SessionClaimGuard → Option Effect → Prop}
    (hok : ∀ g : SessionClaimGuard, g.open? = none → Q (.ok g) none)
    (herror : ∀ x, Q (.error x) none) : Meets (Monitor.closing isAudit) Q g.finalize none := by
  unfold SessionClaimGuard.finalize
  split
  · rename_i hopen
    exact hok g hopen
  · refine ⟨rfl, fun r => ?_⟩
    cases r with
    | ok u => exact hok _ (by simp [SessionClaimGuard.open?])
    | error x => exact herror x

/-- Under the guard only what follows the finalisation writes, and it writes last. -/
theorem meets_closing_within {Q : Except Raised β → Option Effect → Prop} {first : Action α}
    {second : α → Action β} (hfirst : Silent first)
    (hsecond : ∀ a, Meets (Monitor.closing isAudit) Q (second a) none)
    (herror : ∀ x, Q (.error x) none) :
    Meets (Monitor.closing isAudit) Q (g.within first second) none := by
  -- what is raised under the guard leaves only the release behind, and that writes nothing
  have hraises : ∀ (g : SessionClaimGuard) x, Meets (Monitor.closing isAudit) Q
      (Prog.andFinally (.raises x) g.exit) none := by
    intro g x
    rw [meets_andFinally, meets_raises]
    refine meets_closing silent_exit fun r => ?_
    cases r <;> exact herror _
  unfold SessionClaimGuard.within
  rw [meets_bind]
  refine meets_closing silent_enter fun r => ?_
  cases r with
  | error x => exact herror x
  | ok g =>
      dsimp only
      rw [meets_bind, meets_ending, meets_bind]
      refine meets_closing hfirst fun r => ?_
      cases r with
      | error x => exact hraises g x
      | ok a =>
          dsimp only
          rw [meets_bind]
          refine meets_closing_finalize (fun g' hopen => ?_) (hraises g)
          show Meets _ Q ((second a).andFinally g'.exit) none
          rw [meets_andFinally]
          unfold SessionClaimGuard.exit
          rw [hopen]
          exact hsecond a

end Guard

/-! ## §3  The handler -/

section Handler

variable {client : UpstreamClient} {context : HandlerContext} {request : Request}

/-- How the `try` statement ends beside its line. -/
inductive Performed (identity : Option Text) (sessionId : Text) :
    Except Raised (Except RpcError Mapping) → Option Effect → Prop
  | result (result : Mapping) :
      Performed identity sessionId (.ok (.ok result)) (some (.audit identity sessionId .success))
  | error (x : Raised) (hx : x ≠ .cancelled) :
      Performed identity sessionId
        (.ok (.error ((ControlMethod.shell.exceptionHandling sessionId).respond x)))
        (some (.audit identity sessionId (ControlMethod.shellAuditOutcome x)))
  | cancelled : Performed identity sessionId (.error .cancelled) none

theorem meets_closing_logShellAudit {identity : Option Text} {sessionId : Text}
    {outcome : AuditOutcome} {Q : Except Raised Unit → Option Effect → Prop}
    (h : Q (.ok ()) (some (.audit identity sessionId outcome))) :
    Meets (Monitor.closing isAudit) Q (ControlMethod.shell.logShellAudit identity sessionId outcome)
      none :=
  ⟨rfl, fun _ => h⟩

theorem meets_closing_perform (identity : Option Text) (p : ControlPlan) :
    Meets (Monitor.closing isAudit) (Performed identity p.sessionId)
      (ControlMethod.shell.perform client identity p) none := by
  obtain ⟨r, hasks⟩ : ∃ r, (ControlMethod.shell.invoke client p).AsksOnce (.send r) :=
    ControlMethod.shell.asksOnce_invoke p
  unfold ControlMethod.perform
  rw [meets_exceptException, meets_bind]
  refine meets_closing_within (silent_of_asksOnce hasks) (fun result => ?_) fun x => ?_
  · rw [meets_bind]
    exact meets_closing_logShellAudit (.result result)
  · dsimp only
    split
    · rename_i hx
      rw [hx]
      exact .cancelled
    · rename_i hx
      rw [meets_bind]
      exact meets_closing_logShellAudit (.error x hx)

theorem meets_closing_handle {sessionId : Text} {payload : Mapping} {p : ControlPlan}
    (hread : ControlMethod.readTarget request.params = .ok (sessionId, payload))
    (hallows : request.caller.hasCapability capabilitySessionShell = true)
    (hplan : ControlMethod.shell.plan context request.params sessionId payload = .ok p) :
    Meets (Monitor.closing isAudit)
      (fun r line => ∀ calls, Audited context request calls r line)
      (ControlMethod.shell.handle context request) none := by
  obtain rfl := ControlMethod.sessionId_of_plan _ hplan
  unfold ControlMethod.handle
  rw [hread]
  dsimp only
  rw [if_neg (by simp [ControlMethod.forbids, hallows]), hplan]
  dsimp only
  rw [meets_bind]
  refine ((meets_closing_perform request.caller.userIdentity p).and_yields
    (ControlMethod.shell.yields_perform p)).mono ?_
  rintro r line ⟨_ | _ | _, hsendable⟩
  · rename_i result
    dsimp only
    rw [request.success_of_renderable (hsendable _ rfl result rfl)]
    exact fun calls => .success calls _ hread hallows hplan
  · rename_i x hx
    exact fun calls => .failed calls x hx hread hallows hplan
  · exact fun calls => .cancelled calls hread hallows hplan

/-- Every run of a request for a shell line leaves the line that is due in the audit log, if one is
due, and it comes last. -/
theorem shell_audited (context : HandlerContext) (request : Request) (env : Surroundings) :
    ∃ (calls : List Effect) (line : Option Effect),
      (∀ e ∈ calls, isAudit e = false) ∧
        ((ControlMethod.shell.handle context request).events env).map (fun x => x.1) =
          calls ++ line.toList ∧
        Audited context request calls ((ControlMethod.shell.handle context request).outcome env)
          line := by
  -- the checks in the order of the handler; behind them its `try` statement writes the line
  cases hread : ControlMethod.readTarget request.params with
  | error e =>
      have hhandle : ControlMethod.shell.handle context request = .returns (request.reject e) := by
        unfold ControlMethod.handle
        rw [hread]
        rfl
      rw [hhandle]
      exact ⟨[], none, by simp, rfl, .unread hread⟩
  | ok target =>
      obtain ⟨sessionId, payload⟩ := target
      cases hallows : request.caller.hasCapability capabilitySessionShell with
      | false =>
          have hhandle : ControlMethod.shell.handle context request =
              .await (.audit request.caller.userIdentity sessionId .authorizationForbidden)
                fun _ => .returns (request.reject (authorizationForbiddenError
                  ControlMethod.shell.text capabilitySessionShell
                  request.caller.userCredentialId)) := by
            unfold ControlMethod.handle
            rw [hread]
            dsimp only
            rw [if_pos (by simp [ControlMethod.forbids, hallows])]
            rfl
          rw [hhandle]
          exact ⟨[], some _, by simp, rfl, .forbidden hread hallows⟩
      | true =>
          cases hplan : ControlMethod.shell.plan context request.params sessionId payload with
          | error refusal =>
              have hhandle : ControlMethod.shell.handle context request = request.refuse refusal := by
                unfold ControlMethod.handle
                rw [hread]
                dsimp only
                rw [if_neg (by simp [ControlMethod.forbids, hallows]), hplan]
              rw [hhandle]
              cases refusal with
              | answered e => exact ⟨[], none, by simp, rfl, .rejected hread hallows hplan⟩
              | raised x =>
                  exact ⟨[], none, by simp, rfl, .unresolved hread hallows hplan
                    (ControlMethod.failsToResolve_of_plan _ hplan)⟩
          | ok p =>
              obtain ⟨haccepts, hended⟩ := (meets_closing_handle hread hallows hplan).play env []
              obtain ⟨calls, hcalls, hmap⟩ := Monitor.map_eq_of_closing haccepts
              exact ⟨calls, _, hcalls, hmap, hended calls⟩

end Handler

end OpencodeA2a.Extension
