import OpencodeA2a.Client.NetworkPolicy

/-!
# Outbound requests

What `A2AClientManager.borrow_client` and `A2AClient` send to a peer: the card is
fetched from the target URL, every call goes to the interface that the card names.
The SDK chooses the interface of a card; which one is a parameter.
-/

namespace OpencodeA2a.Client

open OpencodeA2a.Stream (Text Json Mapping)

/-! ## §1  Headers -/

inductive Credential where
  | bearer (token : Text)
  | basic (value : Text)

/-- The `Authorization` header of a request: the configured credential, or what the
metadata of the call asks for instead. -/
inductive Authorization where
  | configured (credential : Credential)
  | supplied (value : Text)

structure ClientSettings where
  bearerToken : Option Text
  basicAuth : Option Text
  supportedTransports : List Text
  useClientPreference : Bool

/-- `build_default_headers` -/
def ClientSettings.credential (settings : ClientSettings) : Option Credential :=
  match settings.bearerToken with
  | some (c :: token) => some (.bearer (c :: token))
  | _ =>
      match settings.basicAuth with
      | some (c :: value) => some (.basic (c :: value))
      | _ => none

/-- The parts of the metadata of a call. -/
structure RequestMetadata where
  request : Mapping := []
  authorization : Option Text := none
  traceparent : Option Text := none
  tracestate : Option Text := none
  extensions : List Text := []

/-- A header that `split_request_metadata` takes out of the metadata. -/
def headerValue (name : String) : Json → Except Text (Option Text)
  | .null => .ok none
  | .str value => .ok (some value)
  | _ => .error (name.toList ++ " metadata header must be a string.".toList)

/-- One entry of `split_request_metadata`; the error is the text of the `ValueError`. -/
def splitEntry (net : Network) (split : RequestMetadata) (entry : Text × Json) :
    Except Text RequestMetadata :=
  let key := net.lower entry.1
  if key = "authorization".toList then do
    let value ← headerValue "Authorization" entry.2
    return { split with authorization := value <|> split.authorization }
  else if key = "a2a-version".toList then
    .error "A2A-Version is fixed to 1.0 and must not be overridden.".toList
  else if key = "traceparent".toList then do
    let value ← headerValue "traceparent" entry.2
    return { split with traceparent := value <|> split.traceparent }
  else if key = "tracestate".toList then do
    let value ← headerValue "tracestate" entry.2
    return { split with tracestate := value <|> split.tracestate }
  else if key = "a2a-extensions".toList then do
    let value ← headerValue "A2A-Extensions" entry.2
    let names := (value.map fun v => (v.splitOn ',').filterMap Stream.nonempty?).getD []
    return { split with extensions := split.extensions ++ names }
  else .ok { split with request := split.request.set entry.1 entry.2 }

/-- `split_request_metadata` -/
def splitRequestMetadata (net : Network) (metadata : Option Mapping) :
    Except Text RequestMetadata :=
  (metadata.getD []).foldlM (splitEntry net) {}

/-- The `Authorization` header in `build_call_context`. -/
def ClientSettings.authorization (settings : ClientSettings) (split : RequestMetadata) :
    Option Authorization :=
  match split.authorization with
  | some value => some (.supplied value)
  | none => settings.credential.map .configured

/-! ## §2  Requests -/

inductive RequestKind where
  | agentCard
  | sendMessage
  | getTask
  | cancelTask
  | subscribe

structure OutboundRequest where
  kind : RequestKind
  url : Text
  authorization : Option Authorization
  /-- what names resolve to when it is connected -/
  resolver : Resolver

/-- Nothing is sent to a name that does not resolve. -/
def OutboundRequest.reaches (net : Network) (r : OutboundRequest) : Bool :=
  (r.resolver (NetworkPolicy.hostOf net r.url)).isSome

/-- A call of the client's interface. -/
structure ClientCall where
  kind : RequestKind
  metadata : Option Mapping

/-- A call, and what the client finds outside meanwhile. -/
structure Exchange (κ : Type) where
  call : ClientCall
  /-- the card that the peer serves, if it is asked for one -/
  served : Option κ
  /-- what names resolve to when the card is fetched -/
  atCard : Resolver
  /-- and when the call itself is sent -/
  atCall : Resolver

variable {κ : Type}

/-- The interface URL that `create_client` takes from a card, by the transports that
the client supports and whether their order counts. -/
abbrev SelectInterface (κ : Type) := List Text → Bool → κ → Option Text

structure A2AClient where
  agentUrl : Text
  settings : ClientSettings
  /-- where the client that `_build_client` has made sends its requests -/
  interface : Option Text := none

namespace A2AClient

variable (net : Network) (select : SelectInterface κ) (client : A2AClient)

/-- `A2AClient(agent_url, settings=settings)` -/
def new (agentUrl : Text) (settings : ClientSettings) : A2AClient where
  agentUrl := agentUrl.rdropWhile (· = '/')
  settings := settings

/-- `create_client` fetches the card of the target. -/
def cardRequest (resolver : Resolver) : OutboundRequest where
  kind := .agentCard
  url := client.agentUrl
  authorization := client.settings.credential.map .configured
  resolver := resolver

/-- The interface of the card that the peer serves, if it is reached and serves one that
fits. -/
def interfaceOf (x : Exchange κ) : Option Text :=
  if (client.cardRequest x.atCard).reaches net then
    x.served.bind (select client.settings.supportedTransports client.settings.useClientPreference)
  else none

/-- The request of a call, unless its metadata is refused. -/
def callRequest (url : Text) (x : Exchange κ) : Option OutboundRequest :=
  match splitRequestMetadata net x.call.metadata with
  | .error _ => none
  | .ok split =>
      some
        { kind := x.call.kind
          url := url
          authorization := client.settings.authorization split
          resolver := x.atCall }

/-- The requests that some calls come to. -/
def attempts : A2AClient → List (Exchange κ) → List OutboundRequest
  | _, [] => []
  | client, x :: exchanges =>
      match client.interface with
      | some url => (client.callRequest net url x).toList ++ attempts client exchanges
      | none =>
          match client.interfaceOf net select x with
          | none => client.cardRequest x.atCard :: attempts client exchanges
          | some url =>
              client.cardRequest x.atCard :: (client.callRequest net url x).toList ++
                attempts { client with interface := some url } exchanges

/-- Those that are sent. -/
def requests (exchanges : List (Exchange κ)) : List OutboundRequest :=
  (attempts net select client exchanges).filter (OutboundRequest.reaches net)

end A2AClient

/-- The part of `A2AClientManager` that decides where clients connect. -/
structure A2AClientManager where
  clientSettings : ClientSettings
  policy : NetworkPolicy

namespace A2AClientManager

variable (net : Network) (manager : A2AClientManager)

/-- The settings of the client that is lent, as a decision of the policy has it. -/
def settingsFor (decision : NetworkPolicyDecision) : ClientSettings :=
  if !decision.credentialsAllowed && manager.clientSettings.credential.isSome then
    { manager.clientSettings with bearerToken := none, basicAuth := none }
  else manager.clientSettings

/-- `borrow_client`: a new client, or the one it has made for the same URL before. -/
def borrowClient (getaddrinfo : Resolver) (agentUrl : Text) :
    Except NetworkPolicyError A2AClient :=
  let url := agentUrl.rdropWhile (· = '/')
  (manager.policy.validateAgentUrl net getaddrinfo url).map fun decision =>
    A2AClient.new url (manager.settingsFor decision)

/-- Everything that the client for a URL sends, from the loan that it is made for on. A later
loan asks the policy again, and one that is refused has no calls. -/
def requests (select : SelectInterface κ) (atLoan : Resolver) (agentUrl : Text)
    (exchanges : List (Exchange κ)) : List OutboundRequest :=
  match manager.borrowClient net atLoan agentUrl with
  | .error _ => []
  | .ok client => client.requests net select exchanges

end A2AClientManager

/-! ## §3  Where requests may go -/

/-- The policy lets the URL through, with the addresses that its host has for the connection,
and with the configured credential the host is on the allowlist. -/
def NetworkPolicy.Permits (policy : NetworkPolicy) (net : Network) (r : OutboundRequest) : Prop :=
  (∃ decision, policy.validateAgentUrl net r.resolver r.url = .ok decision) ∧
    ∀ credential, r.authorization = some (.configured credential) →
      policy.hostMatches net r.url = true

namespace A2AClient

variable (net : Network) (select : SelectInterface κ) (client : A2AClient)

/-- The calls that fetch the card: all up to the one that finds an interface. -/
def fetches : List (Exchange κ) → List (Exchange κ)
  | [] => []
  | x :: exchanges =>
      match client.interfaceOf net select x with
      | some _ => [x]
      | none => x :: fetches exchanges

/-- The interface that is found, and the calls that go there. -/
def connects : List (Exchange κ) → Option (Text × List (Exchange κ))
  | [] => none
  | x :: exchanges =>
      match client.interfaceOf net select x with
      | some url => some (url, x :: exchanges)
      | none => connects exchanges

end A2AClient

section Permits

variable {net : Network} {select : SelectInterface κ} {manager : A2AClientManager}
  {client : A2AClient} {policy : NetworkPolicy}

/-- Where a URL that is let through is on the allowlist, it may have the credential. -/
theorem permits_of_validated {r : OutboundRequest} {decision : NetworkPolicyDecision}
    (h : policy.validateAgentUrl net r.resolver r.url = .ok decision)
    (hlist : ∀ credential, r.authorization = some (.configured credential) →
      (policy.allowlist net).isEmpty = false) : policy.Permits net r := by
  obtain ⟨-, -, -, hmatch⟩ := policy.validateAgentUrl_eq_ok net r.resolver h
  exact ⟨⟨decision, h⟩, fun credential hc => hmatch (hlist credential hc)⟩

theorem authorization_configured {settings : ClientSettings} {split : RequestMetadata}
    {credential : Credential}
    (h : settings.authorization split = some (.configured credential)) :
    settings.credential = some credential := by
  unfold ClientSettings.authorization at h
  split at h
  · cases h
  · obtain ⟨c, hc, hcon⟩ := Option.map_eq_some_iff.mp h
    cases hcon
    exact hc

/-- A client that has a credential only where there is an allowlist. -/
def A2AClient.Guarded (client : A2AClient) (policy : NetworkPolicy) (net : Network) : Prop :=
  client.settings.credential.isSome = true → (policy.allowlist net).isEmpty = false

/-- A call that is sent is let through exactly if its URL is, as it resolves then. -/
theorem A2AClient.callRequest_permitted_iff (hguarded : client.Guarded policy net) (url : Text)
    (x : Exchange κ) :
    (∀ r, client.callRequest net url x = some r → r.reaches net = true → policy.Permits net r) ↔
      ((client.callRequest net url x).isSome = true →
        (x.atCall (NetworkPolicy.hostOf net url)).isSome = true →
          ∃ decision, policy.validateAgentUrl net x.atCall url = .ok decision) := by
  unfold callRequest
  cases splitRequestMetadata net x.call.metadata with
  | error e => simp
  | ok split =>
      simp only [Option.some.injEq, forall_eq', Option.isSome_some, true_implies,
        OutboundRequest.reaches]
      refine forall_congr' fun _ => ?_
      constructor
      · rintro ⟨haccepts, -⟩
        exact haccepts
      · rintro ⟨decision, hok⟩
        refine permits_of_validated hok ?_
        intro credential hc
        apply hguarded
        rw [authorization_configured hc]
        rfl

/-- Once the client has its interface, everything goes there. -/
theorem A2AClient.connected_permitted_iff (hguarded : client.Guarded policy net) {url : Text}
    (hurl : client.interface = some url) (exchanges : List (Exchange κ)) :
    (∀ r ∈ client.attempts net select exchanges, r.reaches net = true → policy.Permits net r) ↔
      ∀ x ∈ exchanges, (client.callRequest net url x).isSome = true →
        (x.atCall (NetworkPolicy.hostOf net url)).isSome = true →
          ∃ decision, policy.validateAgentUrl net x.atCall url = .ok decision := by
  induction exchanges with
  | nil => simp [attempts]
  | cons x exchanges ih =>
      have hfirst := callRequest_permitted_iff hguarded url x
      simp only [attempts, hurl, List.mem_append, Option.mem_toList, or_imp, forall_and]
      rw [hfirst, ih, List.forall_mem_cons]

/-- The card's target has been let through: what counts is what its host resolves to now. -/
theorem A2AClient.cardRequest_permitted_iff (hguarded : client.Guarded policy net)
    {atLoan : Resolver} {decision : NetworkPolicyDecision}
    (htarget : policy.validateAgentUrl net atLoan client.agentUrl = .ok decision)
    (now : Resolver) :
    policy.Permits net (client.cardRequest now) ↔
      policy.checkAddresses net now (NetworkPolicy.hostOf net client.agentUrl) = .ok () := by
  rw [← policy.validateAgentUrl_again_iff net atLoan htarget]
  constructor
  · exact And.left
  · rintro ⟨decision', hok⟩
    refine permits_of_validated hok ?_
    intro credential hc
    apply hguarded
    obtain ⟨c, hc, -⟩ := Option.map_eq_some_iff.mp hc
    rw [hc]
    rfl

theorem A2AClient.attempts_permitted_iff (hguarded : client.Guarded policy net)
    {atLoan : Resolver} {decision : NetworkPolicyDecision}
    (htarget : policy.validateAgentUrl net atLoan client.agentUrl = .ok decision)
    (hnew : client.interface = none) (exchanges : List (Exchange κ)) :
    (∀ r ∈ client.attempts net select exchanges, r.reaches net = true → policy.Permits net r) ↔
      (∀ x ∈ client.fetches net select exchanges,
        (x.atCard (NetworkPolicy.hostOf net client.agentUrl)).isSome = true →
          policy.checkAddresses net x.atCard (NetworkPolicy.hostOf net client.agentUrl) =
            .ok ()) ∧
      ∀ url sent, client.connects net select exchanges = some (url, sent) →
        ∀ x ∈ sent, (client.callRequest net url x).isSome = true →
          (x.atCall (NetworkPolicy.hostOf net url)).isSome = true →
            ∃ decision, policy.validateAgentUrl net x.atCall url = .ok decision := by
  induction exchanges with
  | nil => simp [attempts, fetches, connects]
  | cons x exchanges ih =>
      have hcard : ((client.cardRequest x.atCard).reaches net = true →
            policy.Permits net (client.cardRequest x.atCard)) ↔
          ((x.atCard (NetworkPolicy.hostOf net client.agentUrl)).isSome = true →
            policy.checkAddresses net x.atCard (NetworkPolicy.hostOf net client.agentUrl) =
              .ok ()) :=
        imp_congr Iff.rfl (cardRequest_permitted_iff hguarded htarget x.atCard)
      cases hserved : client.interfaceOf net select x with
      | none =>
          simp only [attempts, fetches, connects, hnew, hserved, List.forall_mem_cons]
          rw [hcard, ih, and_assoc]
      | some url =>
          have hguarded' : ({ client with interface := some url } : A2AClient).Guarded policy net :=
            hguarded
          have hfirst := callRequest_permitted_iff hguarded url x
          have hrest : (∀ r ∈ A2AClient.attempts net select { client with interface := some url }
              exchanges, r.reaches net = true → policy.Permits net r) ↔ _ :=
            connected_permitted_iff hguarded' rfl exchanges
          simp only [attempts, fetches, connects, hnew, hserved, List.cons_append,
            List.forall_mem_cons, List.forall_mem_append, Option.mem_toList, Option.some.injEq,
            Prod.mk.injEq, and_imp, List.not_mem_nil, false_implies, implies_true, and_true]
          rw [hcard, hfirst, hrest]
          refine and_congr_right fun _ => ?_
          constructor
          · rintro ⟨hcall, hcalls⟩ url' sent rfl rfl
            exact List.forall_mem_cons.mpr ⟨hcall, hcalls⟩
          · intro h
            exact List.forall_mem_cons.mp (h url _ rfl rfl)

theorem A2AClientManager.guarded_of_borrow {atLoan : Resolver} {agentUrl : Text}
    (h : manager.borrowClient net atLoan agentUrl = .ok client) :
    client.Guarded manager.policy net ∧ client.interface = none ∧
      ∃ decision, manager.policy.validateAgentUrl net atLoan client.agentUrl = .ok decision := by
  unfold borrowClient at h
  cases hvalid : manager.policy.validateAgentUrl net atLoan (agentUrl.rdropWhile (· = '/')) with
  | error e =>
      simp only [hvalid] at h
      cases h
  | ok decision =>
      simp only [hvalid] at h
      cases h
      refine ⟨?_, rfl, decision, ?_⟩
      · intro hcredential
        obtain ⟨-, -, hallowed, -⟩ := manager.policy.validateAgentUrl_eq_ok net atLoan hvalid
        change (manager.settingsFor decision).credential.isSome = true at hcredential
        unfold settingsFor at hcredential
        split at hcredential
        · cases hcredential
        · rename_i hkept
          rw [hcredential, Bool.and_true, Bool.not_eq_true', Bool.not_eq_false, hallowed,
            Bool.not_eq_true'] at hkept
          exact hkept
      · change manager.policy.validateAgentUrl net atLoan
          ((agentUrl.rdropWhile (· = '/')).rdropWhile (· = '/')) = _
        rw [List.rdropWhile_idempotent]
        exact hvalid

/-- Every request that the client for a URL sends is permitted exactly if the target is
refused, or the host of the target still resolves to admitted addresses when the card is
fetched, and the interface is let through whenever a call goes there. -/
theorem A2AClientManager.outbound_permitted_iff (net : Network) (select : SelectInterface κ)
    (manager : A2AClientManager) (atLoan : Resolver) (agentUrl : Text)
    (exchanges : List (Exchange κ)) :
    (∀ r ∈ manager.requests net select atLoan agentUrl exchanges,
        manager.policy.Permits net r) ↔
      ∀ client, manager.borrowClient net atLoan agentUrl = .ok client →
        (∀ x ∈ client.fetches net select exchanges,
          (x.atCard (NetworkPolicy.hostOf net client.agentUrl)).isSome = true →
            manager.policy.checkAddresses net x.atCard
              (NetworkPolicy.hostOf net client.agentUrl) = .ok ()) ∧
        ∀ url sent, client.connects net select exchanges = some (url, sent) →
          ∀ x ∈ sent, (client.callRequest net url x).isSome = true →
            (x.atCall (NetworkPolicy.hostOf net url)).isSome = true →
              ∃ decision, manager.policy.validateAgentUrl net x.atCall url = .ok decision := by
  unfold A2AClientManager.requests
  cases hborrow : manager.borrowClient net atLoan agentUrl with
  | error e => simp
  | ok client =>
      obtain ⟨hguarded, hnew, decision, htarget⟩ := guarded_of_borrow hborrow
      simp only [Except.ok.injEq, forall_eq']
      rw [← A2AClient.attempts_permitted_iff hguarded htarget hnew]
      unfold A2AClient.requests
      simp only [List.mem_filter, and_imp]

end Permits

/-! ## §4  A card that names another host -/

def plainNetwork : Network where
  lower := fun t => t.map Char.toLower
  validNetloc := fun _ => true
  ipAddress := fun ip => ⟨false, false, ip = "169.254.169.254".toList, false, false, false⟩

/-- Every name is public. -/
def publicNames : Resolver := fun _ => some ["203.0.113.1".toList]

/-- Every name leads to the metadata service of the cloud. -/
def reboundNames : Resolver := fun _ => some ["169.254.169.254".toList]

def allowGood : A2AClientManager where
  clientSettings :=
    { bearerToken := some "secret".toList
      basicAuth := none
      supportedTransports := ["JSONRPC".toList]
      useClientPreference := false }
  policy := ⟨["good.example".toList], false⟩

/-- The card of an allowed target may name any other host: the credential goes there. And a
name that was public when the policy looked is followed to wherever it leads afterwards. -/
theorem credential_leaves_allowlist :
    (∃ r ∈ allowGood.requests plainNetwork (fun _ _ card => some card) publicNames
        "https://good.example".toList
        [⟨⟨.sendMessage, none⟩, some "https://evil.example/a2a".toList, publicNames, publicNames⟩],
      r.url = "https://evil.example/a2a".toList ∧
        r.authorization = some (.configured (.bearer "secret".toList)) ∧
        allowGood.policy.hostMatches plainNetwork r.url = false ∧
        ¬ allowGood.policy.Permits plainNetwork r) ∧
    ∃ r ∈ allowGood.requests plainNetwork (fun _ _ card => some card) publicNames
        "https://good.example".toList
        [⟨⟨.sendMessage, none⟩, some "https://good.example/a2a".toList, reboundNames, publicNames⟩],
      r.resolver "good.example".toList = some ["169.254.169.254".toList] ∧
        ¬ allowGood.policy.Permits plainNetwork r := by
  refine ⟨⟨_, List.mem_cons_of_mem _ (List.mem_cons_self ..), rfl, rfl, rfl, ?_⟩,
    ⟨_, List.mem_cons_self .., rfl, ?_⟩⟩
  · rintro ⟨-, hmatches⟩
    have hmatch := hmatches _ rfl
    revert hmatch
    decide
  · rintro ⟨⟨decision, hvalid⟩, -⟩
    cases hvalid

end OpencodeA2a.Client
