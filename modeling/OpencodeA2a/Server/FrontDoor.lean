import OpencodeA2a.Server.Middlewares

/-!
# The front door

What the stack of middlewares does as a whole: which requests reach the application and with
what, and what is logged of them. Between the authentication and the application the
middlewares hand one request on to each other (`Visit.Carries`); some of them have read its
body and some have not, but it is the same body for all of them.
-/

namespace OpencodeA2a.Server.Middleware

open OpencodeA2a.Stream (Text Json Mapping)
open OpencodeA2a.Effects

/-! ## §1  The body -/

theorem readStream_eq_ok {limit total : ℤ} {chunks : List Bytes} {body : Bytes}
    (htotal : total ≤ limit) : readStream limit total chunks = .ok body ↔
      total + chunks.flatten.length ≤ limit ∧ body = chunks.flatten := by
  fun_induction readStream limit total chunks generalizing body with
  | case1 total => simp [htotal, eq_comm]
  | case2 total chunks ih => exact ih htotal
  | case3 total b chunk chunks hlimit =>
      refine iff_of_false (by rintro ⟨⟩) fun h => ?_
      have hle := h.1
      rw [List.flatten_cons, List.length_append] at hle
      push_cast at hle
      omega
  | case4 total b chunk chunks hlimit ih =>
      have hflatten : ((b :: chunk) :: chunks).flatten = b :: chunk ++ chunks.flatten := rfl
      have hlength : total + ((b :: chunk) :: chunks).flatten.length ≤ limit ↔
          total + (b :: chunk).length + chunks.flatten.length ≤ limit := by
        rw [hflatten, List.length_append]
        push_cast
        omega
      rw [hlength, hflatten]
      refine map_eq_ok.trans ?_
      constructor
      · rintro ⟨rest, hrest, rfl⟩
        obtain ⟨hle, rfl⟩ := (ih (not_lt.mp hlimit)).mp hrest
        exact ⟨hle, rfl⟩
      · rintro ⟨hle, rfl⟩
        exact ⟨chunks.flatten, (ih (not_lt.mp hlimit)).mpr ⟨hle, rfl⟩, rfl⟩

section Carries

variable (s : Settings) (head : RequestHead) (body : Bytes) (principal : Option AuthenticatedPrincipal)

/-- The body is within the limit, if there is one, and so is what the header says of it. -/
def RequestHead.Fits : Prop :=
  0 < s.maxRequestBodyBytes →
    (∀ n, head.contentLength s = some n → n ≤ s.maxRequestBodyBytes) ∧
      (body.length : ℤ) ≤ s.maxRequestBodyBytes

/-- A visit on its way from the authentication to the negotiation of the version. -/
structure Visit.Carries (v : Visit) : Prop where
  head_eq : v.head = head
  principal_eq : v.principal = principal
  version_eq : v.version = none
  source_eq : v.source.flatten = body
  /-- only a body that fits is kept -/
  cached : ∀ b, v.cached = some b → b = body ∧ head.Fits s body

variable {s head body principal}

theorem carries_arrival (s : Settings) (head : RequestHead) (chunks : List Bytes)
    (principal : Option AuthenticatedPrincipal) : Visit.Carries s head chunks.flatten principal
      { arrival head chunks with principal := principal } :=
  ⟨rfl, rfl, rfl, rfl, by rintro b ⟨⟩⟩

theorem getRequestBody_of_fits {v : Visit} (hv : v.Carries s head body principal)
    (hfits : head.Fits s body) : ∃ v', getRequestBody s v = .ok (body, v') ∧
      v'.Carries s head body principal := by
  obtain ⟨rfl, hprincipal, hversion, hsource, hcached⟩ := hv
  have hread : Visit.Carries s v.head body principal { v with cached := some body, source := [body] } :=
    ⟨rfl, hprincipal, hversion, by simp, by rintro b ⟨⟩; exact ⟨rfl, hfits⟩⟩
  unfold getRequestBody
  split
  · rename_i b hb
    obtain ⟨rfl, -⟩ := hcached b hb
    exact ⟨v, rfl, rfl, hprincipal, hversion, hsource, hcached⟩
  · dsimp only
    split
    · rename_i n hn
      obtain ⟨hn, hover⟩ := Option.filter_eq_some_iff.mp hn
      rw [Bool.and_eq_true, decide_eq_true_iff, decide_eq_true_iff] at hover
      exact absurd ((hfits hover.1).1 n hn) (not_le.mpr hover.2)
    · split
      · rw [hsource]
        exact ⟨_, rfl, hread⟩
      · rename_i hlimit
        have hok := (readStream_eq_ok (le_of_lt (not_le.mp hlimit))).mpr
          ⟨by rw [hsource, zero_add]; exact (hfits (not_le.mp hlimit)).2, hsource.symm⟩
        rw [hok]
        exact ⟨_, rfl, hread⟩

theorem getRequestBody_of_not_fits {v : Visit} (hv : v.Carries s head body principal)
    (hfits : ¬ head.Fits s body) : ∃ e, getRequestBody s v = .error e := by
  obtain ⟨rfl, -, -, hsource, hcached⟩ := hv
  obtain ⟨hlimit, hover⟩ := Classical.not_imp.mp hfits
  unfold getRequestBody
  split
  · rename_i b hb
    exact absurd (hcached b hb).2 hfits
  · dsimp only
    split
    · exact ⟨_, rfl⟩
    · rename_i hlength
      rw [if_neg (not_le.mpr hlimit)]
      cases hread : readStream s.maxRequestBodyBytes 0 v.source with
      | error n => exact ⟨_, rfl⟩
      | ok b =>
          obtain ⟨hle, -⟩ := (readStream_eq_ok (le_of_lt hlimit)).mp hread
          refine absurd ⟨fun n hn => ?_, by rwa [hsource, zero_add] at hle⟩ hover
          by_contra hlt
          refine Option.filter_eq_none_iff.mp hlength n hn ?_
          rw [Bool.and_eq_true, decide_eq_true_iff, decide_eq_true_iff]
          exact ⟨hlimit, not_le.mp hlt⟩

end Carries

/-! ## §2  What leaves a mark -/

/-- The limiter lets a key pass; the application is called. -/
inductive Mark where
  | admitted (key : Text)
  | served (v : Visit)

def markOf : Event GateEffect GateEffect.Answer Failure → Option Mark
  | ⟨.checkAndRecord key, .ok true⟩ => some (.admitted key)
  | ⟨.serve v, _⟩ => some (.served v)
  | _ => none

/-- The marks of what has happened, one after the other. -/
def marks (events : List (Event GateEffect GateEffect.Answer Failure)) : List Mark :=
  events.filterMap markOf

abbrev marking : Monitor GateEffect GateEffect.Answer Failure (List Mark) := Monitor.collect markOf

/-- The program neither asks the limiter nor calls the application. -/
def Quiet {α : Type} (p : Gate α) : Prop := Calls (fun e => ∀ r, markOf ⟨e, r⟩ = none) p

section Quiet

variable {s : Settings} {α : Type} {Q : Except Failure α → List Mark → Prop} {ms : List Mark}

theorem Quiet.meets {p : Gate α} (hp : Quiet p) (hQ : ∀ r, Q r ms) : Meets marking Q p ms :=
  meets_collect_of_calls hp hQ

theorem quiet_log (line : LogLine) : Quiet (Prog.tell (.log line)) := calls_tell.mpr fun _ => rfl

theorem quiet_reject (rejection : Rejection) (headers : List (Text × Text)) :
    Quiet (reject s rejection headers) := calls_pure

theorem quiet_withBody {v : Visit} {k : Bytes → Visit → Gate Served}
    (hk : ∀ body v, Quiet (k body v)) : Quiet (withBody s v k) := by
  unfold withBody
  split
  · exact (quiet_log _).bind fun _ => quiet_reject _ _
  · exact hk _ _

/-- A line in the log leaves no mark. -/
theorem meets_log_bind {line : LogLine} {p : Gate α} (hp : Meets marking Q p ms) :
    Meets marking Q (do Prog.tell (.log line); p) ms := by
  refine meets_bind.mpr (meets_tell.mpr ⟨trivial, fun r => ?_⟩)
  have hnext : marking.next ms (.log line) r = ms := List.append_nil ms
  rw [hnext]
  exact hp

end Quiet

/-! ## §3  Behind the limiter -/

section Behind

variable (s : Settings) (head : RequestHead) (body : Bytes) (principal : Option AuthenticatedPrincipal)

/-- The trace that the request is part of. -/
def RequestHead.traceContext : TraceContext :=
  resolveTraceContext head.seed (head.header "traceparent") (head.header "tracestate")

/-- The application is called with the visit, and what it answers is sent with the headers of the
trace and of the version. -/
structure Reached (v : Visit) (r : Except Failure Served) : Prop where
  head_eq : v.head = head
  principal_eq : v.principal = principal
  source_eq : v.source.flatten = body
  trace_eq : v.trace = some head.traceContext
  version_eq : v.version =
    if head.requiresProtocolNegotiation then some a2aProtocolVersion else none
  traceparent : ∀ served, r = .ok served →
    served.response.header "traceparent" = some head.traceContext.traceparent
  versionHeader : ∀ served, r = .ok served → head.requiresProtocolNegotiation = true →
    served.response.header "a2a-version" = some a2aProtocolVersion

/-- The application is called once if `ok` holds, and else it is not. -/
def Entered (ok : Prop) (ms : List Mark) (r : Except Failure Served) (ms' : List Mark) : Prop :=
  (ok ∧ ∃ v, Reached head body principal v r ∧ ms' = ms ++ [.served v]) ∨ (¬ ok ∧ ms' = ms)

/-- So it is for each visit that carries the request. -/
def Opens (ok : Prop) (next : Next) : Prop :=
  ∀ v : Visit, v.Carries s head body principal → ∀ ms,
    Meets marking (Entered head body principal ok ms) (next v) ms

variable {s head body principal} {ok : Prop} {next : Next} {ms : List Mark}

/-- What is turned away is not served. -/
theorem Quiet.entered {p : Gate Served} (hp : Quiet p) (hok : ¬ ok) :
    Meets marking (Entered head body principal ok ms) p ms :=
  hp.meets fun _ => .inr ⟨hok, rfl⟩

theorem Entered.congr {ok' : Prop} {p : Gate Served} (h : ok ↔ ok')
    (hp : Meets marking (Entered head body principal ok ms) p ms) :
    Meets marking (Entered head body principal ok' ms) p ms := by
  rwa [← propext h]

/-- What is done with the answer keeps its headers, and it leaves no mark. -/
theorem Entered.bind {p : Gate Served} {f : Served → Gate Served}
    (hp : Meets marking (Entered head body principal ok ms) p ms)
    (hf : ∀ served ms', Meets marking (fun r t => t = ms' ∧ ∀ v,
      Reached head body principal v (.ok served) → Reached head body principal v r)
      (f served) ms') :
    Meets marking (Entered head body principal ok ms) (p >>= f) ms := by
  refine meets_bind.mpr (Meets.mono hp ?_)
  rintro (x | served) t ht
  · exact ht
  · refine Meets.mono (hf served t) ?_
    rintro r t' ⟨rfl, hkeeps⟩
    rcases ht with ⟨hok, v, hv, rfl⟩ | ⟨hok, rfl⟩
    · exact .inl ⟨hok, v, hkeeps v hv, rfl⟩
    · exact .inr ⟨hok, rfl⟩

/-- The body is read where it fits. -/
theorem meets_withBody {v : Visit} {k : Bytes → Visit → Gate Served}
    (hv : v.Carries s head body principal)
    (hk : ∀ v', v'.Carries s head body principal →
      Meets marking (Entered head body principal ok ms) (k body v') ms) :
    Meets marking (Entered head body principal (head.Fits s body ∧ ok) ms) (withBody s v k) ms := by
  unfold withBody
  by_cases hfits : head.Fits s body
  · obtain ⟨v', hread, hv'⟩ := getRequestBody_of_fits hv hfits
    rw [hread]
    exact Entered.congr (and_iff_right hfits).symm (hk v' hv')
  · obtain ⟨e, hread⟩ := getRequestBody_of_not_fits hv hfits
    rw [hread]
    refine Quiet.entered ?_ fun h => hfits h.1
    exact (quiet_log _).bind fun _ => quiet_reject _ _

/-! The middlewares, from within -/

/-- The application -/
def application : Next := fun v => Prog.call (A := GateEffect.Answer) (.serve v)

theorem header_setHeader (served : Served) (name name' : String) (value : Text) :
    (served.setHeader name value).response.header name' =
      if name'.toList = name.toList then some value else served.response.header name' :=
  Entries.lookup_set _ _ _ _

theorem meets_bindTraceContext (v : Visit) : Meets marking (fun r ms' =>
      ms' = ms ++ [.served { v with trace := some v.head.traceContext }] ∧
        ∀ served, r = .ok served →
          served.response.header "traceparent" = some v.head.traceContext.traceparent)
      (bindTraceContext application v) ms := by
  refine meets_bind.mpr (meets_call.mpr ⟨trivial, ?_⟩)
  rintro (x | served)
  · exact ⟨rfl, by rintro _ ⟨⟩⟩
  · refine ⟨rfl, ?_⟩
    rintro _ ⟨⟩
    exact (header_setHeader _ _ _ _).trans (if_pos rfl)

/-- A request of the protocol is of a version that is supported. -/
def RequestHead.VersionAccepted (s : Settings) (head : RequestHead) : Prop :=
  head.requiresProtocolNegotiation = true → ∃ version,
    negotiateProtocolVersion s.numerals (head.header "a2a-version") (head.query "A2A-Version") =
      .ok version

theorem header_setActivatedExtensionsHeader {served : Served} {name : String}
    (hname : name.toList ≠ "a2a-extensions".toList) :
    (setActivatedExtensionsHeader s head served).response.header name =
      served.response.header name := by
  unfold setActivatedExtensionsHeader
  dsimp only
  split
  · exact (header_setHeader _ _ _ _).trans (if_neg hname)
  · rfl

theorem opens_negotiateA2aProtocolVersion : Opens s head body principal (head.VersionAccepted s)
    (negotiateA2aProtocolVersion s (bindTraceContext application)) := by
  rintro v ⟨rfl, rfl, hversion, rfl, -⟩ ms
  unfold negotiateA2aProtocolVersion
  cases hrequires : v.head.requiresProtocolNegotiation with
  | false =>
      have haccepted : v.head.VersionAccepted s := fun h => by rw [hrequires] at h; cases h
      refine Meets.mono (meets_bindTraceContext v) ?_
      rintro r t ⟨rfl, htrace⟩
      refine .inl ⟨haccepted, { v with trace := some v.head.traceContext },
        ⟨rfl, rfl, rfl, rfl, ?_, htrace, ?_⟩, rfl⟩
      · rw [hrequires]
        exact hversion
      · intro _ _ h
        rw [hrequires] at h
        cases h
  | true =>
      rw [Bool.not_true, if_neg Bool.false_ne_true]
      cases hnegotiate : negotiateProtocolVersion s.numerals (v.head.header "a2a-version")
          (v.head.query "A2A-Version") with
      | error requested =>
          refine Quiet.entered ?_ fun h => ?_
          · dsimp only
            split
            · exact quiet_withBody fun _ _ => quiet_reject _ _
            · exact quiet_reject _ _
          · obtain ⟨version, hok⟩ := h hrequires
            rw [hnegotiate] at hok
            cases hok
      | ok version =>
          obtain rfl := eq_of_negotiateProtocolVersion hnegotiate
          let reached : Visit :=
            { v with version := some a2aProtocolVersion, trace := some v.head.traceContext }
          refine meets_bind.mpr (Meets.mono (meets_bindTraceContext _) ?_)
          rintro r t ⟨rfl, htrace⟩
          have hentered : ∀ r', (∀ served, r' = .ok served → ∃ served', r = .ok served' ∧
              served = setActivatedExtensionsHeader s v.head
                (served'.setHeader "a2a-version" a2aProtocolVersion)) →
              Entered v.head v.source.flatten v.principal (v.head.VersionAccepted s) ms r'
                (ms ++ [.served reached]) := by
            intro r' hr'
            refine .inl ⟨fun _ => ⟨_, hnegotiate⟩, reached, ⟨rfl, rfl, rfl, rfl, ?_, ?_, ?_⟩, rfl⟩
            · rw [hrequires]
              rfl
            · rintro served hserved
              obtain ⟨served', hr, rfl⟩ := hr' served hserved
              rw [header_setActivatedExtensionsHeader (by decide), header_setHeader,
                if_neg (by decide)]
              exact htrace served' hr
            · rintro served hserved -
              obtain ⟨served', -, rfl⟩ := hr' served hserved
              rw [header_setActivatedExtensionsHeader (by decide), header_setHeader, if_pos rfl]
          cases r with
          | error x => exact hentered _ (by rintro _ ⟨⟩)
          | ok served' => exact hentered _ (by rintro _ ⟨⟩; exact ⟨served', rfl, rfl⟩)

/-- The client has the agent card already. -/
def RequestHead.HasCard (s : Settings) (head : RequestHead) : Prop :=
  head.method = "GET".toList ∧ head.path = s.agentCardPath ∧
    etagMatches (head.header "if-none-match") s.publicCardEtag = true

/-- What changes the headers of a response, but not these. -/
def KeepsHeaders (f : Served → Served) : Prop :=
  ∀ served name, name ∈ ["traceparent", "a2a-version"] →
    (f served).response.header name = served.response.header name

theorem Reached.map {f : Served → Served} (hf : KeepsHeaders f) {v : Visit} {served : Served}
    (h : Reached head body principal v (.ok served)) :
    Reached head body principal v (.ok (f served)) where
  head_eq := h.head_eq
  principal_eq := h.principal_eq
  source_eq := h.source_eq
  trace_eq := h.trace_eq
  version_eq := h.version_eq
  traceparent := by
    rintro _ ⟨⟩
    rw [hf _ _ (by simp)]
    exact h.traceparent served rfl
  versionHeader := by
    rintro _ ⟨⟩ hrequires
    rw [hf _ _ (by simp)]
    exact h.versionHeader served rfl hrequires

theorem keepsHeaders_setActivatedExtensionsHeader :
    KeepsHeaders (setActivatedExtensionsHeader s head) := by
  intro served name hname
  refine header_setActivatedExtensionsHeader ?_
  rcases List.mem_pair.mp hname with rfl | rfl <;> decide

theorem keepsHeaders_setCardHeaders (etag : Text) (cacheControl : String) (vary : List String) :
    KeepsHeaders fun served => served.setCardHeaders etag cacheControl vary := by
  intro served name hname
  unfold Served.setCardHeaders
  rcases List.mem_pair.mp hname with rfl | rfl <;>
    rw [header_setHeader, if_neg (by decide), header_setHeader, if_neg (by decide),
      header_setHeader, if_neg (by decide)]

theorem keepsHeaders_notModified : KeepsHeaders fun served =>
    { served with response := { status := 304, headers := served.response.headers } } :=
  fun _ _ _ => rfl

theorem KeepsHeaders.comp {f g : Served → Served} (hf : KeepsHeaders f) (hg : KeepsHeaders g) :
    KeepsHeaders fun served => f (g served) :=
  fun served name hname => (hf _ name hname).trans (hg served name hname)

theorem Reached.meets_pure {f : Served → Served} (hf : KeepsHeaders f) (served : Served) :
    Meets marking (fun r t => t = ms ∧ ∀ v, Reached head body principal v (.ok served) →
      Reached head body principal v r) (pure (f served)) ms :=
  ⟨rfl, fun _ h => h.map hf⟩

theorem Opens.cacheAgentCardResponses (h : Opens s head body principal ok next) :
    Opens s head body principal (¬ head.HasCard s ∧ ok) (cacheAgentCardResponses s next) := by
  intro v hv ms
  have hnext := h v hv ms
  obtain rfl := hv.head_eq
  have hsame : KeepsHeaders fun served => served := fun _ _ _ => rfl
  unfold Middleware.cacheAgentCardResponses
  -- only a card that the client has already ends the request here; the other ways change headers
  split
  · rename_i hmethod
    exact Entered.congr (and_iff_right fun hcard => hmethod hcard.1).symm hnext
  · rename_i hmethod
    split
    · rename_i hpath
      split
      · rename_i hetag
        exact Quiet.entered calls_pure fun h => h.1 ⟨not_not.mp hmethod, hpath, hetag⟩
      · rename_i hetag
        refine Entered.congr (and_iff_right fun hcard => hetag hcard.2.2).symm ?_
        refine Entered.bind hnext fun served ms' => ?_
        split
        · exact Reached.meets_pure hsame served
        · exact Reached.meets_pure
            (keepsHeaders_setActivatedExtensionsHeader.comp (keepsHeaders_setCardHeaders _ _ _)) served
    · rename_i hpath
      have hcard : ¬ v.head.HasCard s := fun hcard => hpath hcard.2.1
      refine Entered.congr (and_iff_right hcard).symm ?_
      split
      · refine Entered.bind hnext fun served ms' => ?_
        split
        · exact Reached.meets_pure hsame served
        · dsimp only
          split
          · exact Reached.meets_pure
              (keepsHeaders_setActivatedExtensionsHeader.comp (keepsHeaders_notModified.comp
                (keepsHeaders_setCardHeaders _ _ _))) served
          · exact Reached.meets_pure
              (keepsHeaders_setActivatedExtensionsHeader.comp (keepsHeaders_setCardHeaders _ _ _)) served
      · exact hnext

theorem Opens.enforceRequestBodyLimit (h : Opens s head body principal ok next) :
    Opens s head body principal ((head.isWrite = true → head.Fits s body) ∧ ok)
      (enforceRequestBodyLimit s next) := by
  intro v hv ms
  obtain rfl := hv.head_eq
  unfold Middleware.enforceRequestBodyLimit
  split
  · rename_i hfree
    refine Entered.congr (and_iff_right ?_).symm (h v hv ms)
    intro hwrite hlimit
    rcases hfree with hfree | hfree
    · exact absurd hlimit (not_lt.mpr hfree)
    · rw [hfree] at hwrite
      cases hwrite
  · rename_i hread
    rw [not_or, Bool.not_eq_false] at hread
    have hfits : v.head.Fits s body ∧ ok ↔ (v.head.isWrite = true → v.head.Fits s body) ∧ ok :=
      and_congr_left fun _ => ⟨fun hfits _ => hfits, fun hfits => hfits hread.2⟩
    exact Entered.congr hfits (meets_withBody hv fun v' hv' => h v' hv' ms)

/-- A message is not written as in older versions of the protocol, and what is sent to the
endpoints of REST is not meant for JSON-RPC. -/
structure RequestHead.WellShaped (s : Settings) (head : RequestHead) (body : Bytes) : Prop where
  rest : head.isRestMessage = true → looksLikeJsonrpcEnvelope (s.parseJsonBody body) = false ∧
    messageShapeViolation (restMessagePayload (s.parseJsonBody body)) = none
  rpc : head.isRpc = true → ∃ message, jsonrpcMessagePayload (s.parseJsonBody body) = .ok message ∧
    messageShapeViolation message = none

theorem isRpc_of_isRestMessage (h : head.isRestMessage = true) : head.isRpc = false := by
  unfold RequestHead.isRestMessage at h
  rw [Bool.and_eq_true, List.contains_iff_mem, List.mem_pair] at h
  unfold RequestHead.isRpc
  rw [decide_eq_false, Bool.false_and]
  rcases h.2 with hpath | hpath <;> rw [hpath] <;> decide

/-- What is guarded is written. -/
theorem isWrite_of_guarded (h : head.isRestMessage = true ∨ head.isRpc = true) :
    head.isWrite = true := by
  have hpost : head.method = "POST".toList := by
    rcases h with h | h
    · exact of_decide_eq_true (Bool.and_eq_true_iff.mp h).1
    · exact of_decide_eq_true (Bool.and_eq_true_iff.mp h).2
  unfold RequestHead.isWrite
  rw [hpost]
  rfl

theorem Opens.guardMessagePayloadShape (h : Opens s head body principal
      ((head.isWrite = true → head.Fits s body) ∧ ok) next) :
    Opens s head body principal
      (head.WellShaped s body ∧ (head.isWrite = true → head.Fits s body) ∧ ok)
      (guardMessagePayloadShape s next) := by
  intro v hv ms
  obtain rfl := hv.head_eq
  -- a request that is guarded is one of those whose size is checked within
  have hguarded : ∀ shaped : Prop, (v.head.isRestMessage = true ∨ v.head.isRpc = true) →
      (shaped ↔ v.head.WellShaped s body) →
      (v.head.Fits s body ∧ shaped ∧ (v.head.isWrite = true → v.head.Fits s body) ∧ ok ↔
        v.head.WellShaped s body ∧ (v.head.isWrite = true → v.head.Fits s body) ∧ ok) := by
    intro shaped hguard hshaped
    rw [hshaped, and_iff_right_iff_imp]
    exact fun hall => hall.2.1 (isWrite_of_guarded hguard)
  unfold Middleware.guardMessagePayloadShape
  split
  · rename_i hrest
    have hrpc := isRpc_of_isRestMessage hrest
    refine Entered.congr (hguarded _ (.inl hrest)
      ⟨fun h => ⟨fun _ => h, fun hr => by rw [hrpc] at hr; cases hr⟩, fun h => h.rest hrest⟩)
      (meets_withBody hv fun v' hv' => ?_)
    dsimp only
    split
    · rename_i henvelope
      exact (quiet_reject _ _).entered fun hok => by rw [henvelope] at hok; cases hok.1.1
    · rename_i henvelope
      rw [Bool.not_eq_true] at henvelope
      split
      · rename_i violation
        exact (quiet_reject _ _).entered fun hok => by rw [violation] at hok; cases hok.1.2
      · rename_i hshape
        exact Entered.congr (and_iff_right ⟨henvelope, hshape⟩).symm (h v' hv' ms)
  · rename_i hrest
    split
    · rename_i hrpc
      refine Entered.congr (hguarded _ (.inr hrpc)
        ⟨fun h => ⟨fun hr => absurd hr hrest, fun _ => h⟩, fun h => h.rpc hrpc⟩)
        (meets_withBody hv fun v' hv' => ?_)
      dsimp only
      split
      · rename_i hmethod
        exact Quiet.entered calls_raises fun hok => by
          obtain ⟨⟨message, hmessage, -⟩, -⟩ := hok
          rw [hmethod] at hmessage
          cases hmessage
      · rename_i message hmessage
        split
        · rename_i violation
          exact (quiet_reject _ _).entered fun hok => by
            obtain ⟨⟨message', hmessage', hshape⟩, -⟩ := hok
            rw [hmessage] at hmessage'
            cases hmessage'
            rw [violation] at hshape
            cases hshape
        · rename_i hshape
          exact Entered.congr (and_iff_right ⟨message, hmessage, hshape⟩).symm (h v' hv' ms)
    · rename_i hrpc
      exact Entered.congr (and_iff_right ⟨fun hr => absurd hr hrest, fun hr => absurd hr hrpc⟩).symm
        (h v hv ms)

theorem Opens.logPayloads (h : Opens s head body principal ok next) :
    Opens s head body principal
      ((s.logPayloads = true → head.omitReason s = none → head.Fits s body) ∧ ok)
      (logPayloads s next) := by
  have hlogged : ∀ (sensitive reason : Option Text) {v : Visit} {ms : List Mark},
      v.Carries s head body principal → Meets marking (Entered head body principal ok ms)
        (logResponse s sensitive reason (next v)) ms := by
    intro sensitive reason v ms hv
    refine Entered.bind (h v hv ms) fun served ms' => ?_
    exact meets_log_bind ⟨rfl, fun _ h => h⟩
  intro v hv ms
  obtain rfl := hv.head_eq
  unfold Middleware.logPayloads
  split
  · rename_i hoff
    refine Entered.congr (and_iff_right fun hon => ?_).symm (h v hv ms)
    rw [hon] at hoff
    cases hoff
  · rename_i hon
    rw [Bool.not_eq_true, Bool.not_eq_false'] at hon
    -- with a reason to omit the body it is not read here, and so not measured
    split
    · rename_i reason hreason
      refine Entered.congr (and_iff_right fun _ hnone => ?_).symm
        (meets_log_bind (hlogged none (some reason) hv))
      rw [hreason] at hnone
      cases hnone
    · rename_i hreason
      have hfits : v.head.Fits s body ∧ ok ↔
          (s.logPayloads = true → v.head.omitReason s = none → v.head.Fits s body) ∧ ok :=
        and_congr_left fun _ => ⟨fun hfits _ _ => hfits, fun hfits => hfits hon hreason⟩
      refine Entered.congr hfits (meets_withBody hv fun v' hv' => ?_)
      dsimp only
      split
      · exact meets_log_bind (hlogged _ _ hv')
      · exact meets_log_bind (hlogged _ _ hv')

end Behind

/-! ## §4  Who gets in -/

section FrontDoor

variable (s : Settings) (head : RequestHead) (body : Bytes)

/-- Who makes the request, if it has to be said. -/
def RequestHead.Identifies (principal : Option AuthenticatedPrincipal) : Prop :=
  if head.isOptions || head.path = s.agentCardPath then principal = none
  else ∃ p, principal = some p ∧ head.principal s = .ok (some p)

structure Admissible : Prop where
  boundary : head.boundary s = .ok .passedOn
  authenticated : ∃ principal, head.Identifies s principal
  /-- a body that is read for the log must fit -/
  logged : s.logPayloads = true → head.omitReason s = none → head.Fits s body
  wellShaped : head.WellShaped s body
  written : head.isWrite = true → head.Fits s body
  card : ¬ head.HasCard s
  version : head.VersionAccepted s

def RequestHead.isLimited : Bool := s.rateLimitEnabled && !head.isOptions

/-- The mark of the limiter, if there is to be one. -/
def Visit.admission (v : Visit) : List Mark :=
  if v.head.isLimited s then [.admitted (resolveRateLimitKey v)] else []

/-- The request is not served. -/
def Unserved (ms : List Mark) : Prop := ms = [] ∨ ∃ key, ms = [.admitted key]

/-- The request is served after it has been admitted, or it is not served, since it is not to be
or since the limiter has not let it pass. -/
def Outcome (r : Except Failure Served) (ms : List Mark) : Prop :=
  (Admissible s head body ∧ ∃ principal v, head.Identifies s principal ∧
      Reached head body principal v r ∧ ms = v.admission s ++ [.served v]) ∨
    (¬ Admissible s head body ∧ Unserved ms) ∨ (head.isLimited s = true ∧ ms = [])

variable {s head body} {principal : Option AuthenticatedPrincipal} {ok : Prop} {next : Next}

theorem Quiet.outcome {p : Gate Served} (hp : Quiet p) (hrefused : ¬ Admissible s head body) :
    Meets marking (Outcome s head body) p [] :=
  hp.meets fun _ => .inr (.inl ⟨hrefused, .inl rfl⟩)

theorem Unserved.notMem {ms : List Mark} (h : Unserved ms) (v : Visit) : .served v ∉ ms := by
  rcases h with rfl | ⟨key, rfl⟩ <;> simp

theorem admission_congr {v v' : Visit} (hhead : v.head = v'.head)
    (hprincipal : v.principal = v'.principal) : v.admission s = v'.admission s := by
  unfold Visit.admission resolveRateLimitKey
  rw [hhead, hprincipal]

theorem isLimited_eq_not : head.isLimited s = !(!s.rateLimitEnabled || head.isOptions) := by
  unfold RequestHead.isLimited
  rw [Bool.not_or, Bool.not_not]

theorem Opens.enforceRateLimit (hidentifies : head.Identifies s principal)
    (hok : ok ↔ Admissible s head body) (h : Opens s head body principal ok next) {v : Visit}
    (hv : v.Carries s head body principal) :
    Meets marking (Outcome s head body) (enforceRateLimit s next v) [] := by
  have hserved : ∀ {r ms}, Entered head body principal ok (v.admission s) r ms →
      Outcome s head body r ms := by
    rintro r ms (⟨hadmissible, v', hv', rfl⟩ | ⟨hrefused, rfl⟩)
    · refine .inl ⟨hok.mp hadmissible, principal, v', hidentifies, hv', ?_⟩
      rw [admission_congr (hv.head_eq.trans hv'.head_eq.symm)
        (hv.principal_eq.trans hv'.principal_eq.symm)]
    · refine .inr (.inl ⟨fun h => hrefused (hok.mpr h), ?_⟩)
      unfold Visit.admission
      split
      · exact .inr ⟨_, rfl⟩
      · exact .inl rfl
  unfold Middleware.enforceRateLimit
  split
  · rename_i hfree
    have hadmission : v.admission s = [] := by
      refine if_neg ?_
      rw [isLimited_eq_not, hfree]
      decide
    refine Meets.mono (h v hv []) fun r ms hentered => hserved ?_
    rwa [hadmission]
  · rename_i hfree
    have hlimited : v.head.isLimited s = true := by
      rw [isLimited_eq_not, eq_false_of_ne_true hfree]
      decide
    have hturned : ∀ {r}, Outcome s head body r [] := fun {r} =>
      .inr (.inr ⟨hv.head_eq ▸ hlimited, rfl⟩)
    refine meets_bind.mpr (meets_call.mpr ⟨trivial, ?_⟩)
    -- the limiter fails, refuses, or lets the request pass
    rintro (x | _ | _)
    · exact hturned
    · change Meets marking _ (_ >>= _) []
      refine Quiet.meets ?_ fun _ => hturned
      exact Calls.bind (calls_call.mpr fun _ => rfl) fun _ => quiet_reject _ _
    · change Meets marking _ (next v) _
      have hnext : marking.next [] (.checkAndRecord (resolveRateLimitKey v)) (.ok true) =
          v.admission s := (if_pos hlimited).symm
      rw [hnext]
      exact Meets.mono (h v hv _) fun r ms => hserved

theorem admissible_iff (hboundary : head.boundary s = .ok .passedOn)
    (hidentifies : head.Identifies s principal) :
    ((s.logPayloads = true → head.omitReason s = none → head.Fits s body) ∧
      head.WellShaped s body ∧ (head.isWrite = true → head.Fits s body) ∧ ¬ head.HasCard s ∧
        head.VersionAccepted s) ↔ Admissible s head body :=
  ⟨fun h => ⟨hboundary, ⟨principal, hidentifies⟩, h.1, h.2.1, h.2.2.1, h.2.2.2.1, h.2.2.2.2⟩,
    fun h => ⟨h.logged, h.wellShaped, h.written, h.card, h.version⟩⟩

theorem identifies_none (hexempt : (head.isOptions || head.path = s.agentCardPath) = true) :
    head.Identifies s none :=
  (if_pos hexempt).mpr rfl

theorem identifies_iff (hasked : ¬ (head.isOptions || head.path = s.agentCardPath) = true) :
    head.Identifies s principal ↔ ∃ p, principal = some p ∧ head.principal s = .ok (some p) := by
  unfold RequestHead.Identifies
  rw [if_neg hasked]

/-- What stands behind the authentication, for a request that is allowed to come so far. -/
theorem meets_behind {v : Visit} (hboundary : head.boundary s = .ok .passedOn)
    (hidentifies : head.Identifies s principal) (hv : v.Carries s head body principal) :
    Meets marking (Outcome s head body)
      (enforceRateLimit s (logPayloads s (guardMessagePayloadShape s (enforceRequestBodyLimit s
        (cacheAgentCardResponses s (negotiateA2aProtocolVersion s
          (bindTraceContext application)))))) v) [] := by
  refine Opens.enforceRateLimit hidentifies (admissible_iff hboundary hidentifies) ?_ hv
  refine Opens.logPayloads (Opens.guardMessagePayloadShape ?_)
  exact opens_negotiateA2aProtocolVersion.cacheAgentCardResponses.enforceRequestBodyLimit

theorem meets_server (s : Settings) (head : RequestHead) (chunks : List Bytes) :
    Meets marking (Outcome s head chunks.flatten) (server s head chunks) [] := by
  unfold server installRuntimeMiddlewares Middleware.enforceHttpBoundary
  split
  · rename_i e hboundary
    exact Quiet.outcome calls_raises fun h => by cases hboundary.symm.trans h.boundary
  · rename_i status message hboundary
    exact (quiet_reject _ _).outcome fun h => by cases hboundary.symm.trans h.boundary
  · rename_i hboundary
    unfold bearerAuth
    split
    · rename_i hexempt
      exact meets_behind hboundary (identifies_none hexempt) (carries_arrival s head chunks none)
    · rename_i hasked
      split
      · rename_i e hprincipal
        refine Quiet.outcome calls_raises fun h => ?_
        obtain ⟨_, hidentifies⟩ := h.authenticated
        obtain ⟨p, -, hp⟩ := (identifies_iff hasked).mp hidentifies
        cases hprincipal.symm.trans hp
      · rename_i hprincipal
        refine Quiet.outcome (quiet_reject _ _) fun h => ?_
        obtain ⟨_, hidentifies⟩ := h.authenticated
        obtain ⟨p, -, hp⟩ := (identifies_iff hasked).mp hidentifies
        cases hprincipal.symm.trans hp
      · rename_i p hprincipal
        exact meets_behind hboundary ((identifies_iff hasked).mpr ⟨p, rfl, hprincipal⟩)
          (carries_arrival s head chunks (some p))

end FrontDoor

/-! ## §5  The front door -/

section Runs

variable (s : Settings) (head : RequestHead) (chunks : List Bytes)
variable (env : Environment GateEffect GateEffect.Answer Failure)

/-- A request is served if and only if it is admissible and the limiter, where it is asked, lets
it pass. -/
theorem front_door : (∃ v, .served v ∈ marks ((server s head chunks).events env)) ↔
    Admissible s head chunks.flatten ∧ (head.isLimited s = true →
      ∃ key, .admitted key ∈ marks ((server s head chunks).events env)) := by
  rcases (meets_server s head chunks).collected env with
    ⟨hadmissible, principal, v, -, hv, hmarks⟩ | ⟨hrefused, hmarks⟩ | ⟨hlimited, hmarks⟩
  · refine iff_of_true ⟨v, ?_⟩ ⟨hadmissible, fun hlimited => ⟨resolveRateLimitKey v, ?_⟩⟩
    · unfold marks
      rw [hmarks]
      simp
    · unfold marks
      rw [hmarks, Visit.admission, hv.head_eq, if_pos hlimited]
      simp
  · exact iff_of_false (fun ⟨v, hmem⟩ => hmarks.notMem v hmem) fun h => hrefused h.1
  · unfold marks
    rw [hmarks]
    exact iff_of_false (by simp) fun h => by simpa using h.2 hlimited

/-- A request is served at most once, behind the limiter. What the application gets is who has been
identified and the body as it has come in, whoever has read it before; and what it answers is sent
with the trace and the version of the request. -/
theorem front_door_delivers :
    Unserved (marks ((server s head chunks).events env)) ∨
      ∃ principal v, head.Identifies s principal ∧
        Reached head chunks.flatten principal v ((server s head chunks).outcome env) ∧
        marks ((server s head chunks).events env) = v.admission s ++ [.served v] := by
  rcases (meets_server s head chunks).collected env with
    ⟨-, principal, v, hidentifies, hv, hmarks⟩ | ⟨-, hmarks⟩ | ⟨-, hmarks⟩
  · exact .inr ⟨principal, v, hidentifies, hv, hmarks⟩
  · exact .inl hmarks
  · exact .inl (.inl hmarks)

end Runs

/-! ## §6  What the log shows -/

section Log

variable (s : Settings) (body : Bytes)

variable {s body} {next : Next}

variable {head : RequestHead} {principal : Option AuthenticatedPrincipal} {v : Visit}

end Log

end OpencodeA2a.Server.Middleware
