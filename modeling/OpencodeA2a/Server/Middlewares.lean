import Mathlib.Data.Rat.Floor
import OpencodeA2a.Library.Effects
import OpencodeA2a.Library.Entries
import OpencodeA2a.Server.Authentication
import OpencodeA2a.Server.RequestParsing

/-!
# The middlewares

`install_runtime_middlewares` of `server/middleware.py`, with the two that it adds last. Each
middleware has a request object of its own: what one of them has read of the body, the object
replays to those within, and a context variable hands it on to them at once. They share what
`request.state` holds. A response that a middleware makes itself is named by what it says; how
it is written as JSON is left to `render`.
-/

namespace OpencodeA2a.Server.Middleware

open OpencodeA2a.Stream (Text Json Mapping)
open OpencodeA2a.Extension (Numerals)
open OpencodeA2a.Effects

/-! ## §1  Requests and responses -/

structure RequestHead where
  method : Text
  path : Text
  /-- `request.headers.get` -/
  header : String → Option Text
  /-- `request.query_params.get` -/
  query : String → Option Text
  clientHost : Option Text
  /-- `get_requested_extensions` of the extension headers -/
  requestedExtensions : List Text
  /-- the random bytes, if a trace has to be made up -/
  seed : TraceSeed

/-- The request as a middleware sees it. -/
structure Visit where
  head : RequestHead
  /-- the chunks that the request object receives -/
  source : List Bytes
  /-- `_REQUEST_BODY_BYTES` -/
  cached : Option Bytes := none
  principal : Option AuthenticatedPrincipal := none
  version : Option Text := none
  trace : Option TraceContext := none

structure Response where
  status : ℕ
  /-- by their names in lower case -/
  headers : List (Text × Text) := []
  streaming : Bool := false
  body : Bytes := []

/-- A response, and `request.state.activated_extensions`. -/
structure Served where
  response : Response
  activated : Option (List Text) := none

/-- What a middleware answers itself. -/
inductive Rejection where
  | boundary (status : ℕ) (message : Text)
  | unauthorized
  | rateLimited
  | tooLarge (limit actualSize : ℤ)
  | envelopeAtRestEndpoint
  | restMessage (field message : Text)
  | rpcMessage (id : Option Json) (field message : Text)
  | restVersion (requested : Text)
  | rpcVersion (id : Option Json) (requested : Text)

def Rejection.status : Rejection → ℕ
  | .boundary status _ => status
  | .unauthorized => 401
  | .rateLimited => 429
  | .tooLarge _ _ => 413
  | .envelopeAtRestEndpoint | .restMessage _ _ | .restVersion _ => 400
  | .rpcMessage _ _ _ | .rpcVersion _ _ => 200

/-! ## §2  What the middlewares call -/

inductive LogLine where
  | requestMethod (method : Text)
  | requestBody (shown : Bytes) (whole : Bool)
  | requestOmitted (reason : Text)
  | responseStreaming (method : Option Text)
  | responseMethod (status bytes : ℕ) (method : Text)
  | responseOmitted (status bytes : ℕ) (reason : Text)
  | responseBody (status : ℕ) (shown : Bytes) (whole : Bool)
  | tooLarge (limit actualSize : ℤ)

inductive GateEffect where
  /-- `check_and_record` of the limiter -/
  | checkAndRecord (key : Text)
  | retryAfter (key : Text)
  | log (line : LogLine)
  /-- the application within -/
  | serve (v : Visit)

abbrev GateEffect.Answer : GateEffect → Type
  | .checkAndRecord _ => Bool
  | .retryAfter _ => ℚ
  | .log _ => Unit
  | .serve _ => Served

/-- What the middlewares do not catch. -/
inductive Failure where
  | url (e : UrlError)
  | auth (e : AuthError)
  | unhashable
  | other (text : Text)

abbrev Gate (α : Type) : Type := Prog GateEffect GateEffect.Answer Failure α

/-- `call_next` -/
abbrev Next : Type := Visit → Gate Served

structure Settings where
  net : WebTexts
  boundary : BoundarySettings
  /-- `allowed_origins` -/
  allowed : List Text
  credentials : List StaticAuthCredential
  rateLimitEnabled : Bool
  logPayloads : Bool
  logBodyLimit : ℤ
  maxRequestBodyBytes : ℤ
  /-- `AGENT_CARD_WELL_KNOWN_PATH` -/
  agentCardPath : Text
  publicCardEtag : Text
  extendedCardEtag : Text
  numerals : Numerals
  /-- `_parse_json_body` -/
  parseJsonBody : Bytes → Option Mapping
  render : Rejection → Bytes
  /-- the response object that `call_next` makes of what is sent within -/
  relayed : Response → Response

/-- A header of the response is set. -/
def Served.setHeader (served : Served) (name : String) (value : Text) : Served :=
  { served with response := { served.response with
      headers := Entries.set served.response.headers name.toList value } }

def Response.header (response : Response) (name : String) : Option Text :=
  response.headers.lookup name.toList

variable (s : Settings)

/-- A response that is made of a rejection. -/
def reject (rejection : Rejection) (headers : List (Text × Text) := []) : Gate Served :=
  return { response :=
    { status := rejection.status
      headers := ("content-type".toList, "application/json".toList) :: headers
      body := s.render rejection } }

/-! ## §3  The body -/

structure TooLarge where
  limit : ℤ
  actualSize : ℤ

/-- The loop over `request.stream()`, from the size so far on; the error is the size that is
over the limit. -/
def readStream (limit : ℤ) : ℤ → List Bytes → Except ℤ Bytes
  | _, [] => .ok []
  -- `if not chunk: continue`
  | total, [] :: chunks => readStream limit total chunks
  | total, (b :: chunk) :: chunks =>
      if limit < total + (b :: chunk).length then .error (total + (b :: chunk).length)
      else
        (readStream limit (total + (b :: chunk).length) chunks).map fun body => b :: chunk ++ body

/-- What the header says about the size of the body. -/
def RequestHead.contentLength (head : RequestHead) : Option ℤ :=
  parseContentLength s.numerals (head.header "content-length")

/-- `_get_request_body`: the body, and the request for the middlewares within. -/
def getRequestBody (v : Visit) : Except TooLarge (Bytes × Visit) :=
  match v.cached with
  | some body => .ok (body, v)
  | none =>
      let limit := s.maxRequestBodyBytes
      -- what is declared too large is refused before anything is read
      match (v.head.contentLength s).filter fun n => 0 < limit && limit < n with
      | some n => .error ⟨limit, n⟩
      | none =>
          if limit ≤ 0 then
            .ok (v.source.flatten, { v with cached := some v.source.flatten, source := [v.source.flatten] })
          else
            match readStream limit 0 v.source with
            | .error n => .error ⟨limit, n⟩
            | .ok body => .ok (body, { v with cached := some body, source := [body] })

/-- What is done with the body, if it is not too large; else `_request_body_too_large_response`. -/
def withBody (v : Visit) (k : Bytes → Visit → Gate Served) : Gate Served :=
  match getRequestBody s v with
  | .error e => do
      Prog.tell (.log (.tooLarge e.limit e.actualSize))
      reject s (.tooLarge e.limit e.actualSize)
  | .ok (body, v) => k body v

/-! ## §4  The middlewares, from within -/

/-- `bind_trace_context` -/
def bindTraceContext (next : Next) : Next := fun v => do
  let trace := resolveTraceContext v.head.seed (v.head.header "traceparent")
    (v.head.header "tracestate")
  let served ← next { v with trace := some trace }
  return served.setHeader "traceparent" trace.traceparent

/-- `_is_http_json_rest_path` -/
def isHttpJsonRestPath (path : Text) : Bool :=
  "/message:".toList.isPrefixOf path || "/tasks".toList.isPrefixOf path

def RequestHead.isRpc (head : RequestHead) : Bool :=
  head.path = "/".toList && head.method = "POST".toList

/-- `_requires_protocol_negotiation` -/
def RequestHead.requiresProtocolNegotiation (head : RequestHead) : Bool :=
  head.isRpc || isHttpJsonRestPath head.path

def publicExtensionUris : List Text :=
  [sessionBindingExtensionUri, modelSelectionExtensionUri, streamingExtensionUri,
    interruptCallbackExtensionUri]

def allExtensionUris : List Text :=
  publicExtensionUris ++ [Extension.sessionManagementExtensionUri,
    Extension.providerDiscoveryExtensionUri, Extension.workspaceControlExtensionUri,
    Extension.interruptRecoveryExtensionUri,
    (extensionUriNamespace ++ "compatibility-profile:v1").toList,
    (extensionUriNamespace ++ "wire-contract:v1").toList]

def extendedAgentCardPath : Text := "/extendedAgentCard".toList

/-- `_resolve_activated_extensions` -/
def resolveActivatedExtensions (head : RequestHead) (explicit : Option (List Text)) : List Text :=
  match explicit with
  | some uris => uris.filter (· ≠ [])
  | none =>
      if head.path = s.agentCardPath then
        publicExtensionUris.filter (· ∈ head.requestedExtensions)
      else if head.path = extendedAgentCardPath then
        allExtensionUris.filter (· ∈ head.requestedExtensions)
      else if head.path = "/".toList || isHttpJsonRestPath head.path then
        publicExtensionUris.filter (· ∈ head.requestedExtensions)
      else []

/-- `_set_activated_extensions_header` -/
def setActivatedExtensionsHeader (head : RequestHead) (served : Served) : Served :=
  let uris := resolveActivatedExtensions s head served.activated
  if 200 ≤ served.response.status ∧ served.response.status < 400 ∧ uris ≠ [] then
    served.setHeader "a2a-extensions" ([','].intercalate uris)
  else served

/-- `negotiate_a2a_protocol_version` -/
def negotiateA2aProtocolVersion (next : Next) : Next := fun v =>
  if !v.head.requiresProtocolNegotiation then next v
  else
    match negotiateProtocolVersion s.numerals (v.head.header "a2a-version")
        (v.head.query "A2A-Version") with
    | .error requested =>
        -- the body is read only for the id that the error repeats
        if v.head.isRpc then
          withBody s v fun body _ =>
            reject s (.rpcVersion (extractJsonrpcRequestId (s.parseJsonBody body)) requested)
        else reject s (.restVersion requested)
    | .ok version => do
        let served ← next { v with version := some version }
        return setActivatedExtensionsHeader s v.head (served.setHeader "a2a-version" version)

/-- The items of a header, without blanks around them. -/
def headerItems (value : Text) : List Text :=
  ((value.splitOn ',').map Text.strip).filter (· ≠ [])

/-- `_etag_matches` -/
def etagMatches (ifNoneMatch : Option Text) (etag : Text) : Bool :=
  let candidates := headerItems (ifNoneMatch.getD [])
  candidates.contains "*".toList || candidates.contains etag

/-- `_merge_vary` -/
def mergeVary (values : List Text) : Text :=
  (", ".toList).intercalate ((values.flatMap headerItems).foldl
    (fun ordered item =>
      if ordered.any fun other => lowerHeader other = lowerHeader item then ordered
      else ordered ++ [item]) [])

/-- The headers of a card that is served. -/
def Served.setCardHeaders (served : Served) (etag : Text) (cacheControl : String)
    (vary : List String) : Served :=
  ((served.setHeader "etag" etag).setHeader "cache-control" cacheControl.toList).setHeader "vary"
    (mergeVary ((served.response.header "vary").getD [] :: vary.map String.toList))

def publicAgentCardCacheControl : String := "public, max-age=300"

def authenticatedExtendedCardCacheControl : String := "private, max-age=300"

/-- `cache_agent_card_responses` -/
def cacheAgentCardResponses (next : Next) : Next := fun v =>
  if v.head.method ≠ "GET".toList then next v
  else if v.head.path = s.agentCardPath then
    if etagMatches (v.head.header "if-none-match") s.publicCardEtag then
      return setActivatedExtensionsHeader s v.head
        { response :=
          { status := 304
            headers := [("etag".toList, s.publicCardEtag),
              ("cache-control".toList, publicAgentCardCacheControl.toList),
              ("vary".toList, "Accept-Encoding".toList)] } }
    else do
      let served ← next v
      if served.response.status ≠ 200 then return served
      else
        return setActivatedExtensionsHeader s v.head
          (served.setCardHeaders s.publicCardEtag publicAgentCardCacheControl ["Accept-Encoding"])
  else if v.head.path = extendedAgentCardPath then do
    let served ← next v
    if served.response.status ≠ 200 then return served
    else
      -- the tag is compared after the card is served, unlike that of the public card
      let card := served.setCardHeaders s.extendedCardEtag authenticatedExtendedCardCacheControl
        ["Authorization", "Accept-Encoding"]
      if etagMatches (v.head.header "if-none-match") s.extendedCardEtag then
        return setActivatedExtensionsHeader s v.head
          { card with response := { status := 304, headers := card.response.headers } }
      else return setActivatedExtensionsHeader s v.head card
  else next v

/-- A method whose requests have a body. -/
def RequestHead.isWrite (head : RequestHead) : Bool :=
  ["POST".toList, "PUT".toList, "PATCH".toList].contains head.method

/-- `enforce_request_body_limit` -/
def enforceRequestBodyLimit (next : Next) : Next := fun v =>
  if s.maxRequestBodyBytes ≤ 0 ∨ v.head.isWrite = false then next v
  else withBody s v fun _ v => next v

def RequestHead.isRestMessage (head : RequestHead) : Bool :=
  head.method = "POST".toList &&
    ["/message:send".toList, "/message:stream".toList].contains head.path

/-- `guard_message_payload_shape` -/
def guardMessagePayloadShape (next : Next) : Next := fun v =>
  if v.head.isRestMessage then
    withBody s v fun body v =>
      let payload := s.parseJsonBody body
      if looksLikeJsonrpcEnvelope payload then reject s .envelopeAtRestEndpoint
      else
        match messageShapeViolation (restMessagePayload payload) with
        | some (field, message) => reject s (.restMessage field message)
        | none => next v
  else if v.head.isRpc then
    withBody s v fun body v =>
      let payload := s.parseJsonBody body
      match jsonrpcMessagePayload payload with
      -- the method is looked up in a set: a list or an object has no hash
      | .error _ => .raises .unhashable
      | .ok message =>
          match messageShapeViolation message with
          | some (field, text) =>
              reject s (.rpcMessage (extractJsonrpcRequestId payload) ("params.".toList ++ field) text)
          | none => next v
  else next v

/-- `request_omit_reason` -/
def RequestHead.omitReason (head : RequestHead) : Option Text :=
  let contentType := normalizeContentType (head.header "content-type")
  if !isJsonContentType contentType then
    some ("non-json content-type=".toList ++
      if contentType = [] then "unknown".toList else contentType)
  else if 0 < s.logBodyLimit then
    match head.contentLength s with
    | none => some ("missing content-length with limit=".toList ++ (toString s.logBodyLimit).toList)
    | some n =>
        if s.logBodyLimit < n then
          some ("content-length=".toList ++ (toString n).toList ++ " exceeds limit=".toList ++
            (toString s.logBodyLimit).toList)
        else none
  else none

/-- What is logged of a response. -/
def responseLine (sensitive reason : Option Text) (response : Response) : LogLine :=
  if response.streaming then .responseStreaming sensitive
  else
    match sensitive with
    | some method => .responseMethod response.status response.body.length method
    | none =>
        match reason with
        | some reason =>
            .responseOmitted response.status response.body.length ("request_".toList ++ reason)
        | none =>
            let contentType := normalizeContentType (response.header "content-type")
            if !isJsonContentType contentType then
              .responseOmitted response.status response.body.length
                ("non-json content-type=".toList ++
                  if contentType = [] then "unknown".toList else contentType)
            else
              .responseBody response.status (payloadPreview response.body s.logBodyLimit).1
                (payloadPreview response.body s.logBodyLimit).2

/-- The rest of `log_payloads`, behind the line about the request. -/
def logResponse (sensitive reason : Option Text) (next : Gate Served) : Gate Served := do
  let served ← next
  Prog.tell (.log (responseLine s sensitive reason (s.relayed served.response)))
  return served

/-- `log_payloads` -/
def logPayloads (next : Next) : Next := fun v =>
  if !s.logPayloads then next v
  else
    match v.head.omitReason s with
    | some reason => do
        Prog.tell (.log (.requestOmitted reason))
        logResponse s none (some reason) (next v)
    | none =>
        withBody s v fun body v => do
          let sensitive := detectSensitiveExtensionMethod (s.parseJsonBody body)
          match sensitive with
          | some method => Prog.tell (.log (.requestMethod method))
          | none =>
              Prog.tell (.log (.requestBody (payloadPreview body s.logBodyLimit).1
                (payloadPreview body s.logBodyLimit).2))
          logResponse s sensitive none (next v)

/-- `_resolve_rate_limit_key` -/
def resolveRateLimitKey (v : Visit) : Text :=
  match (v.principal.bind fun p => p.credentialId).filter (· ≠ []) with
  | some credentialId => "credential:".toList ++ credentialId
  | none =>
      match (v.principal.map fun p => p.identity).filter (· ≠ []) with
      | some identity => "principal:".toList ++ identity
      | none => "ip:".toList ++ v.head.clientHost.getD "unknown".toList

def RequestHead.isOptions (head : RequestHead) : Bool := head.method = "OPTIONS".toList

/-- `enforce_rate_limit` -/
def enforceRateLimit (next : Next) : Next := fun v =>
  if !s.rateLimitEnabled || v.head.isOptions then next v
  else do
    let admitted ← Prog.call (A := GateEffect.Answer) (.checkAndRecord (resolveRateLimitKey v))
    if !admitted then
      let seconds ← Prog.call (A := GateEffect.Answer) (.retryAfter (resolveRateLimitKey v))
      reject s .rateLimited [("retry-after".toList, (toString (max 1 ⌈seconds⌉)).toList),
        ("cache-control".toList, "no-store".toList)]
    else next v

/-- `_unauthorized_response`; the schemes are those of the credentials. -/
def unauthorized : Gate Served :=
  let schemes := s.credentials.map fun c => c.authScheme
  reject s .unauthorized [("www-authenticate".toList, (", ".toList).intercalate
    ((if schemes.contains "bearer".toList then ["Bearer".toList] else []) ++
      if schemes.contains "basic".toList then ["Basic realm=\"opencode-a2a\"".toList] else []))]

/-- What `bearer_auth` finds in the header. -/
def RequestHead.principal (head : RequestHead) : Except AuthError (Option AuthenticatedPrincipal) :=
  authenticateHeader s.net.lower s.credentials ((head.header "authorization").getD [])

/-- `bearer_auth` -/
def bearerAuth (next : Next) : Next := fun v =>
  if v.head.isOptions || v.head.path = s.agentCardPath then next v
  else
    match v.head.principal s with
    | .error e => .raises (.auth e)
    | .ok none => unauthorized s
    | .ok (some principal) => next { v with principal := some principal }

/-- What `enforce_http_boundary` makes of the headers. -/
def RequestHead.boundary (head : RequestHead) : Except UrlError BoundaryAnswer :=
  Server.enforceHttpBoundary s.net s.boundary s.allowed (head.header "origin") (head.header "host")

/-- `enforce_http_boundary` -/
def enforceHttpBoundary (next : Next) : Next := fun v =>
  match v.head.boundary s with
  | .error e => .raises (.url e)
  | .ok (.rejected status message) => reject s (.boundary status message)
  | .ok .passedOn => next v

/-- `install_runtime_middlewares` -/
def installRuntimeMiddlewares (app : Next) : Next :=
  enforceHttpBoundary s <| bearerAuth s <| enforceRateLimit s <| logPayloads s <|
    guardMessagePayloadShape s <| enforceRequestBodyLimit s <| cacheAgentCardResponses s <|
      negotiateA2aProtocolVersion s <| bindTraceContext app

/-- A request as it comes in. -/
def arrival (head : RequestHead) (chunks : List Bytes) : Visit := { head, source := chunks }

/-- The server, around the application. -/
def server (head : RequestHead) (chunks : List Bytes) : Gate Served :=
  installRuntimeMiddlewares s (fun v => Prog.call (A := GateEffect.Answer) (.serve v))
    (arrival head chunks)

end OpencodeA2a.Server.Middleware
