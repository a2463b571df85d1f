import OpencodeA2a.Extension.Sending
import OpencodeA2a.Jsonrpc.Callbacks

/-!
# What needs a capability

A shell line reaches the upstream server only for a caller who has the capability, through the
method that is for it, in a deployment that offers the method; and so it is with whatever
changes a workspace. The path of a request is a text into which the ids are put as they are,
and httpx makes the path of the URL of it: with an id that ends that path or leads out of it,
a method without a capability reaches other endpoints as well.
-/

namespace OpencodeA2a.Extension

open OpencodeA2a.Stream (Text Json Mapping)
open OpencodeA2a.Effects
open OpencodeA2a.Jsonrpc
open OpencodeA2a.Server (SandboxPolicy FileSystem ServerCallContext)

/-! ## §1  Endpoints -/

/-- The loop of `normalize_path` of httpx over the segments of a path. -/
def dropDotSegments (output : List Text) : List Text → List Text
  | [] => output
  | segment :: segments =>
      if segment = ['.'] then dropDotSegments output segments
      else if segment = ['.', '.'] then
        dropDotSegments (if output = [[]] then output else output.dropLast) segments
      else dropDotSegments (output ++ [segment]) segments

/-- `normalize_path` of httpx -/
def normalizePath (path : Text) : Text := ['/'].intercalate (dropDotSegments [] (path.splitOn '/'))

/-- The path of the URL that httpx sends, under a base URL without a path: what follows is its
query or its fragment, and the dot segments are gone. -/
def HttpRequest.urlPath (r : HttpRequest) : Text :=
  normalizePath (r.path.takeWhile fun c => c ≠ '?' && c ≠ '#')

def HttpRequest.IsShell (r : HttpRequest) : Prop :=
  r.verb = .post ∧ ∃ s, r.urlPath = sessionPath s "/shell"

/-- A request that changes a workspace or a worktree. -/
def HttpRequest.IsWorkspaceMutation (r : HttpRequest) : Prop :=
  r.verb ≠ .get ∧ "/experimental/".toList <+: r.urlPath

/-- An id that stands in the path of a URL as it is: it does not end the path, and no dot segment
leads out of it. -/
def isPlain (id : Text) : Bool :=
  (id.all fun c => c ≠ '?' && c ≠ '#') &&
    (id.splitOn '/').all fun segment => segment ≠ ['.'] && segment ≠ ['.', '.']

theorem isPlain_append_cons (a b : Text) : isPlain (a ++ '/' :: b) = (isPlain a && isPlain b) := by
  unfold isPlain
  rw [List.splitOn_append_cons_self, List.all_append, List.all_append, List.all_cons]
  simp [Bool.and_assoc, Bool.and_left_comm]

theorem dropDotSegments_of_plain {segments : List Text}
    (h : ∀ segment ∈ segments, segment ≠ ['.'] ∧ segment ≠ ['.', '.']) (output : List Text) :
    dropDotSegments output segments = output ++ segments := by
  induction segments generalizing output with
  | nil => exact (List.append_nil output).symm
  | cons segment segments ih =>
      rw [List.forall_mem_cons] at h
      rw [dropDotSegments, if_neg h.1.1, if_neg h.1.2, ih h.2, List.append_assoc,
        List.singleton_append]

theorem normalizePath_of_isPlain {path : Text} (h : isPlain path = true) :
    normalizePath path = path := by
  unfold isPlain at h
  rw [Bool.and_eq_true] at h
  unfold normalizePath
  rw [dropDotSegments_of_plain, List.nil_append, List.intercalate_splitOn]
  intro segment hsegment
  simpa using List.all_eq_true.mp h.2 segment hsegment

theorem urlPath_of_isPlain {r : HttpRequest} (h : isPlain r.path = true) : r.urlPath = r.path := by
  have hall : r.path.takeWhile (fun c => c ≠ '?' && c ≠ '#') = r.path := by
    unfold isPlain at h
    rw [Bool.and_eq_true] at h
    rw [List.takeWhile_eq_self_iff]
    exact List.all_eq_true.mp h.1
  unfold HttpRequest.urlPath
  rw [hall, normalizePath_of_isPlain h]

/-- What may follow a session in a path. -/
def isEndpoint (rest : String) : Bool :=
  rest.toList.head? == some '/' && isPlain rest.toList.tail

theorem ne_nil_of_isEndpoint {rest : String} (h : isEndpoint rest = true) : rest.toList ≠ [] := by
  intro hnil
  unfold isEndpoint at h
  rw [hnil] at h
  cases h

theorem isPlain_sessionPath {s : Text} {rest : String} (hs : isPlain s = true)
    (hrest : isEndpoint rest = true) : isPlain (sessionPath s rest) = true := by
  unfold isEndpoint at hrest
  rw [Bool.and_eq_true, beq_iff_eq] at hrest
  obtain ⟨hslash, hplain⟩ := hrest
  obtain ⟨tail, htail⟩ := List.head?_eq_some_iff.mp hslash
  rw [htail, List.tail_cons] at hplain
  have hpath : sessionPath s rest = ("/session".toList ++ '/' :: s) ++ '/' :: tail := by
    unfold sessionPath
    rw [htail]
    rfl
  rw [hpath, isPlain_append_cons, isPlain_append_cons, hs, hplain]
  decide

/-- Two endpoints that end differently are different, whatever the sessions are. -/
theorem sessionPath_ne {s s' : Text} {rest rest' : String}
    (h : rest.toList.getLast? ≠ rest'.toList.getLast?) (hrest : rest.toList ≠ [])
    (hrest' : rest'.toList ≠ []) : sessionPath s rest ≠ sessionPath s' rest' := by
  intro he
  have hlast := congrArg List.getLast? he
  unfold sessionPath at hlast
  rw [List.getLast?_append_of_ne_nil _ hrest, List.getLast?_append_of_ne_nil _ hrest'] at hlast
  exact h hlast

/-- What may be sent to the endpoints of a session without being a shell line. -/
theorem not_isShell_of_emits {client : UpstreamClient} {routing : Routing} {sessionId : Option Text}
    {endpoints : List String} {r : HttpRequest} (h : Emits client routing sessionId endpoints r)
    (hplain : ∀ s, sessionId = some s → isPlain s = true)
    (hendpoints : ∀ rest ∈ endpoints, isEndpoint rest = true ∧
      rest.toList.getLast? ≠ "/shell".toList.getLast?) : ¬ r.IsShell := by
  rintro ⟨hverb, s', hshell⟩
  obtain ⟨s, rest, hs, hrest, hpath⟩ := h.write (by rw [hverb]; decide)
  obtain ⟨hendpoint, hlast⟩ := hendpoints rest hrest
  have hurl : isPlain r.path = true := hpath ▸ isPlain_sessionPath (hplain s hs) hendpoint
  rw [urlPath_of_isPlain hurl, hpath] at hshell
  exact sessionPath_ne hlast (ne_nil_of_isEndpoint hendpoint) (by decide) hshell

/-- A text does not begin in two ways. -/
theorem prefix_elim {a b l : Text} (ha : a <+: l) (hb : b <+: l) {i : ℕ} (hia : i < a.length)
    (hib : i < b.length) (hne : a[i]? ≠ b[i]?) : False := by
  obtain ⟨s, rfl⟩ := ha
  obtain ⟨t, ht⟩ := hb
  have hi : (b ++ t)[i]? = (a ++ s)[i]? := congrArg (fun l => l[i]?) ht
  rw [List.getElem?_append_left hia, List.getElem?_append_left hib] at hi
  exact hne hi.symm

theorem prefix_sessionPath (s : Text) (rest : String) : "/session/".toList <+: sessionPath s rest := by
  unfold sessionPath
  rw [List.append_assoc]
  exact List.prefix_append _ _

theorem HttpRequest.IsShell.prefix {r : HttpRequest} (h : r.IsShell) :
    "/session/".toList <+: r.urlPath := by
  obtain ⟨-, s, hs⟩ := h
  exact hs ▸ prefix_sessionPath s "/shell"

theorem not_isWorkspaceMutation_of_emits {client : UpstreamClient} {routing : Routing}
    {sessionId : Option Text} {endpoints : List String} {r : HttpRequest}
    (h : Emits client routing sessionId endpoints r)
    (hplain : ∀ s, sessionId = some s → isPlain s = true)
    (hendpoints : ∀ rest ∈ endpoints, isEndpoint rest = true) : ¬ r.IsWorkspaceMutation := by
  rintro ⟨hverb, hprefix⟩
  obtain ⟨s, rest, hs, hrest, hpath⟩ := h.write hverb
  have hurl : isPlain r.path = true :=
    hpath ▸ isPlain_sessionPath (hplain s hs) (hendpoints rest hrest)
  rw [urlPath_of_isPlain hurl, hpath] at hprefix
  exact prefix_elim (i := 1) hprefix (prefix_sessionPath s rest) (by decide) (by decide) (by decide)

/-! ## §2  Authorised requests -/

/-- What the request does, the method is for and the caller may do. -/
def Authorised (d : Deployment) (caller : Caller) (m : ExtensionMethod) (r : HttpRequest) : Prop :=
  (r.IsShell → m = .control .shell ∧ d.sessionShell = true ∧
    caller.hasCapability capabilitySessionShell = true) ∧
  (r.IsWorkspaceMutation → (∃ w ∈ workspaceMutationMethods, m = .workspace w) ∧
    d.workspaceMutations = true ∧ caller.hasCapability capabilityWorkspaceMutation = true)

section Methods

variable {d : Deployment} {D : Numerals} {context : HandlerContext} {request : Request}

theorem authorised_of_not {m : ExtensionMethod} {caller : Caller} {r : HttpRequest}
    (hshell : ¬ r.IsShell) (hmutation : ¬ r.IsWorkspaceMutation) : Authorised d caller m r :=
  ⟨fun h => absurd h hshell, fun h => absurd h hmutation⟩

/-- A request under `/session` that is no write is nothing that needs a capability. -/
theorem authorised_of_emits {client : UpstreamClient} {routing : Routing} {m : ExtensionMethod}
    {caller : Caller} {sessionId : Option Text} {endpoints : List String} {r : HttpRequest}
    (h : Emits client routing sessionId endpoints r)
    (hplain : ∀ s, sessionId = some s → isPlain s = true)
    (hendpoints : ∀ rest ∈ endpoints, isEndpoint rest = true ∧
      rest.toList.getLast? ≠ "/shell".toList.getLast?) : Authorised d caller m r :=
  authorised_of_not (not_isShell_of_emits h hplain hendpoints)
    (not_isWorkspaceMutation_of_emits h hplain fun rest hrest => (hendpoints rest hrest).1)

theorem method_of_operation {method : WorkspaceMethod} {params : Mapping}
    {operation : WorkspaceOperation} (h : method.operation params = .ok operation) :
    operation.method = method := by
  cases method with
  | listProjects | getCurrentProject | listWorkspaces | listWorktrees =>
      cases h
      rfl
  | createWorkspace | createWorktree | removeWorktree | resetWorktree =>
      obtain ⟨r, -, rfl⟩ := map_eq_ok.mp h
      rfl
  | removeWorkspace =>
      unfold WorkspaceMethod.operation at h
      dsimp only at h
      split at h
      · cases h
        rfl
      · cases h

theorem operation_of_plan {method : WorkspaceMethod} {operation : WorkspaceOperation}
    (h : method.plan request = .ok operation) :
    method.forbids request.caller = false ∧ method.operation request.params = .ok operation := by
  unfold WorkspaceMethod.plan at h
  cases hforbids : method.forbids request.caller with
  | true =>
      rw [hforbids] at h
      cases h
  | false =>
      rw [hforbids] at h
      obtain ⟨-, -, h⟩ := bind_eq_ok.mp h
      exact ⟨rfl, h⟩

/-- Where a reply to an interrupt is posted. -/
theorem path_callbackRequest (client : UpstreamClient) (call : UpstreamCall) :
    ∃ kind ∈ ["permission", "question"], ∃ rest ∈ ["reply", "reject"],
      (callbackRequest client call).1.path =
        ("/" ++ kind).toList ++ '/' :: (call.requestId ++ '/' :: rest.toList) := by
  cases call with
  | permissionReply requestId reply message routing =>
      exact ⟨"permission", by decide, "reply", by decide, List.append_assoc _ _ _⟩
  | questionReply requestId answers routing =>
      exact ⟨"question", by decide, "reply", by decide, List.append_assoc _ _ _⟩
  | questionReject requestId routing =>
      exact ⟨"question", by decide, "reject", by decide, List.append_assoc _ _ _⟩

/-- A reply to an interrupt is nothing that needs a capability. -/
theorem authorised_of_callback {m : ExtensionMethod} {caller : Caller} {client : UpstreamClient}
    {call : UpstreamCall} (hplain : isPlain call.requestId = true) :
    Authorised d caller m (callbackRequest client call).1 := by
  obtain ⟨kind, hkind, rest, hrest, hpath⟩ := path_callbackRequest client call
  have hkindPlain : isPlain ("/" ++ kind).toList = true :=
    (by decide : ∀ kind ∈ ["permission", "question"], isPlain ("/" ++ kind).toList = true) kind hkind
  have hrestPlain : isPlain rest.toList = true :=
    (by decide : ∀ rest ∈ ["reply", "reject"], isPlain rest.toList = true) rest hrest
  have hurl : (callbackRequest client call).1.urlPath = (callbackRequest client call).1.path := by
    apply urlPath_of_isPlain
    rw [hpath, isPlain_append_cons, isPlain_append_cons, hkindPlain, hplain, hrestPlain]
    rfl
  have hprefix : ("/" ++ kind).toList <+: (callbackRequest client call).1.urlPath := by
    rw [hurl, hpath]
    exact List.prefix_append _ _
  have hfirst : 1 < ("/" ++ kind).toList.length ∧
      ("/" ++ kind).toList[1]? ≠ "/session/".toList[1]? ∧
        ("/" ++ kind).toList[1]? ≠ "/experimental/".toList[1]? :=
    (by decide : ∀ kind ∈ ["permission", "question"], 1 < ("/" ++ kind).toList.length ∧
      ("/" ++ kind).toList[1]? ≠ "/session/".toList[1]? ∧
        ("/" ++ kind).toList[1]? ≠ "/experimental/".toList[1]?) kind hkind
  refine authorised_of_not (fun hshell => ?_) fun hmutation => ?_
  · exact prefix_elim (i := 1) hprefix hshell.prefix hfirst.1 (by decide) hfirst.2.1
  · exact prefix_elim (i := 1) hprefix hmutation.2 hfirst.1 (by decide) hfirst.2.2

/-- A method about workspaces is for what it changes. -/
theorem not_isShell_of_workspaceEmits {operation : WorkspaceOperation} {r : HttpRequest}
    (h : WorkspaceEmits operation r) : ¬ r.IsShell := by
  intro hshell
  have hpath := h.post hshell.1
  have hends : isPlain r.path = true ∧ "/experimental/".toList <+: r.path :=
    (by decide : ∀ path ∈ workspaceEndpoints,
      isPlain path = true ∧ "/experimental/".toList <+: path) r.path hpath
  have hexperimental : "/experimental/".toList <+: r.urlPath := by
    rw [urlPath_of_isPlain hends.1]
    exact hends.2
  exact prefix_elim (i := 1) hexperimental hshell.prefix (by decide) (by decide) (by decide)

/-- The ids that a request gives for a session and for an interrupt can stand in the path of a
URL. -/
structure PlainIds (params : Mapping) : Prop where
  session : ∀ s, requiredString params "session_id" = .ok s → isPlain s = true
  interrupt : ∀ s, requiredString params "request_id" = .ok s → isPlain s = true

theorem requiredString_of_parse {method : CallbackMethod} {requestId : Text} {routing : Routing}
    (h : (request.asCallback method).parse = .ok (requestId, routing)) :
    requiredString request.params "request_id" = .ok requestId := by
  have hparams : (request.asCallback method).params = request.params := rfl
  unfold CallbackRequest.parse at h
  rw [hparams] at h
  unfold requiredString
  cases hid : (request.params.getStr? "request_id").bind Stream.nonempty? with
  | none =>
      simp only [hid] at h
      cases h
  | some requestId' =>
      simp only [hid] at h
      obtain ⟨directory, -, h⟩ := bind_eq_ok.mp h
      obtain ⟨workspaceId, -, h⟩ := bind_eq_ok.mp h
      cases h
      rfl

theorem calls_authorised (hplain : PlainIds request.params) (D : Numerals) (m : ExtensionMethod)
    (henabled : d.isMethodEnabled m = true) :
    Calls (OnSend (Authorised d request.caller m)) (m.handle D context request) := by
  -- the path tells what a request does: that of no other method is one for shell lines or workspaces
  cases m with
  | lifecycle m =>
      refine LifecycleMethod.calls_handle fun operation routing hplan => ?_
      refine calls_onSend operation.calls_invoke fun r hr => authorised_of_emits hr ?_ (by decide)
      exact fun s hs => hplain.session s
        (LifecycleMethod.sessionId_of_operation (LifecycleMethod.operation_of_plan hplan) hs)
  | query m =>
      refine QueryMethod.calls_handle fun query routing hplan => ?_
      exact calls_onSend query.calls_invoke fun r hr =>
        authorised_of_emits hr (by rintro s ⟨⟩) (by rintro rest ⟨⟩)
  | discovery m =>
      refine DiscoveryMethod.calls_handle fun providerId routing hplan => ?_
      exact calls_onSend calls_listProviderCatalog fun r hr =>
        authorised_of_emits hr (by rintro s ⟨⟩) (by rintro rest ⟨⟩)
  | interruptQuery m => exact InterruptQueryMethod.calls_handle
  | workspace m =>
      refine WorkspaceMethod.calls_handle fun operation hplan => ?_
      refine calls_onSend operation.calls_invoke fun r hr => ⟨?_, ?_⟩
      · exact fun hshell => (not_isShell_of_workspaceEmits hr hshell).elim
      · rintro ⟨hverb, -⟩
        have hmutating := hr.write hverb
        obtain ⟨hforbids, hoperation⟩ := operation_of_plan hplan
        rw [method_of_operation hoperation] at hmutating
        have hmem : m ∈ workspaceMutationMethods := of_decide_eq_true hmutating
        refine ⟨⟨m, hmem, rfl⟩, ?_, ?_⟩
        · simpa [Deployment.isMethodEnabled, hmem] using henabled
        · simpa [WorkspaceMethod.forbids, hmutating] using hforbids
  | control m =>
      refine ControlMethod.calls_handle fun sessionId payload p hread hforbids hplan => ?_
      refine calls_onSend (m.calls_invoke p) fun r hr => ?_
      have hsession : ∀ s, some p.sessionId = some s → isPlain s = true := by
        rintro s ⟨⟩
        rw [ControlMethod.sessionId_of_plan _ hplan]
        exact hplain.session sessionId (ControlMethod.requiredString_of_readTarget hread)
      cases m with
      | promptAsync | command => exact authorised_of_emits hr hsession (by decide)
      | shell =>
          refine ⟨fun _ => ⟨rfl, henabled, ?_⟩, fun h =>
            (not_isWorkspaceMutation_of_emits hr hsession (by decide) h).elim⟩
          simpa [ControlMethod.forbids] using hforbids
  | callback m =>
      refine calls_handleInterruptCallback fun requestId routing status binding call hparse hcall => ?_
      apply authorised_of_callback
      rw [requestId_of_proceed hcall]
      exact hplain.interrupt requestId (requiredString_of_parse hparse)

/-- In every run, a shell line or a change of a workspace is sent only by the method that is for it,
in a deployment that offers the method, for a caller with the capability. -/
theorem handleRequests_authorised (d : Deployment) (D : Numerals) (context : HandlerContext)
    (callContext : Option ServerCallContext) (caller : Caller) (request : JsonRpcRequest)
    (hplain : PlainIds (request.params.getD [])) :
    (handleRequests d D context callContext caller request).Sends (Authorised d caller) :=
  handleRequests_sends fun m henabled =>
    calls_authorised (show PlainIds (request.toRequest caller).params from hplain) D m henabled

/-! The example of a run: everything is granted, and the upstream server answers with a message. -/

def obliging : Surroundings := fun _ e =>
  match e with
  | .claim _ _ => .ok true
  | .send _ => .ok
      { status := 200, contentType := "application/json".toList, text := [], nextCursor := none
        json := .value (.obj [("info".toList, .obj [("id".toList, .str "m1".toList)])]) }
  | .listPending _ _ => .ok []
  | .resolveRequest _ => .ok (.missing, none)
  | .finalize _ _ | .release _ _ | .discardRequest _ | .audit _ _ _ => .ok ()

def exampleContext : HandlerContext :=
  { client := ⟨none⟩, directoryResolver := fun _ => .ok "/srv".toList }

def operator : Caller := ⟨some "ops".toList, none, [capabilitySessionShell]⟩

def listing : Mapping := [("agent".toList, .str "build".toList), ("command".toList, .str "ls".toList)]

def shellRequest : JsonRpcRequest where
  id := some (.int 1)
  method := "opencode.sessions.shell".toList
  params := some [("session_id".toList, .str "s1".toList), ("request".toList, .obj listing)]

/-- The shell line is sent, and it may be. -/
theorem handleRequests_authorised_shell :
    (handleRequests ⟨true, false⟩ .asciiOnly exampleContext (some ⟨[sessionManagementExtensionUri]⟩)
      operator shellRequest).Sends (Authorised ⟨true, false⟩ operator) ∧
    ∃ action, handleRequests ⟨true, false⟩ .asciiOnly exampleContext
        (some ⟨[sessionManagementExtensionUri]⟩) operator shellRequest =
      .handled sessionManagementExtensionUri (.control .shell) action ∧
      ∃ r answer, ⟨.send r, answer⟩ ∈ action.events obliging ∧ r.IsShell := by
  have hresolve : (⟨true, false⟩ : Deployment).resolve shellRequest.method =
      some (⟨"session_control".toList, [.control .promptAsync, .control .command, .control .shell],
        sessionManagementExtensionUri⟩, .control .shell) := by
    refine (Deployment.resolve_eq_some _).mpr ⟨?_, by simp, rfl⟩
    exact List.mem_of_getElem? (i := 5) rfl
  refine ⟨handleRequests_authorised _ _ _ _ _ _ ⟨?_, ?_⟩, _,
    (handleRequests_of_resolve hresolve).trans (if_pos (List.mem_singleton_self _)), _, _,
    List.mem_cons_of_mem _ (List.mem_cons_self ..), rfl, "s1".toList, by decide⟩
  · rintro s h
    obtain rfl : "s1".toList = s := Except.ok.inj h
    decide
  · rintro s ⟨⟩

theorem not_allowsMutations {fs : FileSystem} {policy : SandboxPolicy fs} (enabledByConfig : Bool)
    (h : policy.sandboxMode = .readOnly ∨ policy.writeAccessScope = .none) :
    policy.allowsMutations enabledByConfig = false := by
  unfold SandboxPolicy.allowsMutations
  rcases h with h | h
  · simp [h]
  · simp [h]

/-- Under a policy that lets nothing be written, no run sends a shell line or a change of a
workspace, whatever the settings switch on and whatever the caller may do. -/
theorem handleRequests_readOnly {fs : FileSystem} {policy : SandboxPolicy fs}
    (h : policy.sandboxMode = .readOnly ∨ policy.writeAccessScope = .none)
    (sessionShell workspaceMutations : Bool) (D : Numerals) (context : HandlerContext)
    (callContext : Option ServerCallContext) (caller : Caller) (request : JsonRpcRequest)
    (hplain : PlainIds (request.params.getD [])) :
    (handleRequests (.ofPolicy policy sessionShell workspaceMutations) D context callContext caller
      request).Sends fun _ r => ¬ r.IsShell ∧ ¬ r.IsWorkspaceMutation := by
  refine handleRequests_sends fun m henabled => ?_
  refine calls_onSend (calls_authorised
    (show PlainIds (request.toRequest caller).params from hplain) D m henabled)
    fun r hr => ⟨fun hshell => ?_, fun hmutation => ?_⟩
  · have hon := (hr.1 hshell).2.1
    exact absurd (hon.symm.trans (not_allowsMutations sessionShell h)) (by decide)
  · have hon := (hr.2 hmutation).2.1
    exact absurd (hon.symm.trans (not_allowsMutations workspaceMutations h)) (by decide)

/-! ## §3  An id that is not plain -/

example : HttpRequest.IsWorkspaceMutation
    { verb := .delete, path := sessionPath "../experimental/workspace".toList "/share" } :=
  ⟨by decide, by decide⟩

/-- A claim that the session manager does not grant, nor find owned. -/
def IsRefusedClaim : Event Effect Effect.Answer Raised → Prop
  | ⟨.claim _ _, .error _⟩ => True
  | _ => False

/-- The payload is posted to the endpoint for shell lines of the session. -/
def SendsShell (s : Text) (payload : Mapping) : Event Effect Effect.Answer Raised → Prop
  | ⟨.send r, _⟩ =>
      r.verb = .post ∧ r.urlPath = sessionPath s "/shell" ∧ r.body = some (.obj payload)
  | _ => False

theorem urlPath_of_query {r : HttpRequest} {s rest : Text}
    (hpath : r.path = sessionPath s "/shell" ++ '?' :: rest) (hs : isPlain s = true) :
    r.urlPath = sessionPath s "/shell" := by
  have hshell : isPlain (sessionPath s "/shell") = true := isPlain_sessionPath hs (by decide)
  have hall : ∀ c ∈ sessionPath s "/shell", (c ≠ '?' && c ≠ '#') = true := by
    have h := hshell
    unfold isPlain at h
    rw [Bool.and_eq_true] at h
    exact List.all_eq_true.mp h.1
  unfold HttpRequest.urlPath
  rw [hpath, List.takeWhile_append_of_pos hall, List.takeWhile_cons_of_neg (by decide),
    List.append_nil, normalizePath_of_isPlain hshell]

theorem happens_within {P : Event Effect Effect.Answer Raised → Prop} {α β : Type}
    {g : SessionClaimGuard} {first : Action α} {second : α → Action β} {r : HttpRequest}
    (hfirst : first.AsksOnce (.send r)) (hclaim : ∀ a s x, P ⟨.claim a s, .error x⟩)
    (hsend : ∀ x, P ⟨.send r, x⟩) : Happens P (g.within first second) := by
  have hasks : Happens P first := by
    obtain ⟨k, rfl, -⟩ := hfirst
    exact happens_await fun x => .inl (hsend x)
  unfold SessionClaimGuard.within SessionClaimGuard.enter
  split
  · exact hasks.bind.ending.bind
  · refine happens_await fun x => ?_
    cases x with
    | error x => exact .inl (hclaim _ _ x)
    | ok pending => exact .inr hasks.bind.ending.bind

/-- With a session id that ends the path of the URL, a command goes to the endpoint for shell
lines, unless its claim fails; no capability is asked for. The concurrency budget or httpx may
still refuse to send it. -/
theorem command_reaches_shell {s rest : Text} {payload : Mapping} {p : ControlPlan}
    (hs : isPlain s = true)
    (hread : ControlMethod.readTarget request.params =
      .ok (s ++ "/shell".toList ++ '?' :: rest, payload))
    (hplan : ControlMethod.command.plan context request.params (s ++ "/shell".toList ++ '?' :: rest)
      payload = .ok p) (env : Surroundings) :
    ∃ x ∈ (ControlMethod.command.handle context request).events env,
      IsRefusedClaim x ∨ SendsShell s payload x := by
  have hp : p.sessionId = s ++ "/shell".toList ++ '?' :: rest ∧ p.request = payload := by
    obtain ⟨-, -, h⟩ := bind_eq_ok.mp hplan
    obtain ⟨routing, -, h⟩ := bind_eq_ok.mp h
    cases h
    exact ⟨rfl, rfl⟩
  have hurl : ∀ r : HttpRequest, r.path = sessionPath p.sessionId "/command" →
      r.urlPath = sessionPath s "/shell" := by
    intro r hr
    have hpath : r.path = sessionPath s "/shell" ++ '?' :: (rest ++ "/command".toList) := by
      unfold sessionPath at hr ⊢
      rw [hr, hp.1]
      simp only [List.append_assoc, List.cons_append]
    exact urlPath_of_query hpath hs
  refine Happens.exists_event ?_ env
  unfold ControlMethod.handle
  rw [hread]
  dsimp only
  rw [hplan, if_neg (by simp [ControlMethod.forbids])]
  refine Happens.bind (Happens.tryCatch (Happens.bind (happens_within
    ((asksOnce_sendJson _ _).bind fun raw => settled_messageResult _ _ raw) ?_ ?_)))
  · exact fun a s' x => .inl trivial
  · refine fun x => .inr ⟨rfl, hurl _ rfl, ?_⟩
    rw [hp.2]

theorem command_reaches_shell_query :
    ∃ x ∈ (ControlMethod.command.handle exampleContext
        { id := none
          params :=
            [("session_id".toList, .str "s1/shell?".toList),
              ("request".toList, .obj [("command".toList, .str "ls".toList),
                ("arguments".toList, .str "x".toList), ("agent".toList, .str "build".toList)])]
          caller := ⟨none, none, []⟩ }).events obliging,
      IsRefusedClaim x ∨ SendsShell "s1".toList
        [("command".toList, .str "ls".toList), ("arguments".toList, .str "x".toList),
          ("agent".toList, .str "build".toList)] x :=
  command_reaches_shell (s := "s1".toList)
    (p := ⟨"s1/shell?".toList, _, ⟨some "/srv".toList, none⟩⟩) (by decide) rfl rfl _

end Methods

end OpencodeA2a.Extension
