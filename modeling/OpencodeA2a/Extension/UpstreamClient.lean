import OpencodeA2a.Library.Entries
import OpencodeA2a.Extension.Effects
import OpencodeA2a.Jsonrpc.InterruptCallbacks

/-!
# The upstream client

`OpencodeUpstreamClient` as far as the extension methods use it: each method builds one
HTTP request, sends it, and takes the response apart. Where a request goes (`directory` or
`workspace`) is decided in two places only, `_query_params` and `_merge_params`.
-/

namespace OpencodeA2a.Extension

open OpencodeA2a.Stream (Text Json Mapping)
open OpencodeA2a.Effects
open OpencodeA2a.Jsonrpc (Routing)

/-! ## §1  The query -/

structure UpstreamClient where
  /-- `opencode_workspace_root` -/
  directory : Option Text

/-- A value of the query that a caller hands in. -/
inductive QueryValue where
  | text (t : Text)
  | int (n : ℤ)
  | bool (b : Bool)

/-- `value if isinstance(value, str) else str(value)` -/
def QueryValue.str : QueryValue → Text
  | .text t => t
  | .int n => (toString n).toList
  | .bool true => "True".toList
  | .bool false => "False".toList

namespace UpstreamClient

variable (client : UpstreamClient)

/-- `_query_params` -/
def queryParams (routing : Routing) : List (Text × Text) :=
  match routing.workspaceId.bind Stream.nonempty? with
  | some workspaceId => [("workspace".toList, workspaceId)]
  | none =>
      match (routing.directory.filter (· ≠ [])).or (client.directory.filter (· ≠ [])) with
      | none => []
      | some directory => [("directory".toList, directory)]

/-- `_merge_params` -/
def mergeParams (extra : List (Text × QueryValue)) (routing : Routing) : List (Text × Text) :=
  extra.foldl
    (fun params e =>
      if e.1 = "directory".toList ∨ e.1 = "workspace".toList then params
      else Entries.set params e.1 e.2.str)
    (client.queryParams routing)

end UpstreamClient

/-! ## §2  Sending -/

/-- `raise_for_status`: any status but those of success -/
def raiseForStatus (response : HttpResponse) : Action Unit :=
  if 200 ≤ response.status ∧ response.status < 300 then .returns ()
  else .raises (.httpStatusError response.status)

/-- `" ".join(body.split())` -/
def compact (t : Text) : Text := [' '].intercalate ((t.splitOnP Stream.isSpace).filter (· ≠ []))

/-- `_response_body_preview` -/
def responseBodyPreview (response : HttpResponse) : Text :=
  if response.text.strip = [] then "<empty>".toList
  else if (compact response.text.strip).length ≤ 200 then compact response.text.strip
  else (compact response.text.strip).take 197 ++ "...".toList

/-- `_decode_json_response` -/
def decodeJsonResponse (response : HttpResponse) (endpoint : String) : Action Json :=
  match response.json with
  | .value j => .returns j
  | .noText error => .raises (.valueError error)
  | .noJson =>
      let contentType := Text.strip (response.contentType.takeWhile (· ≠ ';'))
      .raises (.contractError (("OpenCode " ++ endpoint ++ " returned non-JSON response (status=").toList ++
        (toString response.status).toList ++ ", content-type=".toList ++
        (if contentType = [] then "unknown".toList else contentType) ++ ", body=".toList ++
        responseBodyPreview response ++ ")".toList))

def send (request : HttpRequest) : Action HttpResponse := Prog.call (A := Effect.Answer) (Effect.send request)

/-- `_get_json`, `_post_json` and `_delete_json`: one request and its decoded body. -/
def sendJson (request : HttpRequest) (endpoint : String) : Action Json := do
  let response ← send request
  raiseForStatus response
  decodeJsonResponse response endpoint

/-- `type(payload).__name__` -/
def typeName : Json → String
  | .null => "NoneType"
  | .bool _ => "bool"
  | .int _ => "int"
  | .float _ _ => "float"
  | .str _ => "str"
  | .arr _ => "list"
  | .obj _ => "dict"

def isBool : Json → Bool
  | .bool _ => true
  | _ => false

/-- `_require_boolean_response` -/
def requireBooleanResponse (endpoint : String) : Json → Action Bool
  | .bool b => .returns b
  | payload =>
      .raises (.other ("OpenCode " ++ endpoint ++ " response must be boolean; got " ++
        typeName payload).toList)

/-- `_post_boolean` -/
def sendBoolean (request : HttpRequest) (endpoint : String) : Action Bool := do
  requireBooleanResponse endpoint (← sendJson request endpoint)

/-! ## §3  The methods -/

/-- `/session/{session_id}` and what follows it -/
def sessionPath (sessionId : Text) (rest : String) : Text :=
  "/session/".toList ++ sessionId ++ rest.toList

namespace UpstreamClient

variable (client : UpstreamClient)

/-- A `GET` with the routing as its query. -/
def getRouted (path : Text) (endpoint : String) (routing : Routing) : Action Json :=
  sendJson { verb := .get, path, params := client.queryParams routing } endpoint

def postRouted (path : Text) (endpoint : String) (routing : Routing) (body : Option Json) :
    Action Json :=
  sendJson { verb := .post, path, params := client.queryParams routing, body } endpoint

def sessionStatus (routing : Routing) : Action Json :=
  client.getRouted "/session/status".toList "/session/status" routing

def getSession (sessionId : Text) (routing : Routing) : Action Json :=
  client.getRouted (sessionPath sessionId "") "/session/{sessionID}" routing

def listChildSessions (sessionId : Text) (routing : Routing) : Action Json :=
  client.getRouted (sessionPath sessionId "/children") "/session/{sessionID}/children" routing

def getSessionTodo (sessionId : Text) (routing : Routing) : Action Json :=
  client.getRouted (sessionPath sessionId "/todo") "/session/{sessionID}/todo" routing

def getSessionDiff (sessionId : Text) (params : List (Text × QueryValue)) (routing : Routing) :
    Action Json :=
  sendJson
    { verb := .get, path := sessionPath sessionId "/diff"
      params := client.mergeParams params routing }
    "/session/{sessionID}/diff"

def listSessions (params : List (Text × QueryValue)) (routing : Routing) : Action Json :=
  sendJson
    { verb := .get, path := "/session".toList, params := client.mergeParams params routing }
    "/session"

/-- `OpencodeMessagePage` -/
structure MessagePage where
  payload : Json
  nextCursor : Option Text

/-- `list_messages`, which takes no directory. -/
def listMessages (sessionId : Text) (params : List (Text × QueryValue))
    (workspaceId : Option Text) : Action MessagePage := do
  let response ← send
    { verb := .get, path := sessionPath sessionId "/message"
      params := client.mergeParams params ⟨none, workspaceId⟩ }
  raiseForStatus response
  let payload ← decodeJsonResponse response "/session/{sessionID}/message"
  return { payload, nextCursor := response.nextCursor.bind Stream.nonempty? }

def getMessage (sessionId messageId : Text) (routing : Routing) : Action Json :=
  client.getRouted (sessionPath sessionId "/message/" ++ messageId)
    "/session/{sessionID}/message/{messageID}" routing

def sessionPromptAsync (sessionId : Text) (request : Mapping) (routing : Routing) :
    Action Unit := do
  let response ← send
    { verb := .post, path := sessionPath sessionId "/prompt_async"
      params := client.queryParams routing, body := some (.obj request) }
  raiseForStatus response
  if response.status = 204 then return ()
  else
    .raises (.contractError ("OpenCode /session/{sessionID}/prompt_async must return 204; got ".toList ++
      (toString response.status).toList))

def sessionCommand (sessionId : Text) (request : Mapping) (routing : Routing) : Action Json :=
  client.postRouted (sessionPath sessionId "/command") "/session/{sessionID}/command" routing
    (some (.obj request))

def sessionShell (sessionId : Text) (request : Mapping) (routing : Routing) : Action Json :=
  client.postRouted (sessionPath sessionId "/shell") "/session/{sessionID}/shell" routing
    (some (.obj request))

def forkSession (sessionId : Text) (request : Mapping) (routing : Routing) : Action Json :=
  client.postRouted (sessionPath sessionId "/fork") "/session/{sessionID}/fork" routing
    (some (.obj request))

def shareSession (sessionId : Text) (routing : Routing) : Action Json :=
  client.postRouted (sessionPath sessionId "/share") "/session/{sessionID}/share" routing none

def unshareSession (sessionId : Text) (routing : Routing) : Action Json :=
  sendJson
    { verb := .delete, path := sessionPath sessionId "/share"
      params := client.queryParams routing }
    "/session/{sessionID}/share"

def summarizeSession (sessionId : Text) (request : Option Mapping) (routing : Routing) :
    Action Bool :=
  sendBoolean
    { verb := .post, path := sessionPath sessionId "/summarize"
      params := client.queryParams routing, body := request.map .obj }
    "/session/{sessionID}/summarize"

def revertSession (sessionId : Text) (request : Mapping) (routing : Routing) : Action Json :=
  client.postRouted (sessionPath sessionId "/revert") "/session/{sessionID}/revert" routing
    (some (.obj request))

def unrevertSession (sessionId : Text) (routing : Routing) : Action Json :=
  client.postRouted (sessionPath sessionId "/unrevert") "/session/{sessionID}/unrevert" routing none

def listProviderCatalog (routing : Routing) : Action Json :=
  client.getRouted "/provider".toList "/provider" routing

end UpstreamClient

/-! ## §4  Projects, workspaces and worktrees

None of these requests is routed.
-/

def workspacePath : String := "/experimental/workspace"

def worktreePath : String := "/experimental/worktree"

def listProjects : Action Json := sendJson { verb := .get, path := "/project".toList } "/project"

def getCurrentProject : Action Json :=
  sendJson { verb := .get, path := "/project/current".toList } "/project/current"

def listWorkspaces : Action Json :=
  sendJson { verb := .get, path := workspacePath.toList } workspacePath

def createWorkspace (request : Mapping) : Action Json :=
  sendJson { verb := .post, path := workspacePath.toList, body := some (.obj request) } workspacePath

def removeWorkspace (workspaceId : Text) : Action Json :=
  sendJson { verb := .delete, path := workspacePath.toList ++ '/' :: workspaceId }
    "/experimental/workspace/{id}"

def listWorktrees : Action Json :=
  sendJson { verb := .get, path := worktreePath.toList } worktreePath

def createWorktree (request : Mapping) : Action Json :=
  sendJson { verb := .post, path := worktreePath.toList, body := some (.obj request) } worktreePath

def removeWorktree (request : Mapping) : Action Bool :=
  sendBoolean { verb := .delete, path := worktreePath.toList, body := some (.obj request) } worktreePath

def resetWorktree (request : Mapping) : Action Bool :=
  sendBoolean
    { verb := .post, path := "/experimental/worktree/reset".toList, body := some (.obj request) }
    "/experimental/worktree/reset"

end OpencodeA2a.Extension
