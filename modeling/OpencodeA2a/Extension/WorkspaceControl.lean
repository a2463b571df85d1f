import OpencodeA2a.Extension.Queries

/-!
# Projects, workspaces and worktrees

`handle_workspace_control_request`. The methods that change something need a capability. None
of the requests is routed to a directory.
-/

namespace OpencodeA2a.Extension

open OpencodeA2a.Stream (Text Json Mapping)
open OpencodeA2a.Effects
open OpencodeA2a.Jsonrpc

def capabilityWorkspaceMutation : Text := "workspace_mutation".toList

/-! ## §1  What a request asks for -/

/-- `_missing_field_response`, which may name another field than the message. -/
def missingRequestField (field errorField : String) : RpcError :=
  .invalidParams ("Missing required params." ++ field).toList
    [entry "type" "MISSING_FIELD".toList, entry "field" errorField.toList]

/-- The field of the request is a string that is not blank. -/
def requireRequestText (request : Mapping) (field : String) : Except RpcError Unit :=
  if (Stream.extractOptionalString request field).isSome then .ok ()
  else
    .error (invalidField ("params.request." ++ field ++ " must be a non-empty string")
      ("request." ++ field))

/-- The loop over the fields that are strings or `null`. -/
def requireRequestStrings (request : Mapping) : List String → Except RpcError Unit
  | [] => .ok ()
  | field :: fields =>
      if (field? request field).all fun j => j.asStr?.isSome then requireRequestStrings request fields
      else
        .error (invalidField ("params.request." ++ field ++ " must be a string")
          ("request." ++ field))

namespace WorkspaceMethod

variable (method : WorkspaceMethod)

def text : Text := (ExtensionMethod.workspace method).text

def isMutating : Bool := method ∈ workspaceMutationMethods

def hasRequest : Bool := method.isMutating && method ≠ .removeWorkspace

/-- `_validate_allowed_fields` -/
def allowedFields : List String :=
  ["metadata"] ++ (if method.hasRequest then ["request"] else []) ++
    if method = .removeWorkspace then ["workspace_id"] else []

def requestFields : List String :=
  match method with
  | .createWorkspace => ["id", "type", "branch", "extra"]
  | .createWorktree => ["name", "startCommand"]
  | .removeWorktree | .resetWorktree => ["directory"]
  | _ => []

/-- `_validate_workspace_request` -/
def validateRequest (request : Mapping) : Except RpcError Unit := do
  match method with
  | .createWorkspace =>
      if (request.get? "type").isNone then throw (missingRequestField "request.type" "request")
      requireRequestText request "type"
  | .removeWorktree | .resetWorktree => requireRequestText request "directory"
  | _ => .ok ()
  rejectUnknownFields request method.requestFields "request." "Unsupported request fields"
  requireRequestStrings request ["id", "type", "branch", "name", "startCommand", "directory"]

/-- `_parse_required_request_object` -/
def parseRequest (params : Mapping) : Except RpcError Mapping :=
  match field? params "request" with
  | none => .error (missingRequestField "request" "request")
  | some (.obj request) => .ok request
  | some _ => .error (invalidField "params.request must be an object" "request")

end WorkspaceMethod

/-- The method with what it needs. -/
inductive WorkspaceOperation where
  | listProjects
  | getCurrentProject
  | listWorkspaces
  | listWorktrees
  | createWorkspace (request : Mapping)
  | removeWorkspace (workspaceId : Text)
  | createWorktree (request : Mapping)
  | removeWorktree (request : Mapping)
  | resetWorktree (request : Mapping)

def WorkspaceOperation.method : WorkspaceOperation → WorkspaceMethod
  | .listProjects => .listProjects
  | .getCurrentProject => .getCurrentProject
  | .listWorkspaces => .listWorkspaces
  | .listWorktrees => .listWorktrees
  | .createWorkspace _ => .createWorkspace
  | .removeWorkspace _ => .removeWorkspace
  | .createWorktree _ => .createWorktree
  | .removeWorktree _ => .removeWorktree
  | .resetWorktree _ => .resetWorktree

namespace WorkspaceMethod

variable (method : WorkspaceMethod)

/-- The request of a method that has one, validated. -/
def checkedRequest (params : Mapping) : Except RpcError Mapping := do
  let request ← parseRequest params
  method.validateRequest request
  return request

def operation (params : Mapping) : Except RpcError WorkspaceOperation :=
  match method with
  | .listProjects => .ok .listProjects
  | .getCurrentProject => .ok .getCurrentProject
  | .listWorkspaces => .ok .listWorkspaces
  | .listWorktrees => .ok .listWorktrees
  | .createWorkspace => .createWorkspace <$> method.checkedRequest params
  | .removeWorkspace =>
      match Stream.extractOptionalString params "workspace_id" with
      | some workspaceId => .ok (.removeWorkspace workspaceId)
      | none => .error (missingRequestField "workspace_id" "workspace_id")
  | .createWorktree => .createWorktree <$> method.checkedRequest params
  | .removeWorktree => .removeWorktree <$> method.checkedRequest params
  | .resetWorktree => .resetWorktree <$> method.checkedRequest params

/-- The caller may not change workspaces. -/
def forbids (caller : Caller) : Bool :=
  method.isMutating && !caller.hasCapability capabilityWorkspaceMutation

/-- Everything that is checked, in order. -/
def plan (request : Request) : Except RpcError WorkspaceOperation := do
  if method.forbids request.caller then
    throw (authorizationForbiddenError method.text capabilityWorkspaceMutation
      request.caller.userCredentialId)
  rejectUnknownFields request.params method.allowedFields
  method.operation request.params

end WorkspaceMethod

/-! ## §2  What goes to the client -/

/-- `_pick_summary_fields` -/
def pickSummaryFields (item : Mapping) (allowed : List String) : Mapping :=
  allowed.flatMap fun key => optionalEntry key (field? item key)

/-- `_project_summary`, `_workspace_summary` and `_worktree_summary`: the kind of the item, the
field that it must have, and those that are shown. -/
def itemSummary (kind required : String) (shown : List String) : Json → Except Text Json
  | .obj m =>
      if (Stream.extractOptionalString m required).isSome then .ok (.obj (pickSummaryFields m shown))
      else .error ("Upstream " ++ kind ++ " items must include string field '" ++ required ++ "'").toList
  | _ => .error ("Upstream " ++ kind ++ " items must be objects").toList

def projectSummary : Json → Except Text Json := itemSummary "project" "id" ["id", "name", "vcs"]

def workspaceSummary : Json → Except Text Json :=
  itemSummary "workspace" "id" ["id", "type", "name", "branch"]

def worktreeSummary : Json → Except Text Json := itemSummary "worktree" "name" ["name", "branch"]

def listPayload (summary : Json → Except Text Json) : Json → Except Text Mapping
  | .arr items => do return [("items".toList, .arr (← items.mapM summary))]
  | _ => .error "Upstream list response must be an array".toList

def itemPayload (summary : Json → Except Text Json) : Json → Except Text Mapping
  | .null => .ok [("item".toList, .null)]
  | .obj m => do return [("item".toList, ← summary (.obj m))]
  | _ => .error "Upstream item response must be an object or null".toList

def boolPayload : Json → Except Text Mapping
  | .bool b => .ok [("ok".toList, .bool b)]
  | _ => .error "Upstream boolean response must be a boolean".toList

/-- `_normalize_response_payload` -/
def WorkspaceMethod.normalizeResponsePayload : WorkspaceMethod → Json → Except Text Mapping
  | .listProjects => listPayload projectSummary
  | .listWorkspaces => listPayload workspaceSummary
  | .listWorktrees => listPayload worktreeSummary
  | .getCurrentProject => itemPayload projectSummary
  | .createWorktree => itemPayload worktreeSummary
  | .createWorkspace | .removeWorkspace => itemPayload workspaceSummary
  | .removeWorktree | .resetWorktree => boolPayload

/-! ## §3  The handler -/

/-- `_invoke_workspace_method` -/
def WorkspaceOperation.invoke : WorkspaceOperation → Action Json
  | .listProjects => Extension.listProjects
  | .getCurrentProject => Extension.getCurrentProject
  | .listWorkspaces => Extension.listWorkspaces
  | .listWorktrees => Extension.listWorktrees
  | .createWorkspace request => Extension.createWorkspace request
  | .removeWorkspace workspaceId => Extension.removeWorkspace workspaceId
  | .createWorktree request => Extension.createWorktree request
  | .removeWorktree request => do return .bool (← Extension.removeWorktree request)
  | .resetWorktree request => do return .bool (← Extension.resetWorktree request)

/-- `handle_workspace_control_request` -/
def WorkspaceMethod.handle (method : WorkspaceMethod) (request : Request) : Action Reply :=
  match method.plan request with
  | .error e => return request.reject e
  | .ok operation => do
      match ← invokeUpstreamOrError ⟨⟨some method.text, none⟩, false, none, none⟩ operation.invoke with
      | .error e => return request.reject e
      | .ok .null =>
          .raises (.contractError "OpenCode workspace control returned no payload".toList)
      | .ok payload =>
          replyWith request
            (projected ⟨some method.text, none⟩ (method.normalizeResponsePayload payload))

end OpencodeA2a.Extension
