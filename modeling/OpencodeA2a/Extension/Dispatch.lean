import OpencodeA2a.Extension.InterruptReplies
import OpencodeA2a.Extension.SessionControl
import OpencodeA2a.Extension.SessionLifecycle
import OpencodeA2a.Extension.WorkspaceControl

/-!
# The dispatch of extension methods

`handle_requests` of the JSON-RPC application, from the validated request on: a method of the
registry goes to its handler if the client has asked for the extension, any other method goes
to the core.
-/

namespace OpencodeA2a.Extension

open OpencodeA2a.Stream (Text Json Mapping)
open OpencodeA2a.Effects
open OpencodeA2a.Jsonrpc
open OpencodeA2a.Server (ServerCallContext requestedExtensionsFromCallContext
  interruptCallbackExtensionUri)

/-! ## §1  Handlers -/

/-- The handler of the method. -/
def ExtensionMethod.handle (D : Numerals) (context : HandlerContext) (request : Request) :
    ExtensionMethod → Action Reply
  | .lifecycle m => m.handle context request
  | .query m => m.handle D context request
  | .discovery m => m.handle context request
  | .interruptQuery m => m.handle request
  | .workspace m => m.handle request
  | .control m => m.handle context request
  | .callback m => handleInterruptCallback m context request

/-! ## §2  Dispatch -/

/-- `JSONRPCRequest` -/
structure JsonRpcRequest where
  id : Option Json
  method : Text
  params : Option Mapping

/-- What a client asks for, as the handlers get it. -/
def JsonRpcRequest.toRequest (request : JsonRpcRequest) (caller : Caller) : Request where
  id := request.id
  params := request.params.getD []
  caller := caller

/-- What becomes of a request. -/
inductive Dispatched where
  /-- `_handle_core_request` -/
  | core
  /-- `UnsupportedOperationError` -/
  | refused (message : Text) (data : Mapping)
  /-- the extension is activated, and the handler runs -/
  | handled (extensionUri : Text) (method : ExtensionMethod) (action : Action Reply)

/-- The error for an extension that the client has not asked for. -/
def negotiationRequired (method extensionUri : Text) (requested : List Text) : Dispatched :=
  .refused
    ("Method ".toList ++ method ++
      " requires explicit A2A extension negotiation via the A2A-Extensions header.".toList)
    [entry "type" "EXTENSION_NEGOTIATION_REQUIRED".toList, entry "method" method,
      ("required_extensions".toList, .arr [.str extensionUri]),
      ("requested_extensions".toList, .arr ((requested.insertionSort (· ≤ ·)).map .str)),
      entry "header" "A2A-Extensions".toList]

/-- `handle_requests` -/
def handleRequests (d : Deployment) (D : Numerals) (context : HandlerContext)
    (callContext : Option ServerCallContext) (caller : Caller) (request : JsonRpcRequest) :
    Dispatched :=
  match d.resolve request.method with
  | none => .core
  | some (spec, method) =>
      let requested := requestedExtensionsFromCallContext callContext
      if spec.extensionUri ∉ requested then
        negotiationRequired request.method spec.extensionUri requested
      else
        .handled spec.extensionUri method
          (method.handle D context (request.toRequest caller))

/-! ## §3  What is dispatched -/

/-- The extension that a method belongs to. -/
def ExtensionMethod.extensionUri : ExtensionMethod → Text
  | .lifecycle _ | .query _ | .control _ => sessionManagementExtensionUri
  | .discovery _ => providerDiscoveryExtensionUri
  | .interruptQuery _ => interruptRecoveryExtensionUri
  | .workspace _ => workspaceControlExtensionUri
  | .callback _ => interruptCallbackExtensionUri

theorem extensionUri_of_mem {d : Deployment} {spec : ExtensionMethodSpec} {m : ExtensionMethod}
    (hspec : spec ∈ d.specs) (hm : m ∈ spec.methods) : spec.extensionUri = m.extensionUri := by
  have hworkspace : ∀ m ∈ d.workspaceControlMethods, ∃ w, m = .workspace w := by
    intro m hm
    rcases List.mem_append.mp hm with hm | hm
    · obtain ⟨w, -, rfl⟩ := List.mem_map.mp hm
      exact ⟨w, rfl⟩
    · obtain ⟨w, -, rfl⟩ := List.mem_map.mp (List.mem_filter.mp hm).1
      exact ⟨w, rfl⟩
  have hcontrol : ∀ m ∈ [ExtensionMethod.control .promptAsync, .control .command] ++
      (if d.isMethodEnabled (.control .shell) then [.control .shell] else []),
      ∃ c, m = .control c := by
    intro m hm
    rcases List.mem_append.mp hm with hm | hm
    · rcases List.mem_pair.mp hm with rfl | rfl
      · exact ⟨_, rfl⟩
      · exact ⟨_, rfl⟩
    · split at hm
      · exact ⟨_, List.mem_singleton.mp hm⟩
      · cases hm
  simp only [Deployment.specs, List.mem_cons, List.not_mem_nil, or_false] at hspec
  rcases hspec with rfl | rfl | rfl | rfl | rfl | rfl | rfl
  · obtain ⟨m, -, rfl⟩ := List.mem_map.mp hm
    rfl
  · rcases List.mem_pair.mp hm with rfl | rfl <;> rfl
  · rcases List.mem_pair.mp hm with rfl | rfl <;> rfl
  · rcases List.mem_pair.mp hm with rfl | rfl <;> rfl
  · obtain ⟨w, rfl⟩ := hworkspace m hm
    rfl
  · obtain ⟨c, rfl⟩ := hcontrol m hm
    rfl
  · simp only [List.mem_cons, List.not_mem_nil, or_false] at hm
    rcases hm with rfl | rfl | rfl <;> rfl

section Resolved

variable {d : Deployment} {D : Numerals} {context : HandlerContext}
  {callContext : Option ServerCallContext} {caller : Caller} {request : JsonRpcRequest}
  {spec : ExtensionMethodSpec} {m : ExtensionMethod}

theorem handleRequests_of_none (hresolve : d.resolve request.method = none) :
    handleRequests d D context callContext caller request = .core := by
  unfold handleRequests
  rw [hresolve]

/-- What becomes of a request whose method is registered. -/
theorem handleRequests_of_resolve (hresolve : d.resolve request.method = some (spec, m)) :
    handleRequests d D context callContext caller request =
      if spec.extensionUri ∈ requestedExtensionsFromCallContext callContext then
        .handled spec.extensionUri m (m.handle D context (request.toRequest caller))
      else negotiationRequired request.method spec.extensionUri
        (requestedExtensionsFromCallContext callContext) := by
  unfold handleRequests
  rw [hresolve]
  exact ite_not _ _ _

end Resolved

/-- The methods that the server says it offers are those that it dispatches, and each goes to its
own handler once its extension is asked for. -/
theorem handleRequests_dispatches (d : Deployment) (D : Numerals) (context : HandlerContext)
    (callContext : Option ServerCallContext) (caller : Caller) (request : JsonRpcRequest) :
    (∃ m ∈ d.extensionJsonrpcMethods, m.text = request.method ∧
      handleRequests d D context callContext caller request =
        if m.extensionUri ∈ requestedExtensionsFromCallContext callContext then
          .handled m.extensionUri m (m.handle D context (request.toRequest caller))
        else negotiationRequired request.method m.extensionUri
          (requestedExtensionsFromCallContext callContext)) ∨
      ((∀ m ∈ d.extensionJsonrpcMethods, m.text ≠ request.method) ∧
        handleRequests d D context callContext caller request = .core) := by
  cases hresolve : d.resolve request.method with
  | none =>
      refine .inr ⟨fun m hm htext => ?_, ?_⟩
      · have hsome := d.isSome_resolve.mpr (d.mem_extensionJsonrpcMethods.mp hm)
        rw [htext, hresolve] at hsome
        cases hsome
      · exact handleRequests_of_none hresolve
  | some found =>
      obtain ⟨spec, m⟩ := found
      obtain ⟨hspec, hm, htext⟩ := d.resolve_eq_some.mp hresolve
      have henabled : d.isMethodEnabled m = true := (d.resolve_text (htext ▸ hresolve)).2
      refine .inl ⟨m, d.mem_extensionJsonrpcMethods.mpr henabled, htext, ?_⟩
      rw [handleRequests_of_resolve hresolve, extensionUri_of_mem hspec hm]

end OpencodeA2a.Extension
