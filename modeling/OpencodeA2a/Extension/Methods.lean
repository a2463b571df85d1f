import OpencodeA2a.Library.Dict
import OpencodeA2a.Library.Table
import OpencodeA2a.Extension.RequestPayloads
import OpencodeA2a.Server.ExtensionNegotiation
import OpencodeA2a.Server.SandboxPolicy

/-!
# The extension methods

Which JSON-RPC methods a deployment has beside those of the SDK, and which handler and which
extension each belongs to: `contracts/extensions/capabilities.py` and the registry of
`jsonrpc/dispatch.py`.
-/

namespace OpencodeA2a.Extension

open OpencodeA2a.Stream (Text Json Mapping)
open OpencodeA2a.Jsonrpc (CallbackMethod)
open OpencodeA2a.Server (extensionUriNamespace interruptCallbackExtensionUri SandboxPolicy FileSystem)

/-! ## §1  Methods -/

inductive LifecycleMethod where
  | sessionStatus
  | getSession
  | getSessionChildren
  | getSessionTodo
  | getSessionDiff
  | getSessionMessage
  | forkSession
  | shareSession
  | unshareSession
  | summarizeSession
  | revertSession
  | unrevertSession
deriving DecidableEq

inductive QueryMethod where
  | listSessions
  | getSessionMessages
deriving DecidableEq

inductive DiscoveryMethod where
  | listProviders
  | listModels
deriving DecidableEq

inductive InterruptQueryMethod where
  | listPermissions
  | listQuestions
deriving DecidableEq

inductive WorkspaceMethod where
  | listProjects
  | getCurrentProject
  | listWorkspaces
  | listWorktrees
  | createWorkspace
  | removeWorkspace
  | createWorktree
  | removeWorktree
  | resetWorktree
deriving DecidableEq

/-- The methods by their handlers. -/
inductive ExtensionMethod where
  | lifecycle (m : LifecycleMethod)
  | query (m : QueryMethod)
  | discovery (m : DiscoveryMethod)
  | interruptQuery (m : InterruptQueryMethod)
  | workspace (m : WorkspaceMethod)
  | control (m : ControlMethod)
  | callback (m : CallbackMethod)
deriving DecidableEq

def ExtensionMethod.name : ExtensionMethod → String
  | .lifecycle .sessionStatus => "opencode.sessions.status"
  | .lifecycle .getSession => "opencode.sessions.get"
  | .lifecycle .getSessionChildren => "opencode.sessions.children"
  | .lifecycle .getSessionTodo => "opencode.sessions.todo"
  | .lifecycle .getSessionDiff => "opencode.sessions.diff"
  | .lifecycle .getSessionMessage => "opencode.sessions.messages.get"
  | .lifecycle .forkSession => "opencode.sessions.fork"
  | .lifecycle .shareSession => "opencode.sessions.share"
  | .lifecycle .unshareSession => "opencode.sessions.unshare"
  | .lifecycle .summarizeSession => "opencode.sessions.summarize"
  | .lifecycle .revertSession => "opencode.sessions.revert"
  | .lifecycle .unrevertSession => "opencode.sessions.unrevert"
  | .query .listSessions => "opencode.sessions.list"
  | .query .getSessionMessages => "opencode.sessions.messages.list"
  | .discovery .listProviders => "opencode.providers.list"
  | .discovery .listModels => "opencode.models.list"
  | .interruptQuery .listPermissions => "opencode.permissions.list"
  | .interruptQuery .listQuestions => "opencode.questions.list"
  | .workspace .listProjects => "opencode.projects.list"
  | .workspace .getCurrentProject => "opencode.projects.current"
  | .workspace .listWorkspaces => "opencode.workspaces.list"
  | .workspace .listWorktrees => "opencode.worktrees.list"
  | .workspace .createWorkspace => "opencode.workspaces.create"
  | .workspace .removeWorkspace => "opencode.workspaces.remove"
  | .workspace .createWorktree => "opencode.worktrees.create"
  | .workspace .removeWorktree => "opencode.worktrees.remove"
  | .workspace .resetWorktree => "opencode.worktrees.reset"
  | .control .promptAsync => "opencode.sessions.prompt_async"
  | .control .command => "opencode.sessions.command"
  | .control .shell => "opencode.sessions.shell"
  | .callback .replyPermission => "a2a.interrupt.permission.reply"
  | .callback .replyQuestion => "a2a.interrupt.question.reply"
  | .callback .rejectQuestion => "a2a.interrupt.question.reject"

theorem ExtensionMethod.name_injective : Function.Injective ExtensionMethod.name := by
  intro m n h
  rcases m with (m | m | m | m | m | m | m) <;> rcases n with (n | n | n | n | n | n | n) <;>
    cases m <;> cases n <;> first | rfl | simp [ExtensionMethod.name] at h

/-- `context.method_shell` and the like, as they come with a request -/
def ExtensionMethod.text (m : ExtensionMethod) : Text := m.name.toList

theorem ExtensionMethod.text_injective : Function.Injective ExtensionMethod.text := fun _ _ h =>
  name_injective (String.toList_inj.mp h)

/-! ## §2  What a deployment offers -/

/-- The switches of the runtime profile. -/
structure Deployment where
  sessionShell : Bool
  workspaceMutations : Bool

/-- `build_runtime_profile`, as far as it decides about methods. -/
def Deployment.ofPolicy {fs : FileSystem} (policy : SandboxPolicy fs)
    (enableSessionShell enableWorkspaceMutations : Bool) : Deployment where
  sessionShell := policy.allowsMutations enableSessionShell
  workspaceMutations := policy.allowsMutations enableWorkspaceMutations

def sessionMethods : List ExtensionMethod :=
  [.lifecycle .sessionStatus, .query .listSessions, .query .getSessionMessages,
    .lifecycle .getSession, .lifecycle .getSessionChildren, .lifecycle .getSessionTodo,
    .lifecycle .getSessionDiff, .lifecycle .getSessionMessage, .control .promptAsync,
    .control .command, .lifecycle .forkSession, .lifecycle .shareSession,
    .lifecycle .unshareSession, .lifecycle .summarizeSession, .lifecycle .revertSession,
    .lifecycle .unrevertSession, .control .shell]

def workspaceDiscoveryMethods : List WorkspaceMethod :=
  [.listProjects, .getCurrentProject, .listWorkspaces, .listWorktrees]

def workspaceMutationMethods : List WorkspaceMethod :=
  [.createWorkspace, .removeWorkspace, .createWorktree, .removeWorktree, .resetWorktree]

namespace Deployment

variable (d : Deployment)

/-- `is_method_enabled` -/
def isMethodEnabled : ExtensionMethod → Bool
  | .control .shell => d.sessionShell
  | .workspace m => m ∉ workspaceMutationMethods || d.workspaceMutations
  | _ => true

/-- `workspace_control_methods` -/
def workspaceControlMethods : List ExtensionMethod :=
  workspaceDiscoveryMethods.map .workspace ++
    (workspaceMutationMethods.map .workspace).filter d.isMethodEnabled

/-- `extension_jsonrpc_methods` -/
def extensionJsonrpcMethods : List ExtensionMethod :=
  sessionMethods.filter (· ≠ .control .shell) ++
    [.discovery .listProviders, .discovery .listModels] ++ d.workspaceControlMethods ++
    [.interruptQuery .listPermissions, .interruptQuery .listQuestions] ++
    [.callback .replyPermission, .callback .replyQuestion, .callback .rejectQuestion] ++
    if d.isMethodEnabled (.control .shell) then [.control .shell] else []

theorem mem_extensionJsonrpcMethods {m : ExtensionMethod} :
    m ∈ d.extensionJsonrpcMethods ↔ d.isMethodEnabled m = true := by
  obtain ⟨shell, mutations⟩ := d
  rcases m with (m | m | m | m | m | m | m) <;> cases m <;> cases shell <;> cases mutations <;>
    decide

end Deployment

/-! ## §3  The registry -/

structure ExtensionMethodSpec where
  name : Text
  methods : List ExtensionMethod
  extensionUri : Text

def sessionManagementExtensionUri : Text := (extensionUriNamespace ++ "session-management:v1").toList

def providerDiscoveryExtensionUri : Text := (extensionUriNamespace ++ "provider-discovery:v1").toList

def interruptRecoveryExtensionUri : Text := (extensionUriNamespace ++ "interrupt-recovery:v1").toList

def workspaceControlExtensionUri : Text := (extensionUriNamespace ++ "workspace-control:v1").toList

/-- `_method_map`: a method as it is written, with its specification -/
abbrev ExtensionMethodRegistry : Type := List (Text × ExtensionMethodSpec × ExtensionMethod)

/-- The loop over the methods of one specification. -/
def registerMethods (spec : ExtensionMethodSpec) :
    ExtensionMethodRegistry → List ExtensionMethod → Except Text ExtensionMethodRegistry
  | registry, [] => .ok registry
  | registry, m :: methods =>
      match registry.lookup m.text with
      | some (existing, _) =>
          .error ("Extension method '".toList ++ m.text ++ "' registered by both '".toList ++
            existing.name ++ "' and '".toList ++ spec.name ++ "'".toList)
      | none => registerMethods spec (registry ++ [(m.text, spec, m)]) methods

/-- `ExtensionMethodRegistry.__init__` -/
def registerSpecs :
    ExtensionMethodRegistry → List ExtensionMethodSpec → Except Text ExtensionMethodRegistry
  | registry, [] => .ok registry
  | registry, spec :: specs => do
      registerSpecs (← registerMethods spec registry spec.methods) specs

/-- The specifications of `build_extension_method_registry`. -/
def Deployment.specs (d : Deployment) : List ExtensionMethodSpec :=
  [{ name := "session_lifecycle".toList
     methods := [.sessionStatus, .getSession, .getSessionChildren, .getSessionTodo, .getSessionDiff,
       .getSessionMessage, .forkSession, .shareSession, .unshareSession, .summarizeSession,
       .revertSession, .unrevertSession].map .lifecycle
     extensionUri := sessionManagementExtensionUri },
   { name := "session_listing".toList
     methods := [.query .listSessions, .query .getSessionMessages]
     extensionUri := sessionManagementExtensionUri },
   { name := "provider_discovery".toList
     methods := [.discovery .listProviders, .discovery .listModels]
     extensionUri := providerDiscoveryExtensionUri },
   { name := "interrupt_query".toList
     methods := [.interruptQuery .listPermissions, .interruptQuery .listQuestions]
     extensionUri := interruptRecoveryExtensionUri },
   { name := "workspace_control".toList
     methods := d.workspaceControlMethods
     extensionUri := workspaceControlExtensionUri },
   { name := "session_control".toList
     methods := [.control .promptAsync, .control .command] ++
       if d.isMethodEnabled (.control .shell) then [.control .shell] else []
     extensionUri := sessionManagementExtensionUri },
   { name := "interrupt_callback".toList
     methods := [.callback .replyPermission, .callback .replyQuestion, .callback .rejectQuestion]
     extensionUri := interruptCallbackExtensionUri }]

/-- `build_extension_method_registry` -/
def Deployment.registry (d : Deployment) : Except Text ExtensionMethodRegistry :=
  registerSpecs [] d.specs

/-- `resolve`, in the registry that the deployment has built. -/
def Deployment.resolve (d : Deployment) (name : Text) :
    Option (ExtensionMethodSpec × ExtensionMethod) :=
  match d.registry with
  | .ok registry => registry.lookup name
  | .error _ => none

/-! ## §4  What is registered -/

def ExtensionMethodSpec.entries (spec : ExtensionMethodSpec) (methods : List ExtensionMethod) :
    ExtensionMethodRegistry :=
  methods.map fun m => (m.text, spec, m)

theorem ExtensionMethodSpec.keys_entries (spec : ExtensionMethodSpec)
    (methods : List ExtensionMethod) :
    (spec.entries methods).map Prod.fst = methods.map ExtensionMethod.text := by
  simp [entries, Function.comp_def]

theorem registerMethods_eq_ok {spec : ExtensionMethodSpec} {registry r : ExtensionMethodRegistry}
    {methods : List ExtensionMethod} (hnodup : (registry.map Prod.fst).Nodup) :
    registerMethods spec registry methods = .ok r ↔
      (r.map Prod.fst).Nodup ∧ r = registry ++ spec.entries methods := by
  induction methods generalizing registry with
  | nil =>
      constructor
      · intro h
        cases h
        exact ⟨hnodup, (List.append_nil _).symm⟩
      · rintro ⟨-, rfl⟩
        exact congrArg Except.ok (List.append_nil registry).symm
  | cons m methods ih =>
      unfold registerMethods
      have hassoc : registry ++ spec.entries (m :: methods) =
          (registry ++ [(m.text, spec, m)]) ++ spec.entries methods :=
        (List.append_assoc _ [_] _).symm
      split
      · rename_i existing other hlookup
        refine iff_of_false (by rintro ⟨⟩) ?_
        rintro ⟨hr, rfl⟩
        rw [List.map_append, List.nodup_append] at hr
        exact hr.2.2 m.text (List.mem_map_of_mem (Entries.mem_of_lookup hlookup)) m.text
          List.mem_cons_self rfl
      · rename_i hlookup
        rw [hassoc]
        refine ih ?_
        rw [List.map_append, List.nodup_append]
        refine ⟨hnodup, List.nodup_singleton _, ?_⟩
        rintro a ha b hb rfl
        rw [List.mem_singleton.mp hb] at ha
        obtain ⟨e, he, hkey⟩ := List.mem_map.mp ha
        have hentry : (m.text, e.2) = e := Prod.ext hkey.symm rfl
        have hsome : registry.lookup m.text = some e.2 :=
          (Dict.lookup_eq_some hnodup).mpr (hentry ▸ he)
        exact absurd (hlookup.symm.trans hsome) (by rintro ⟨⟩)

/-- A registry is built exactly when no method comes twice, and then it has every method with
its specification. -/
theorem registerSpecs_eq_ok {registry r : ExtensionMethodRegistry}
    {specs : List ExtensionMethodSpec} (hnodup : (registry.map Prod.fst).Nodup) :
    registerSpecs registry specs = .ok r ↔
      (r.map Prod.fst).Nodup ∧
        r = registry ++ specs.flatMap fun spec => spec.entries spec.methods := by
  induction specs generalizing registry with
  | nil =>
      constructor
      · intro h
        cases h
        exact ⟨hnodup, (List.append_nil _).symm⟩
      · rintro ⟨-, rfl⟩
        exact congrArg Except.ok (List.append_nil registry).symm
  | cons spec specs ih =>
      refine bind_eq_ok.trans ?_
      rw [List.flatMap_cons, ← List.append_assoc]
      constructor
      · rintro ⟨registry', hmethods, hspecs⟩
        obtain ⟨hnodup', rfl⟩ := (registerMethods_eq_ok hnodup).mp hmethods
        exact (ih hnodup').mp hspecs
      · rintro ⟨hr, rfl⟩
        have hnodup' : ((registry ++ spec.entries spec.methods).map Prod.fst).Nodup := by
          rw [List.map_append, List.nodup_append] at hr
          exact hr.1
        exact ⟨_, (registerMethods_eq_ok hnodup).mpr ⟨hnodup', rfl⟩, (ih hnodup').mpr ⟨hr, rfl⟩⟩

namespace Deployment

variable (d : Deployment)

theorem nodup_methods : (d.specs.flatMap ExtensionMethodSpec.methods).Nodup := by
  obtain ⟨shell, mutations⟩ := d
  cases shell <;> cases mutations <;> decide

theorem mem_methods {m : ExtensionMethod} :
    m ∈ d.specs.flatMap ExtensionMethodSpec.methods ↔ d.isMethodEnabled m = true := by
  obtain ⟨shell, mutations⟩ := d
  rcases m with (m | m | m | m | m | m | m) <;> cases m <;> cases shell <;> cases mutations <;>
    decide

theorem nodup_keys :
    ((d.specs.flatMap fun spec => spec.entries spec.methods).map Prod.fst).Nodup := by
  have hkeys : (d.specs.flatMap fun spec => spec.entries spec.methods).map Prod.fst =
      (d.specs.flatMap ExtensionMethodSpec.methods).map ExtensionMethod.text := by
    rw [List.map_flatMap, List.map_flatMap]
    exact List.flatMap_congr fun spec _ => spec.keys_entries spec.methods
  rw [hkeys]
  exact d.nodup_methods.map ExtensionMethod.text_injective

theorem registry_eq :
    d.registry = .ok (d.specs.flatMap fun spec => spec.entries spec.methods) := by
  have hempty : (([] : ExtensionMethodRegistry).map Prod.fst).Nodup := List.nodup_nil
  exact (registerSpecs_eq_ok hempty).mpr ⟨d.nodup_keys, rfl⟩

theorem resolve_eq_some {name : Text} {spec : ExtensionMethodSpec} {m : ExtensionMethod} :
    d.resolve name = some (spec, m) ↔ spec ∈ d.specs ∧ m ∈ spec.methods ∧ m.text = name := by
  unfold resolve
  rw [d.registry_eq]
  refine (Dict.lookup_eq_some d.nodup_keys).trans ?_
  rw [List.mem_flatMap]
  constructor
  · rintro ⟨spec', hspec, hentry⟩
    obtain ⟨m', hm, he⟩ := List.mem_map.mp hentry
    cases he
    exact ⟨hspec, hm, rfl⟩
  · rintro ⟨hspec, hm, rfl⟩
    exact ⟨spec, hspec, List.mem_map.mpr ⟨m, hm, rfl⟩⟩

/-- A method is found exactly when the deployment offers it. -/
theorem resolve_text {m m' : ExtensionMethod} {spec : ExtensionMethodSpec}
    (h : d.resolve m.text = some (spec, m')) : m' = m ∧ d.isMethodEnabled m = true := by
  obtain ⟨hspec, hm, htext⟩ := d.resolve_eq_some.mp h
  obtain rfl := ExtensionMethod.text_injective htext
  exact ⟨rfl, d.mem_methods.mp (List.mem_flatMap.mpr ⟨spec, hspec, hm⟩)⟩

theorem isSome_resolve {m : ExtensionMethod} :
    (d.resolve m.text).isSome = true ↔ d.isMethodEnabled m = true := by
  constructor
  · intro h
    obtain ⟨⟨spec, m'⟩, hresolve⟩ := Option.isSome_iff_exists.mp h
    exact (d.resolve_text hresolve).2
  · intro h
    obtain ⟨spec, hspec, hm⟩ := List.mem_flatMap.mp (d.mem_methods.mpr h)
    exact Option.isSome_iff_exists.mpr ⟨(spec, m), d.resolve_eq_some.mpr ⟨hspec, hm, rfl⟩⟩

end Deployment

end OpencodeA2a.Extension
