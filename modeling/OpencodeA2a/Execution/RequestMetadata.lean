import OpencodeA2a.Server.RequestHandler

/-!
# What the executor takes from a request's metadata

`OpencodeAgentExecutor.execute` reads the metadata of the request and of its message
once more, on its own: the session to bind, the model, the directory and the workspace.
The handler's extension gate stands before it.
-/

namespace OpencodeA2a.Execution

open OpencodeA2a.Stream OpencodeA2a.Server

/-! ## §1  The executor's reading -/

/-- The SDK's request context, as far as `execute` reads metadata from it. -/
structure RequestContext where
  contextId : Text
  metadata : Json
  message : Option RequestMessage

/-- `metadata_sources`. What is no mapping is left out. -/
def metadataSources (context : RequestContext) : List Json :=
  [context.metadata, (context.message.map RequestMessage.metadata).getD .null].filter
    fun metadata => metadata.asMapping?.isSome

/-- What the caller supplies: the values that `execute` reads. -/
structure CallerFields where
  boundSessionId : Option Text
  modelProviderId : Option Text
  modelId : Option Text
  workspaceId : Option Text
  requestedDir : Option Text

def callerFields (context : RequestContext) : CallerFields where
  boundSessionId :=
    extractFirstNamespacedString (metadataSources context) "shared" ["session", "id"]
  modelProviderId :=
    extractFirstNamespacedString (metadataSources context) "shared" ["model", "providerID"]
  modelId := extractFirstNamespacedString (metadataSources context) "shared" ["model", "modelID"]
  workspaceId :=
    extractFirstNamespacedString (metadataSources context) "opencode" ["workspace", "id"]
  requestedDir := extractFirstNamespacedString (metadataSources context) "opencode" ["directory"]

/-- `{"providerID": model_provider_id, "modelID": model_id}` -/
structure ModelOverride where
  providerId : Text
  modelId : Text

def CallerFields.modelOverride (f : CallerFields) : Option ModelOverride :=
  match f.modelProviderId, f.modelId with
  | some providerId, some modelId => some ⟨providerId, modelId⟩
  | _, _ => none

/-- `build_session_binding_context_id` -/
def buildSessionBindingContextId (contextId : Text) (directory workspaceId : Option Text)
    (useDirectoryBinding : Bool) : Text :=
  match workspaceId.bind nonempty? with
  | some workspaceId => contextId ++ "::workspace:".toList ++ workspaceId
  | none =>
      match (if useDirectoryBinding then directory.bind nonempty? else none) with
      | some directory => contextId ++ "::directory:".toList ++ directory
      | none => contextId

/-- The part of `PreparedExecution` that comes from the metadata. -/
structure PreparedBinding where
  boundSessionId : Option Text
  modelOverride : Option ModelOverride
  directory : Option Text
  workspaceId : Option Text
  sessionBindingContextId : Text

/-- What `execute` makes of the metadata, or the text of the error it emits.
`resolveDirectory` is the sandbox policy's, over the client's default directory. -/
def prepareBinding (resolveDirectory : Option Text → Except Text (Option Text))
    (context : RequestContext) : Except Text PreparedBinding :=
  let f := callerFields context
  match context.metadata with
  | .bool _ | .int _ | .float _ _ | .str _ | .arr _ =>
      .error "Invalid metadata: expected an object/map.".toList
  | .null | .obj _ => do
      let directory ← if f.workspaceId.isNone then resolveDirectory f.requestedDir else pure none
      pure {
        boundSessionId := f.boundSessionId
        modelOverride := f.modelOverride
        directory := directory
        workspaceId := f.workspaceId
        sessionBindingContextId := buildSessionBindingContextId context.contextId directory
          f.workspaceId f.requestedDir.isSome }

/-! ## §2  The fields that extensions define -/

inductive CallerField where
  | boundSessionId
  | modelOverride
  | workingDirectory
  | workspaceId

/-- The extension that defines the field. -/
def CallerField.extensionUri : CallerField → Text
  | boundSessionId | workingDirectory | workspaceId => sessionBindingExtensionUri
  | modelOverride => modelSelectionExtensionUri

/-- The executor has a value of the caller to act on. -/
def CallerField.IsSet (f : CallerFields) : CallerField → Prop
  | boundSessionId => f.boundSessionId ≠ none
  | modelOverride => f.modelOverride.isSome = true
  | workingDirectory => f.requestedDir ≠ none
  | workspaceId => f.workspaceId ≠ none

/-- The context that the SDK builds has the metadata of the request's parameters and
of their message. -/
structure BuiltFrom (params : SendParams) (context : RequestContext) : Prop where
  metadata : context.metadata.asMapping?.getD [] = params.metadata.asMapping?.getD []
  message : context.message.map RequestMessage.metadata = params.message.map RequestMessage.metadata

/-! ## §3  The gate sees what the executor reads -/

variable {params : SendParams} {context : RequestContext}

/-- A mapping with something in it that the executor reads is among the gate's sources. -/
theorem mem_gateSources (h : BuiltFrom params context) {source : Json}
    (hsource : source ∈ metadataSources context) {namespace' : String} {path : List String}
    {t : Text} (ht : extractNamespacedValue source namespace' path = .str t) :
    ∃ m ∈ gateSources params, source = .obj m := by
  obtain ⟨hmem, hmapping⟩ := List.mem_filter.mp hsource
  obtain ⟨m, hm⟩ := Option.isSome_iff_exists.mp hmapping
  have hsrc : source = .obj m := by
    cases source <;> cases hm
    rfl
  subst hsrc
  have hfull : m.isEmpty = false := by
    cases m with
    | nil => cases ht
    | cons e m => rfl
  refine ⟨m, ?_, rfl⟩
  -- the gate's counterpart of the source has the same entries
  suffices hcounterpart : Json.obj m ∈
      [params.metadata, (params.message.map RequestMessage.metadata).getD .null] by
    refine List.mem_filterMap.mpr ⟨.obj m, hcounterpart, ?_⟩
    simp [Json.asMapping?, hfull]
  rcases List.mem_cons.mp hmem with hmeta | hmessage
  · have heq := h.metadata
    rw [← hmeta] at heq
    cases hp : params.metadata <;> rw [hp] at heq <;>
      simp only [Json.asMapping?, Option.getD_some, Option.getD_none] at heq
    all_goals first
      | (rw [heq]; exact List.mem_cons_self)
      | (subst heq; cases hfull)
  · rw [h.message] at hmessage
    exact List.mem_cons_of_mem _ hmessage

theorem gateFinds_of_read (h : BuiltFrom params context) {namespace' : String}
    {path : List String}
    (hread : extractFirstNamespacedString (metadataSources context) namespace' path ≠ none) :
    gateFinds (gateSources params) namespace' path = true := by
  obtain ⟨value, hvalue⟩ := Option.ne_none_iff_exists'.mp hread
  obtain ⟨source, hsource, t, ht⟩ := extractFirstNamespacedString_eq_some hvalue
  obtain ⟨m, hm, rfl⟩ := mem_gateSources h hsource ht
  refine List.any_eq_true.mpr ⟨m, hm, ?_⟩
  rw [ht]

theorem mem_required {c : Bool} (hc : c = true) (requirement : ExtensionRequirement) :
    requirement ∈ if c then [requirement] else [] := by
  rw [if_pos hc]
  exact List.mem_singleton_self requirement

/-- A value that the executor has is a requirement of the gate. -/
theorem required_of_isSet (h : BuiltFrom params context) {field : CallerField}
    (hset : field.IsSet (callerFields context)) :
    ∃ requirement ∈ gateRequirements (gateSources params),
      requirement.extensionUri = field.extensionUri := by
  unfold gateRequirements
  simp only [List.mem_append]
  cases field with
  | boundSessionId =>
      exact ⟨⟨sessionBindingExtensionUri, "metadata.shared.session.id".toList⟩,
        .inl (.inl (.inl (mem_required (gateFinds_of_read h hset) _))), rfl⟩
  | workingDirectory =>
      exact ⟨⟨sessionBindingExtensionUri, "metadata.opencode.directory".toList⟩,
        .inl (.inl (.inr (mem_required (gateFinds_of_read h hset) _))), rfl⟩
  | workspaceId =>
      exact ⟨⟨sessionBindingExtensionUri, "metadata.opencode.workspace.id".toList⟩,
        .inl (.inr (mem_required (gateFinds_of_read h hset) _)), rfl⟩
  | modelOverride =>
      have hprovider : (callerFields context).modelProviderId ≠ none := by
        intro hnone
        simp [CallerField.IsSet, CallerFields.modelOverride, hnone] at hset
      refine ⟨⟨modelSelectionExtensionUri, "metadata.shared.model".toList⟩,
        .inr (mem_required ?_ _), rfl⟩
      rw [gateFinds_of_read h hprovider, Bool.true_or]

/-- A requirement whose extension was not requested is an error of the gate. -/
theorem gate_refuses {callContext : Option ServerCallContext} {requirement : ExtensionRequirement}
    (hmem : requirement ∈ gateRequirements (gateSources params))
    (hnot : requirement.extensionUri ∉ requestedExtensionsFromCallContext callContext) :
    ∃ e, validateSharedExtensionNegotiation params callContext = some e := by
  unfold validateSharedExtensionNegotiation
  extract_lets requested missing
  have hmissing : requirement ∈ missing :=
    List.mem_filter.mpr ⟨hmem, decide_eq_true hnot⟩
  have hne : missing.isEmpty = false := by
    rw [List.isEmpty_eq_false_iff]
    exact List.ne_nil_of_mem hmissing
  rw [hne, if_neg Bool.false_ne_true]
  exact ⟨_, rfl⟩

/-- A request on a value of whose extension it does not name is answered with an error, and
neither sending nor streaming gets to the SDK. -/
theorem gate_covers_executor {σ : Type} (py : TextFunctions) (h : BuiltFrom params context)
    {callContext : Option ServerCallContext} {field : CallerField}
    (hset : field.IsSet (callerFields context))
    (hnot : field.extensionUri ∉ requestedExtensionsFromCallContext callContext)
    (sdk : σ → Awaited Payload × σ) (sdkStream : σ → Streamed × σ) (world : σ) :
    (∃ e, onMessageSend py params callContext sdk world = (.error e, world)) ∧
      ∃ e, onMessageSendStream py params callContext sdkStream world = (([], some e), world) := by
  obtain ⟨requirement, hmem, huri⟩ := required_of_isSet h hset
  obtain ⟨e, he⟩ := gate_refuses hmem (huri ▸ hnot)
  unfold onMessageSend onMessageSendStream
  cases validateChatOutputModes py params with
  | some e' => exact ⟨⟨e', rfl⟩, ⟨e', rfl⟩⟩
  | none =>
      rw [he]
      exact ⟨⟨e, rfl⟩, ⟨e, rfl⟩⟩

/-- A session to bind and a workspace, requested with the extension. -/
def boundParams : SendParams where
  message := some { metadata := .obj [("opencode".toList,
    .obj [("workspace".toList, .obj [("id".toList, .str "ws-1".toList)])])] }
  metadata := .obj [("shared".toList,
    .obj [("session".toList, .obj [("id".toList, .str " ses-1 ".toList)])])]

def boundContext : RequestContext := ⟨"context-1".toList, boundParams.metadata, boundParams.message⟩

theorem bound_session_needs_extension :
    (∃ e, onMessageSend (.ascii fun _ => []) boundParams none
      (fun calls : ℕ => (⟨.empty, .error .taskNotFound⟩, calls + 1)) 0 = (.error e, 0)) ∧
      ∃ e, onMessageSendStream (.ascii fun _ => []) boundParams none
        (fun calls : ℕ => (⟨[], none⟩, calls + 1)) 0 = (([], some e), 0) := by
  have hset : CallerField.boundSessionId.IsSet (callerFields boundContext) := by
    show _ ≠ none
    decide
  exact gate_covers_executor (.ascii fun _ => []) ⟨rfl, rfl⟩ hset List.not_mem_nil _ _ 0

/-! ## §4  What was not requested is inert -/

/-- Behind the gate, what a request without the two extensions carries in its metadata
makes no difference to what the executor prepares. -/
theorem unrequested_metadata_is_inert (h : BuiltFrom params context) {entries : Mapping}
    (hmapping : context.metadata = .obj entries) {callContext : Option ServerCallContext}
    (hpassed : validateSharedExtensionNegotiation params callContext = none)
    (hnot : ∀ field : CallerField,
      field.extensionUri ∉ requestedExtensionsFromCallContext callContext)
    (resolveDirectory : Option Text → Except Text (Option Text)) :
    prepareBinding resolveDirectory context =
      prepareBinding resolveDirectory ⟨context.contextId, .obj [], none⟩ := by
  have hunset : ∀ field : CallerField, ¬ field.IsSet (callerFields context) := by
    intro field hset
    obtain ⟨requirement, hmem, huri⟩ := required_of_isSet h hset
    obtain ⟨e, he⟩ := gate_refuses hmem (huri ▸ hnot field)
    rw [hpassed] at he
    cases he
  have hsession : (callerFields context).boundSessionId = none :=
    not_not.mp (hunset .boundSessionId)
  have hdir : (callerFields context).requestedDir = none := not_not.mp (hunset .workingDirectory)
  have hworkspace : (callerFields context).workspaceId = none := not_not.mp (hunset .workspaceId)
  have hmodel : (callerFields context).modelOverride = none := by
    have hnot := hunset .modelOverride
    unfold CallerField.IsSet at hnot
    simpa using hnot
  have hempty : callerFields ⟨context.contextId, .obj [], none⟩ = ⟨none, none, none, none, none⟩ :=
    rfl
  simp only [prepareBinding, hmapping, hempty, hsession, hdir, hworkspace, hmodel]
  rfl

end OpencodeA2a.Execution
