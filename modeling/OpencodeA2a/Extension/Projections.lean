import OpencodeA2a.Extension.UpstreamClient

/-!
# What a client gets to see of an upstream payload

The projections of `jsonrpc/methods.py`: a payload of the upstream server is taken apart and
only what is named here goes to the client. An item that does not have the expected shape is
dropped, a payload that does not is an error (the text of the `ValueError`).
-/

namespace OpencodeA2a.Extension

open OpencodeA2a.Stream (Text Json Mapping extractOptionalString)

/-! ## §1  Shapes -/

/-- `_extract_raw_items` -/
def extractRawItems (kind : String) : Json → Except Text (List Json)
  | .arr items => .ok items
  | raw => .error ("OpenCode " ++ kind ++ " payload must be an array; got " ++ typeName raw).toList

/-- `_extract_raw_object` -/
def extractRawObject (kind : String) : Json → Except Text Mapping
  | .obj m => .ok m
  | raw => .error ("OpenCode " ++ kind ++ " payload must be an object; got " ++ typeName raw).toList

/-- The entry of a value that may be missing. -/
def optionalEntry (key : String) (value : Option Json) : Mapping :=
  (value.map fun j => (key.toList, j)).toList

def strEntry (key : String) (value : Text) : Text × Json := (key.toList, .str value)

def isInt (j : Json) : Bool := j.asInt?.isSome

def isNumber : Json → Bool
  | .float _ _ => true
  | j => isInt j

/-! ## §2  Sessions and messages -/

/-- `_extract_session_title` -/
def extractSessionTitle (session : Mapping) : Text :=
  ((session.getStr? "title").map Text.strip).getD []

/-- `_extract_session_id` -/
def extractSessionId (session : Mapping) : Option Text := extractOptionalString session "id"

/-- `_as_a2a_session_context_id` -/
def asA2aSessionContextId (sessionId : Text) : Text := "ctx:opencode-session:".toList ++ sessionId

/-- `{"shared": {"session": {"id": session_id}}}` -/
def sessionMetadata (sessionId : Text) : Json :=
  .obj [("shared".toList, .obj [("session".toList, .obj [strEntry "id" sessionId])])]

/-- `_as_a2a_session_task` -/
def asA2aSessionTask (session : Json) : Option Json :=
  (session.asMapping?.bind extractSessionId).map fun sessionId =>
    .obj [strEntry "id" sessionId, strEntry "contextId" (asA2aSessionContextId sessionId),
      ("status".toList, .obj [strEntry "state" "TASK_STATE_COMPLETED".toList]),
      ("metadata".toList, sessionMetadata sessionId)]

/-- The text of a part of type `text`. -/
def partText (part : Json) : Option Text :=
  part.asMapping?.bind fun m =>
    if m.getStr? "type" = some "text".toList then m.getStr? "text" else none

/-- `extract_text_from_parts` -/
def extractTextFromParts (parts : List Json) : Text := Text.strip (parts.filterMap partText).flatten

/-- `_as_a2a_message` -/
def asA2aMessage (sessionId : Text) (item : Json) : Option Json := do
  let m ← item.asMapping?
  let info := (m.getMapping? "info").getD m
  let messageId ← extractOptionalString info "id"
  let role :=
    if (info.getStr? "role").any fun t => t.strip.lower = "user".toList then "ROLE_USER"
    else "ROLE_AGENT"
  let text := extractTextFromParts (((m.get? "parts").bind Json.asList?).getD [])
  return .obj [strEntry "messageId" messageId, strEntry "contextId" (asA2aSessionContextId sessionId),
    strEntry "role" role.toList, ("parts".toList, .arr [.obj [strEntry "text" text]]),
    ("metadata".toList, sessionMetadata sessionId)]

/-- `_apply_session_query_limit` -/
def applySessionQueryLimit (items : List Json) (limit : ℤ) : List Json :=
  if limit ≥ items.length then items else items.take limit.toNat

/-- An item of `_normalize_session_status_items`. -/
def statusItem (rawSessionId : Text) (rawStatus : Json) : Option Json := do
  let sessionId ← Stream.nonempty? rawSessionId
  let status ← rawStatus.asMapping?
  let statusType ← extractOptionalString status "type"
  return .obj ([strEntry "session_id" sessionId, strEntry "type" statusType] ++
    optionalEntry "attempt" ((status.get? "attempt").filter isInt) ++
    optionalEntry "message" ((extractOptionalString status "message").map .str) ++
    optionalEntry "next" ((status.get? "next").filter isNumber))

/-- `_normalize_session_status_items` -/
def normalizeSessionStatusItems (raw : Json) : Except Text (List Json) := do
  let statuses ← extractRawObject "session status" raw
  return (statuses.insertionSort fun e e' => e.1 ≤ e'.1).filterMap fun e => statusItem e.1 e.2

def todoKeys : List String := ["id", "content", "status", "priority"]

/-- An item of `_normalize_todo_items`. -/
def todoItem (item : Json) : Option Json := do
  let m ← item.asMapping?
  let values ← todoKeys.mapM fun key => (extractOptionalString m key).map fun t => strEntry key t
  return .obj values

/-- `_normalize_todo_items` -/
def normalizeTodoItems (raw : Json) : Except Text (List Json) := do
  return (← extractRawItems "session todo" raw).filterMap todoItem

/-- An item of `_normalize_diff_items`. -/
def diffItem (item : Json) : Option Json := do
  let m ← item.asMapping?
  let file ← extractOptionalString m "file"
  return .obj ([strEntry "file" file] ++
    optionalEntry "before" ((m.getStr? "before").map .str) ++
    optionalEntry "after" ((m.getStr? "after").map .str) ++
    optionalEntry "additions" ((m.get? "additions").filter isInt) ++
    optionalEntry "deletions" ((m.get? "deletions").filter isInt))

/-- `_normalize_diff_items` -/
def normalizeDiffItems (raw : Json) : Except Text (List Json) := do
  return (← extractRawItems "session diff" raw).filterMap diffItem

/-- The stripped string under `source`, as an entry under `target`. -/
def renamed (m : Mapping) (source target : String) : Mapping :=
  optionalEntry target ((extractOptionalString m source).map .str)

/-- The entry `revert` of a summary, unless it would be empty. -/
def revertEntry (session : Mapping) : Mapping :=
  match session.getMapping? "revert" with
  | none => []
  | some revert =>
      let item := renamed revert "messageID" "message_id" ++ renamed revert "partID" "part_id" ++
        renamed revert "snapshot" "snapshot" ++ renamed revert "diff" "diff"
      if item = [] then [] else [("revert".toList, .obj item)]

/-- `_normalize_session_summary`, and the id of the session. -/
def normalizeSessionSummary (raw : Json) : Except Text (Text × Mapping) := do
  let session ← extractRawObject "session" raw
  match extractSessionId session with
  | none => throw "OpenCode session payload is missing string field 'id'".toList
  | some sessionId =>
      return (sessionId, [strEntry "id" sessionId, strEntry "title" (extractSessionTitle session)] ++
        renamed session "projectID" "project_id" ++ renamed session "directory" "directory" ++
        renamed session "parentID" "parent_id" ++ renamed session "version" "version" ++
        ((session.getMapping? "share").map fun share => renamed share "url" "share_url").getD [] ++
        revertEntry session)

/-! ## §3  Providers and models -/

structure Catalog where
  providers : List Mapping
  defaultByProvider : List (Text × Text)
  connected : List Text

/-- `default_by_provider`, entry by entry -/
def extractDefaults : List (Text × Text) → Mapping → Except Text (List (Text × Text))
  | defaults, [] => .ok defaults
  | defaults, (key, .str value) :: rest =>
      match Stream.nonempty? key, Stream.nonempty? value with
      | some providerId, some modelId =>
          extractDefaults (Entries.set defaults providerId modelId) rest
      | _, _ => extractDefaults defaults rest
  | _, _ :: _ =>
      .error "OpenCode provider catalog default entries must be string:string".toList

/-- `_extract_provider_catalog` -/
def extractProviderCatalog (raw : Json) : Except Text Catalog := do
  let some m := raw.asMapping?
    | throw ("OpenCode provider catalog payload must be an object; got " ++ typeName raw).toList
  let some rawProviders := (m.get? "all").bind Json.asList?
    | throw "OpenCode provider catalog payload field 'all' must be an array".toList
  let some rawDefaults := m.getMapping? "default"
    | throw "OpenCode provider catalog payload field 'default' must be an object".toList
  let some rawConnected := (m.get? "connected").bind Json.asList?
    | throw "OpenCode provider catalog payload field 'connected' must be an array".toList
  let some providers := rawProviders.mapM Json.asMapping?
    | throw "OpenCode provider catalog items must be objects".toList
  let defaultByProvider ← extractDefaults [] rawDefaults
  let some connected := rawConnected.mapM Json.asStr?
    | throw "OpenCode provider catalog connected entries must be strings".toList
  return { providers, defaultByProvider, connected := connected.filterMap Stream.nonempty? }

namespace Catalog

variable (catalog : Catalog)

/-- An item of `_normalize_provider_summaries`. -/
def providerSummary (provider : Mapping) : Option Mapping :=
  (extractOptionalString provider "id").map fun providerId =>
    [strEntry "provider_id" providerId,
      strEntry "name" ((provider.getStr? "name").getD providerId),
      ("connected".toList, .bool (catalog.connected.contains providerId)),
      ("model_count".toList, .int ((provider.getMapping? "models").getD []).length)] ++
    renamed provider "source" "source" ++
    optionalEntry "default_model_id" ((catalog.defaultByProvider.lookup providerId).map .str)

/-- `_normalize_provider_summaries` -/
def normalizeProviderSummaries : List Mapping := catalog.providers.filterMap catalog.providerSummary

/-- What the summary of a model says about its capabilities. -/
def capabilityEntries (model : Mapping) : Mapping :=
  match model.getMapping? "capabilities" with
  | none => []
  | some capabilities =>
      [("reasoning", "supports_reasoning"), ("toolcall", "supports_tool_call"),
        ("attachment", "supports_attachments")].flatMap fun (source, target) =>
          optionalEntry target ((capabilities.get? source).filter isBool)

def limitEntries (model : Mapping) : Mapping :=
  match model.getMapping? "limit" with
  | none => []
  | some limit =>
      optionalEntry "context_window" ((limit.get? "context").filter isInt) ++
        optionalEntry "max_output_tokens" ((limit.get? "output").filter isInt)

/-- An item of `_normalize_model_summaries`. -/
def modelSummary (providerId : Text) (entry : Text × Json) : Option Mapping := do
  let modelId ← Stream.nonempty? entry.1
  let model ← entry.2.asMapping?
  return [strEntry "provider_id" providerId, strEntry "model_id" modelId,
      strEntry "name" ((model.getStr? "name").getD modelId),
      ("default".toList, .bool (catalog.defaultByProvider.lookup providerId = some modelId)),
      ("connected".toList, .bool (catalog.connected.contains providerId))] ++
    renamed model "status" "status" ++ limitEntries model ++ capabilityEntries model

/-- The models of one provider. -/
def modelsOf (filter : Option Text) (provider : Mapping) : List Mapping :=
  match extractOptionalString provider "id" with
  | none => []
  | some providerId =>
      if filter.any (· ≠ providerId) then []
      else ((provider.getMapping? "models").getD []).filterMap (catalog.modelSummary providerId)

/-- `_normalize_model_summaries` -/
def normalizeModelSummaries (filter : Option Text) : List Mapping :=
  catalog.providers.flatMap (catalog.modelsOf filter)

end Catalog

/-! ## §4  Models of one provider -/

namespace Catalog

variable {catalog : Catalog} {providerId : Text}

theorem provider_of_modelSummary {entry : Text × Json} {item : Mapping}
    (h : catalog.modelSummary providerId entry = some item) :
    item.getStr? "provider_id" = some providerId := by
  unfold modelSummary at h
  obtain ⟨modelId, -, h⟩ := Option.bind_eq_some_iff.mp h
  obtain ⟨model, -, h⟩ := Option.bind_eq_some_iff.mp h
  cases h
  rfl

theorem provider_of_mem_models {provider item : Mapping}
    (h : item ∈ catalog.modelsOf none provider) :
    item.getStr? "provider_id" = extractOptionalString provider "id" := by
  unfold modelsOf at h
  cases hid : extractOptionalString provider "id" with
  | none =>
      rw [hid] at h
      cases h
  | some providerId =>
      rw [hid] at h
      obtain ⟨entry, -, hentry⟩ := List.mem_filterMap.mp h
      exact provider_of_modelSummary hentry

/-- A provider's models are listed whole or not at all. -/
theorem modelsOf_filter (provider : Mapping) :
    catalog.modelsOf (some providerId) provider =
      (catalog.modelsOf none provider).filter
        fun item => item.getStr? "provider_id" = some providerId := by
  symm
  by_cases hid : extractOptionalString provider "id" = some providerId
  · rw [List.filter_eq_self.mpr fun item hitem =>
      decide_eq_true ((provider_of_mem_models hitem).trans hid)]
    simp [modelsOf, hid]
  · rw [List.filter_eq_nil_iff.mpr fun item hitem h =>
      hid ((provider_of_mem_models hitem).symm.trans (of_decide_eq_true h))]
    unfold modelsOf
    cases hother : extractOptionalString provider "id" with
    | none => rfl
    | some other =>
        have hne : providerId ≠ other := fun he => hid (he ▸ hother)
        simp [hne]

/-- The listing for one provider is what the whole listing has of it, in the same order. -/
theorem normalizeModelSummaries_filter :
    catalog.normalizeModelSummaries (some providerId) =
      (catalog.normalizeModelSummaries none).filter
        fun item => item.getStr? "provider_id" = some providerId := by
  unfold normalizeModelSummaries
  rw [List.filter_flatMap]
  exact List.flatMap_congr fun provider _ => modelsOf_filter provider

end Catalog

end OpencodeA2a.Extension
