import OpencodeA2a.Server.Payloads

/-!
# Negotiated extensions

`extension_negotiation.py`: the extensions a request names, and the shared metadata
that a payload loses when their extension is not among them.
-/

namespace OpencodeA2a.Server

open OpencodeA2a.Stream

/-! ## §1  The extensions -/

def extensionUriNamespace : String := "urn:opencode-a2a:extension:"

def sessionBindingExtensionUri : Text := (extensionUriNamespace ++ "session-binding:v1").toList

def modelSelectionExtensionUri : Text := (extensionUriNamespace ++ "model-selection:v1").toList

def streamingExtensionUri : Text := (extensionUriNamespace ++ "stream-hints:v1").toList

def interruptCallbackExtensionUri : Text :=
  (extensionUriNamespace ++ "interactive-interrupt:v1").toList

structure ExtensionRequirement where
  extensionUri : Text
  field : Text

/-- The server's part of a call: the extensions that the client's header names,
where there is a call context. -/
structure ServerCallContext where
  requestedExtensions : List Text

/-- `requested_extensions_from_call_context` -/
def requestedExtensionsFromCallContext (context : Option ServerCallContext) : List Text :=
  match context with
  | none => []
  | some context => (context.requestedExtensions.filterMap nonempty?).dedup

/-! ## §2  The filter -/

/-- The shared metadata keys, each with the extension it belongs to, in the order in
which they are dropped. -/
def sharedMetadataKeys : List (Text × String) :=
  [(sessionBindingExtensionUri, "session"), (modelSelectionExtensionUri, "model"),
    (streamingExtensionUri, "stream"), (streamingExtensionUri, "progress"),
    (streamingExtensionUri, "usage"), (interruptCallbackExtensionUri, "interrupt")]

/-- What is left of `metadata["shared"]`. -/
def filterShared (requested : List Text) (shared : Mapping) : Mapping :=
  sharedMetadataKeys.foldl
    (fun shared key => if key.1 ∈ requested then shared else shared.pop key.2.toList) shared

/-- `_set_filtered_metadata`, for the metadata that is set. -/
def filteredMetadata (requested : List Text) (metadata : Mapping) : Mapping :=
  if metadata.isEmpty then []
  else
    match metadata.getMapping? "shared" with
    | none => metadata
    | some shared =>
        if (filterShared requested shared).isEmpty then metadata.pop "shared".toList
        else metadata.set "shared".toList (.obj (filterShared requested shared))

def Message.filterMetadata (requested : List Text) (m : Message) : Message :=
  { m with metadata := filteredMetadata requested m.metadata }

def Artifact.filterMetadata (requested : List Text) (a : Artifact) : Artifact :=
  { a with metadata := filteredMetadata requested a.metadata }

/-- `filter_negotiated_extensions_from_payload`. The metadata of an artifact event
itself, and of a message, stays as it is. -/
def filterNegotiatedExtensionsFromPayload (payload : Payload) (requested : List Text) : Payload :=
  match payload with
  | .task t =>
      .task { t with
        metadata := filteredMetadata requested t.metadata
        status := { t.status with
          message := t.status.message.map (Message.filterMetadata requested) }
        history := t.history.map (Message.filterMetadata requested)
        artifacts := t.artifacts.map (Artifact.filterMetadata requested) }
  | .statusUpdate e =>
      .statusUpdate { e with
        metadata := filteredMetadata requested e.metadata
        status := { e.status with
          message := e.status.message.map (Message.filterMetadata requested) } }
  | .artifactUpdate e =>
      .artifactUpdate { e with artifact := e.artifact.filterMetadata requested }
  | .message m => .message m

/-! ## §3  Metadata without what was not requested -/

/-- No shared key of an extension that was not requested. -/
def Negotiated (requested : List Text) (metadata : Mapping) : Prop :=
  ∀ shared, metadata.getMapping? "shared" = some shared →
    ∀ key ∈ sharedMetadataKeys, key.1 ∉ requested → shared.get? key.2 = none

/-- Only `shared` decides. -/
theorem Negotiated.congr {requested : List Text} {m m' : Mapping}
    (h : m.get? "shared" = m'.get? "shared") : Negotiated requested m ↔ Negotiated requested m' := by
  unfold Negotiated Mapping.getMapping?
  rw [h]

theorem get?_foldl_pop {requested : List Text} (keys : List (Text × String)) (shared : Mapping)
    {k : String} (hk : shared.get? k = none ∨ ∃ key ∈ keys, key.2 = k ∧ key.1 ∉ requested) :
    (keys.foldl (fun shared key => if key.1 ∈ requested then shared else shared.pop key.2.toList)
      shared).get? k = none := by
  induction keys generalizing shared with
  | nil =>
      rcases hk with hk | ⟨key, hmem, -⟩
      · exact hk
      · cases hmem
  | cons key keys ih =>
      rw [List.foldl_cons]
      refine ih _ ?_
      rcases hk with hk | ⟨key', hmem, hname, hnot⟩
      · left
        split
        · exact hk
        · rw [Mapping.get?_pop, hk, ite_self]
      · rcases List.mem_cons.mp hmem with rfl | hmem
        · left
          rw [if_neg hnot, Mapping.get?_pop, if_pos (congrArg String.toList hname.symm)]
        · exact .inr ⟨key', hmem, hname, hnot⟩

theorem get?_filterShared {requested : List Text} (shared : Mapping) {key : Text × String}
    (hkey : key ∈ sharedMetadataKeys) (hnot : key.1 ∉ requested) :
    (filterShared requested shared).get? key.2 = none :=
  get?_foldl_pop sharedMetadataKeys shared (.inr ⟨key, hkey, rfl, hnot⟩)

theorem filteredMetadata_negotiated (requested : List Text) (metadata : Mapping) :
    Negotiated requested (filteredMetadata requested metadata) := by
  unfold filteredMetadata
  intro shared hshared key hkey hnot
  split at hshared
  · cases hshared
  · split at hshared
    · rename_i hnone
      rw [hnone] at hshared
      cases hshared
    · split at hshared
      · rw [Mapping.getMapping?_eq_some, Mapping.get?_pop, if_pos rfl] at hshared
        cases hshared
      · rw [Mapping.getMapping?_eq_some, Mapping.get?_set, if_pos rfl] at hshared
        cases hshared
        exact get?_filterShared _ hkey hnot

/-- A filtered task is free of it everywhere. -/
theorem filtered_task_negotiated (requested : List Text) (t : Task) :
    ∀ m ∈ (filterNegotiatedExtensionsFromPayload (.task t) requested).locations,
      Negotiated requested m := by
  intro m hm
  simp only [filterNegotiatedExtensionsFromPayload, Payload.locations, List.mem_cons,
    List.mem_append, List.mem_map, Option.mem_toList, Option.map_eq_some_iff] at hm
  rcases hm with rfl | (⟨_, ⟨_, -, rfl⟩, rfl⟩ | ⟨_, ⟨_, -, rfl⟩, rfl⟩) | ⟨_, ⟨_, -, rfl⟩, rfl⟩
  all_goals exact filteredMetadata_negotiated requested _

end OpencodeA2a.Server
