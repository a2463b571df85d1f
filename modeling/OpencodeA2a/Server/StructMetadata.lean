import OpencodeA2a.Server.OutputModes

/-!
# Output modes in protobuf metadata

The metadata of a task or an event is a protobuf `Struct`, whose numbers are doubles.
`annotate_output_negotiation_metadata` makes a dictionary of it, merges the modes into
the dictionary and fills a cleared `Struct` from that. What comes back differs from
what was there in one entry of one nested struct.
-/

namespace OpencodeA2a.Server

open OpencodeA2a.Stream

/-! ## §1  Structs -/

/-- A `Value`; a struct has a value for each of its keys, and a value is of some kind. -/
inductive StructValue (δ : Type) where
  | null
  | number (x : δ)
  | str (s : Text)
  | bool (b : Bool)
  | struct (fields : List (Text × StructValue δ))
  | list (values : List (StructValue δ))

/-- The fields of a `Struct`; a key occurs once. -/
abbrev Struct (δ : Type) := List (Text × StructValue δ)

/-- Python's floats, as far as metadata shows them. -/
structure Doubles (δ : Type) where
  isFinite : δ → Bool
  repr : δ → Text
  isZero : δ → Bool

variable {δ : Type} (d : Doubles δ)

mutual

/-- Only finite numbers occur. -/
def StructValue.Finite : StructValue δ → Prop
  | .number x => d.isFinite x = true
  | .struct fields => FiniteFields fields
  | .list values => FiniteValues values
  | .null | .str _ | .bool _ => True

def FiniteValues : List (StructValue δ) → Prop
  | [] => True
  | v :: vs => v.Finite ∧ FiniteValues vs

def FiniteFields : List (Text × StructValue δ) → Prop
  | [] => True
  | (_, v) :: fields => v.Finite ∧ FiniteFields fields

end

mutual

/-- A value as it is read off a dictionary that stands for a struct. -/
def StructValue.json : StructValue δ → Json
  | .null => .null
  | .number x => .float (d.repr x) (d.isZero x)
  | .str s => .str s
  | .bool b => .bool b
  | .struct fields => .obj (jsonFields fields)
  | .list values => .arr (jsonValues values)

def jsonValues : List (StructValue δ) → List Json
  | [] => []
  | v :: vs => v.json :: jsonValues vs

def jsonFields : List (Text × StructValue δ) → Mapping
  | [] => []
  | (key, v) :: fields => (key, v.json) :: jsonFields fields

end

variable {d}

theorem jsonFields_eq (fields : Struct δ) :
    jsonFields d fields = Entries.mapValues (StructValue.json d) fields := by
  induction fields with
  | nil => rfl
  | cons e fields ih =>
      obtain ⟨key, v⟩ := e
      rw [jsonFields, ih]
      rfl

theorem jsonValues_eq (values : List (StructValue δ)) :
    jsonValues d values = values.map (StructValue.json d) := by
  induction values with
  | nil => rfl
  | cons v values ih => rw [jsonValues, ih, List.map_cons]

theorem finiteFields_iff {fields : Struct δ} :
    FiniteFields d fields ↔ ∀ e ∈ fields, e.2.Finite d := by
  induction fields with
  | nil => simp [FiniteFields]
  | cons e fields ih =>
      obtain ⟨key, v⟩ := e
      rw [FiniteFields, ih, List.forall_mem_cons]

theorem finiteValues_iff {values : List (StructValue δ)} :
    FiniteValues d values ↔ ∀ v ∈ values, v.Finite d := by
  induction values with
  | nil => simp [FiniteValues]
  | cons v values ih => rw [FiniteValues, ih, List.forall_mem_cons]

theorem finiteFields_set {fields : Struct δ} {key : Text} {v : StructValue δ}
    (hfields : FiniteFields d fields) (hv : v.Finite d) :
    FiniteFields d (Entries.set fields key v) := by
  rw [finiteFields_iff] at hfields ⊢
  intro e he
  rcases Entries.mem_set he with rfl | he
  · exact hv
  · exact hfields e he

/-! ## §2  To a dictionary and back -/

/-- The two exceptions of a conversion: the `ValueError` for a number that JSON has not,
and the `OverflowError` of an `int` that no double is near to. -/
inductive StructError where
  | valueError
  | overflowError

/-- What the negotiation takes from `google.protobuf`. -/
structure StructFunctions (d : Doubles δ) where
  /-- `MessageToDict` -/
  messageToDict : Struct δ → Except StructError Mapping
  /-- `Struct.update` of a cleared struct -/
  update : Mapping → Except StructError (Struct δ)
  messageToDict_finite : ∀ {s}, FiniteFields d s → messageToDict s = .ok (jsonFields d s)
  /-- `float(repr(x)) == x`, under every key. -/
  update_jsonFields : ∀ {s}, FiniteFields d s → update (jsonFields d s) = .ok s

mutual

/-- `_ValueMessageToJsonObject` -/
def StructValue.write (d : Doubles δ) : StructValue δ → Except StructError Json
  | .null => .ok .null
  | .number x =>
      if d.isFinite x then .ok (.float (d.repr x) (d.isZero x)) else .error .valueError
  | .str s => .ok (.str s)
  | .bool b => .ok (.bool b)
  | .struct fields => (writeFields d fields).map .obj
  | .list values => (writeValues d values).map .arr

def writeValues (d : Doubles δ) : List (StructValue δ) → Except StructError (List Json)
  | [] => .ok []
  | v :: vs => (v.write d).bind fun j => (writeValues d vs).map (j :: ·)

def writeFields (d : Doubles δ) : List (Text × StructValue δ) → Except StructError Mapping
  | [] => .ok []
  | (key, v) :: fields => (v.write d).bind fun j => (writeFields d fields).map ((key, j) :: ·)

end

section Read

variable (parse : Text → δ) (ofInt : ℤ → Option δ)

mutual

/-- `_SetStructValue`, a float being parsed from its `repr` -/
def StructValue.read : Json → Except StructError (StructValue δ)
  | .null => .ok .null
  | .bool b => .ok (.bool b)
  | .int n =>
      match ofInt n with
      | some x => .ok (.number x)
      | none => .error .overflowError
  | .float lit _ => .ok (.number (parse lit))
  | .str s => .ok (.str s)
  | .arr items => (readValues items).map .list
  | .obj entries => (readFields entries).map .struct

def readValues : List Json → Except StructError (List (StructValue δ))
  | [] => .ok []
  | j :: js => (StructValue.read j).bind fun v => (readValues js).map (v :: ·)

def readFields : List (Text × Json) → Except StructError (Struct δ)
  | [] => .ok []
  | (key, j) :: entries =>
      (StructValue.read j).bind fun v => (readFields entries).map ((key, v) :: ·)

end

end Read

mutual

theorem StructValue.write_finite {v : StructValue δ} (h : v.Finite d) :
    v.write d = .ok (v.json d) := by
  cases v with
  | null => rfl
  | str s => rfl
  | bool b => rfl
  | number x =>
      rw [StructValue.Finite] at h
      rw [StructValue.write, StructValue.json, if_pos h]
  | struct fields =>
      rw [StructValue.Finite] at h
      rw [StructValue.write, StructValue.json, writeFields_finite h]
      rfl
  | list values =>
      rw [StructValue.Finite] at h
      rw [StructValue.write, StructValue.json, writeValues_finite h]
      rfl

theorem writeValues_finite {values : List (StructValue δ)} (h : FiniteValues d values) :
    writeValues d values = .ok (jsonValues d values) := by
  cases values with
  | nil => rfl
  | cons v values =>
      rw [FiniteValues] at h
      rw [writeValues, jsonValues, StructValue.write_finite h.1, writeValues_finite h.2]
      rfl

theorem writeFields_finite {fields : List (Text × StructValue δ)} (h : FiniteFields d fields) :
    writeFields d fields = .ok (jsonFields d fields) := by
  cases fields with
  | nil => rfl
  | cons e fields =>
      obtain ⟨key, v⟩ := e
      rw [FiniteFields] at h
      rw [writeFields, jsonFields, StructValue.write_finite h.1, writeFields_finite h.2]
      rfl

end

section Read

variable {parse : Text → δ} {ofInt : ℤ → Option δ}

mutual

theorem StructValue.read_json (hparse : ∀ x, d.isFinite x = true → parse (d.repr x) = x)
    {v : StructValue δ} (h : v.Finite d) :
    StructValue.read parse ofInt (v.json d) = .ok v := by
  cases v with
  | null => rfl
  | str s => rfl
  | bool b => rfl
  | number x =>
      rw [StructValue.Finite] at h
      rw [StructValue.json, StructValue.read, hparse x h]
  | struct fields =>
      rw [StructValue.Finite] at h
      rw [StructValue.json, StructValue.read, readFields_jsonFields hparse h]
      rfl
  | list values =>
      rw [StructValue.Finite] at h
      rw [StructValue.json, StructValue.read, readValues_jsonValues hparse h]
      rfl

theorem readValues_jsonValues (hparse : ∀ x, d.isFinite x = true → parse (d.repr x) = x)
    {values : List (StructValue δ)} (h : FiniteValues d values) :
    readValues parse ofInt (jsonValues d values) = .ok values := by
  cases values with
  | nil => rfl
  | cons v values =>
      rw [FiniteValues] at h
      rw [jsonValues, readValues, StructValue.read_json hparse h.1, readValues_jsonValues hparse h.2]
      rfl

theorem readFields_jsonFields (hparse : ∀ x, d.isFinite x = true → parse (d.repr x) = x)
    {fields : List (Text × StructValue δ)} (h : FiniteFields d fields) :
    readFields parse ofInt (jsonFields d fields) = .ok fields := by
  cases fields with
  | nil => rfl
  | cons e fields =>
      obtain ⟨key, v⟩ := e
      rw [FiniteFields] at h
      rw [jsonFields, readFields, StructValue.read_json hparse h.1,
        readFields_jsonFields hparse h.2]
      rfl

end

end Read

/-- The conversions by recursion, over doubles that are parsed again from their `repr`. -/
def StructFunctions.recursive (d : Doubles δ) (parse : Text → δ) (ofInt : ℤ → Option δ)
    (hparse : ∀ x, d.isFinite x = true → parse (d.repr x) = x) : StructFunctions d where
  messageToDict := writeFields d
  update := readFields parse ofInt
  messageToDict_finite := writeFields_finite
  update_jsonFields := readFields_jsonFields hparse

/-! ## §3  Which modes are accepted -/

variable (py : TextFunctions)

/-- Accepted modes that restrict nothing: there are none, or one is a wildcard. -/
def Unrestricted (modes : Option (List Text)) : Prop :=
  ∀ spellings ∈ modes, (∃ spelling ∈ spellings, isWildcard (py.lower (Text.strip spelling)) = true) ∨
    ∀ spelling ∈ spellings, py.lower (Text.strip spelling) = []

variable {py}

/-- What the loop makes of spellings, from the modes that it has collected. -/
theorem collectModes_spellings {spellings normalized : List Text} :
    (collectModes py (spellings.map .str) normalized = none →
      (∃ spelling ∈ spellings, isWildcard (py.lower (Text.strip spelling)) = true) ∨
        normalized = [] ∧ ∀ spelling ∈ spellings, py.lower (Text.strip spelling) = []) ∧
    ∀ collected, collectModes py (spellings.map .str) normalized = some collected →
      ∀ mode, mode ∈ collected ↔ mode ∈ normalized ∨
        mode ≠ [] ∧ ∃ spelling ∈ spellings, py.lower (Text.strip spelling) = mode := by
  induction spellings generalizing normalized with
  | nil =>
      simp only [List.map_nil, collectModes]
      split
      · rename_i hnil
        exact ⟨fun _ => .inr ⟨hnil, by simp⟩, by simp⟩
      · constructor
        · intro h
          cases h
        · intro collected h mode
          cases h
          simp
  | cons spelling spellings ih =>
      simp only [List.map_cons, collectModes, List.exists_mem_cons_iff, List.forall_mem_cons]
      obtain ⟨hnone, hsome⟩ := @ih normalized
      split
      · -- a blank spelling, or one of a mode that is there
        rename_i hskip
        constructor
        · intro h
          apply (hnone h).imp Or.inr
          rintro ⟨rfl, hblank⟩
          exact ⟨rfl, hskip.resolve_right List.not_mem_nil, hblank⟩
        · intro collected h mode
          rw [hsome collected h mode]
          constructor
          · exact Or.imp_right (And.imp_right Or.inr)
          · rintro (hmem | ⟨hne, rfl | hmem⟩)
            · exact .inl hmem
            · exact .inl (hskip.resolve_left hne)
            · exact .inr ⟨hne, hmem⟩
      · rename_i hnew
        rw [not_or] at hnew
        split
        · rename_i hwild
          constructor
          · exact fun _ => .inl (.inl hwild)
          · intro collected h
            cases h
        · obtain ⟨hnone, hsome⟩ := @ih (normalized ++ [py.lower (Text.strip spelling)])
          constructor
          · intro h
            apply (hnone h).imp Or.inr
            rintro ⟨hnil, -⟩
            simp at hnil
          · intro collected h mode
            rw [hsome collected h mode, List.mem_append, List.mem_singleton]
            constructor
            · rintro ((hmem | rfl) | ⟨hne, hmem⟩)
              · exact .inl hmem
              · exact .inr ⟨hnew.1, .inl rfl⟩
              · exact .inr ⟨hne, .inr hmem⟩
            · rintro (hmem | ⟨hne, rfl | hmem⟩)
              · exact .inl (.inl hmem)
              · exact .inl (.inr rfl)
              · exact .inr ⟨hne, hmem⟩

/-- The normalised modes are those that some spelling strips and lowers to. -/
theorem mem_normalizeModes {spellings normalized : List Text}
    (h : normalizeModes py (some spellings) = some normalized) (mode : Text) :
    mode ∈ normalized ↔
      mode ≠ [] ∧ ∃ spelling ∈ spellings, py.lower (Text.strip spelling) = mode := by
  have hmem := collectModes_spellings.2 normalized h mode
  rw [hmem]
  simp

theorem collected_of_normalizeModes {modes : Option (List Text)} {normalized : List Text}
    (h : normalizeModes py modes = some normalized) : Collected py normalized ∧ normalized ≠ [] := by
  obtain ⟨spellings, rfl, hsource⟩ := Option.bind_eq_some_iff.mp h
  exact normalizeAcceptedOutputModes_eq_some hsource

theorem normalizeModes_eq_none {modes : Option (List Text)} :
    normalizeModes py modes = none ↔ Unrestricted py modes := by
  unfold Unrestricted
  cases modes with
  | none =>
      constructor
      · intro _ spellings h
        cases h
      · exact fun _ => rfl
  | some spellings =>
      simp only [Option.mem_some_iff, forall_eq']
      constructor
      · intro h
        exact (collectModes_spellings.1 h).imp_right And.right
      · intro h
        cases hcollected : normalizeModes py (some spellings) with
        | none => rfl
        | some normalized =>
            exfalso
            obtain ⟨hnormal, hne⟩ := collected_of_normalizeModes hcollected
            obtain ⟨mode, hmode⟩ := List.exists_mem_of_ne_nil _ hne
            rcases h with ⟨spelling, hspelling, hwild⟩ | hblank
            · have hfull : py.lower (Text.strip spelling) ≠ [] := by
                intro hnil
                rw [hnil] at hwild
                revert hwild
                decide
              have hmem := (mem_normalizeModes hcollected _).mpr ⟨hfull, spelling, hspelling, rfl⟩
              rw [(hnormal.normal _ hmem).2.2] at hwild
              cases hwild
            · obtain ⟨hfull, spelling, hspelling, rfl⟩ := (mem_normalizeModes hcollected mode).mp hmode
              exact hfull (hblank spelling hspelling)

/-! ## §4  Annotating -/

/-- A task or an event, as the protocol carries it: with a `Struct` for its metadata. -/
inductive TaskOrEvent (δ : Type) where
  | task (id contextId : Text) (status : TaskStatus) (history : List Message)
      (artifacts : List Artifact) (metadata : Struct δ)
  | statusUpdate (taskId contextId : Text) (status : TaskStatus) (metadata : Struct δ)
  | artifactUpdate (taskId contextId : Text) (artifact : Artifact) (append lastChunk : Bool)
      (metadata : Struct δ)

namespace TaskOrEvent

def metadata : TaskOrEvent δ → Struct δ
  | .task _ _ _ _ _ metadata => metadata
  | .statusUpdate _ _ _ metadata => metadata
  | .artifactUpdate _ _ _ _ _ metadata => metadata

/-- A clone whose metadata is cleared and filled anew. -/
def withMetadata (payload : TaskOrEvent δ) (metadata : Struct δ) : TaskOrEvent δ :=
  match payload with
  | .task id contextId status history artifacts _ =>
      .task id contextId status history artifacts metadata
  | .statusUpdate taskId contextId status _ => .statusUpdate taskId contextId status metadata
  | .artifactUpdate taskId contextId artifact append lastChunk _ =>
      .artifactUpdate taskId contextId artifact append lastChunk metadata

/-- The payload with a dictionary for its metadata. -/
def toPayload (d : Doubles δ) : TaskOrEvent δ → Payload
  | .task id _ status history artifacts metadata =>
      .task { id, status, history, artifacts, metadata := jsonFields d metadata }
  | .statusUpdate taskId _ status metadata =>
      .statusUpdate { taskId, status, metadata := jsonFields d metadata }
  | .artifactUpdate taskId _ artifact _ _ metadata =>
      .artifactUpdate { taskId, artifact, metadata := jsonFields d metadata }

end TaskOrEvent

variable (py) in
/-- A branch of `annotate_output_negotiation_metadata`, up to the clone. Modes that are
normalised are some modes, so that there is always something to merge. -/
def annotateStruct (pb : StructFunctions d) (metadata : Struct δ) (normalized : List Text) :
    Except StructError (Struct δ) :=
  (pb.messageToDict metadata).bind fun existing =>
    let merged := mergeOutputNegotiationMetadata py existing (some normalized)
    if merged.isEmpty then .ok [] else pb.update merged

variable (py) in
/-- `annotate_output_negotiation_metadata` of a task or an event -/
def TaskOrEvent.annotate (pb : StructFunctions d) (payload : TaskOrEvent δ)
    (modes : Option (List Text)) : Except StructError (TaskOrEvent δ) :=
  match normalizeModes py modes with
  | none => .ok payload
  | some normalized => (annotateStruct py pb payload.metadata normalized).map payload.withMetadata

variable (py) in
/-- `extract_accepted_output_modes_from_metadata` of a `Struct` -/
def extractAcceptedOutputModesFromStruct (pb : StructFunctions d) (metadata : Struct δ) :
    Except StructError (Option (List Text)) :=
  (pb.messageToDict metadata).map (extractAcceptedOutputModesFromMetadata py)

/-- What stands under `opencode`, where it is an object. -/
def opencodeFields (metadata : Struct δ) : Struct δ :=
  match metadata.lookup "opencode".toList with
  | some (.struct fields) => fields
  | _ => []

/-- The modes as they are kept in a struct. -/
def negotiatedModes (δ : Type) (normalized : List Text) : StructValue δ :=
  .struct [("accepted_output_modes".toList,
    .list ((normalized.insertionSort (· ≤ ·)).map StructValue.str))]

/-- The metadata with the modes set in it, all as structs. -/
def annotatedStruct (metadata : Struct δ) (normalized : List Text) : Struct δ :=
  Entries.set metadata "opencode".toList
    (.struct (Entries.set (opencodeFields metadata) "output_negotiation".toList
      (negotiatedModes δ normalized)))

theorem json_negotiatedModes (normalized : List Text) :
    (negotiatedModes δ normalized).json d = .obj [("accepted_output_modes".toList,
      .arr ((normalized.insertionSort (· ≤ ·)).map .str))] := by
  unfold negotiatedModes
  rw [StructValue.json, jsonFields, StructValue.json, jsonValues_eq, List.map_map]
  rfl

theorem finite_negotiatedModes (normalized : List Text) :
    (negotiatedModes δ normalized).Finite d := by
  unfold negotiatedModes
  rw [StructValue.Finite, FiniteFields, StructValue.Finite, finiteValues_iff]
  refine ⟨?_, trivial⟩
  intro v hv
  obtain ⟨mode, -, rfl⟩ := List.mem_map.mp hv
  trivial

/-- Reading a key of a struct and of its dictionary agree. -/
theorem get?_jsonFields (fields : Struct δ) (key : String) :
    Mapping.get? (jsonFields d fields) key =
      (fields.lookup key.toList).map (StructValue.json d) := by
  rw [jsonFields_eq]
  exact Entries.lookup_mapValues _ _ _

theorem getMappingD_opencode (metadata : Struct δ) :
    Mapping.getMappingD (jsonFields d metadata) "opencode" =
      jsonFields d (opencodeFields metadata) := by
  unfold Mapping.getMappingD Mapping.getMapping? opencodeFields
  rw [get?_jsonFields]
  cases metadata.lookup "opencode".toList with
  | none => rfl
  | some v => cases v <;> rfl

/-- Merging into the dictionary is setting in the struct. -/
theorem mergeOutputNegotiationMetadata_jsonFields (metadata : Struct δ) {normalized : List Text}
    (h : Collected py normalized) (hne : normalized ≠ []) :
    mergeOutputNegotiationMetadata py (jsonFields d metadata) (some normalized) =
      jsonFields d (annotatedStruct metadata normalized) := by
  unfold mergeOutputNegotiationMetadata buildOutputNegotiationMetadata annotatedStruct
  rw [normalizeModes_collected h hne, jsonFields_eq (Entries.set _ _ _), Entries.mapValues_set,
    ← jsonFields_eq, StructValue.json, jsonFields_eq (Entries.set _ _ _), Entries.mapValues_set,
    ← jsonFields_eq, json_negotiatedModes, ← getMappingD_opencode]
  rfl

theorem finite_annotatedStruct {metadata : Struct δ} (h : FiniteFields d metadata)
    (normalized : List Text) : FiniteFields d (annotatedStruct metadata normalized) := by
  unfold annotatedStruct
  apply finiteFields_set h
  rw [StructValue.Finite]
  apply finiteFields_set _ (finite_negotiatedModes normalized)
  unfold opencodeFields
  split
  · rename_i fields hfields
    have hmem := Entries.mem_of_lookup hfields
    have hstruct := finiteFields_iff.mp h _ hmem
    rw [StructValue.Finite] at hstruct
    exact hstruct
  · trivial

theorem annotateStruct_eq (pb : StructFunctions d) {metadata : Struct δ}
    (hfinite : FiniteFields d metadata) {normalized : List Text} (h : Collected py normalized)
    (hne : normalized ≠ []) :
    annotateStruct py pb metadata normalized = .ok (annotatedStruct metadata normalized) := by
  unfold annotateStruct
  rw [pb.messageToDict_finite hfinite]
  show (if _ then _ else _) = _
  rw [mergeOutputNegotiationMetadata_jsonFields metadata h hne,
    pb.update_jsonFields (finite_annotatedStruct hfinite normalized), if_neg]
  rw [jsonFields_eq, List.isEmpty_iff, Entries.mapValues, List.map_eq_nil_iff]
  exact Entries.set_ne_nil _ _ _

theorem extract_annotatedStruct (pb : StructFunctions d) {metadata : Struct δ}
    (hfinite : FiniteFields d metadata) {normalized : List Text} (h : Collected py normalized)
    (hne : normalized ≠ []) :
    extractAcceptedOutputModesFromStruct py pb (annotatedStruct metadata normalized) =
      .ok (some (normalized.insertionSort (· ≤ ·))) := by
  have hread := extract_merge (jsonFields d metadata) h hne
  rw [mergeOutputNegotiationMetadata_jsonFields metadata h hne] at hread
  unfold extractAcceptedOutputModesFromStruct
  rw [pb.messageToDict_finite (finite_annotatedStruct hfinite normalized)]
  exact congrArg Except.ok hread

theorem lookup_opencode_annotatedStruct (metadata : Struct δ) (normalized : List Text) :
    (annotatedStruct metadata normalized).lookup "opencode".toList =
      some (.struct (Entries.set (opencodeFields metadata) "output_negotiation".toList
        (negotiatedModes δ normalized))) := by
  unfold annotatedStruct
  rw [Entries.lookup_set, if_pos rfl]

theorem opencodeFields_annotatedStruct (metadata : Struct δ) (normalized : List Text) :
    opencodeFields (annotatedStruct metadata normalized) =
      Entries.set (opencodeFields metadata) "output_negotiation".toList
        (negotiatedModes δ normalized) := by
  rw [opencodeFields, lookup_opencode_annotatedStruct]

@[simp] theorem TaskOrEvent.withMetadata_metadata (payload : TaskOrEvent δ) (metadata : Struct δ) :
    (payload.withMetadata metadata).metadata = metadata := by
  cases payload <;> rfl

/-- An annotated payload, read with dictionaries, is the annotated payload with
dictionaries. -/
theorem toPayload_annotate (pb : StructFunctions d) {payload payload' : TaskOrEvent δ}
    {modes : Option (List Text)} (hfinite : FiniteFields d payload.metadata)
    (h : payload.annotate py pb modes = .ok payload') :
    payload'.toPayload d = annotateOutputNegotiationMetadata py (payload.toPayload d) modes := by
  unfold TaskOrEvent.annotate at h
  split at h
  · rename_i hnone
    cases h
    cases payload <;>
      simp only [TaskOrEvent.toPayload, annotateOutputNegotiationMetadata, annotateTask,
        annotatedMetadata, hnone]
  · rename_i normalized hnormalized
    obtain ⟨hcollected, hne⟩ := collected_of_normalizeModes hnormalized
    rw [annotateStruct_eq pb hfinite hcollected hne] at h
    cases h
    have hmerge := mergeOutputNegotiationMetadata_jsonFields (d := d) payload.metadata hcollected hne
    cases payload <;>
      simp only [TaskOrEvent.toPayload, TaskOrEvent.withMetadata, annotateOutputNegotiationMetadata,
        annotateTask, annotatedMetadata, hnormalized, TaskOrEvent.metadata] at hmerge ⊢ <;>
      rw [hmerge]

variable (py) in
/-- What annotating does: only the metadata of the payload is another, the modes are read
from it again, and nothing but `opencode.output_negotiation` differs in it. -/
structure RoundTrip (pb : StructFunctions d) (payload : TaskOrEvent δ) (modes : Option (List Text))
    (metadata : Struct δ) (found : List Text) : Prop where
  annotated : payload.annotate py pb modes = .ok (payload.withMetadata metadata)
  extracted : extractAcceptedOutputModesFromStruct py pb metadata = .ok (some found)
  normalized : ∃ normalized, normalizeModes py modes = some normalized ∧ found.Perm normalized
  nodup : found.Nodup
  mem : ∀ mode, mode ∈ found ↔ mode ≠ [] ∧
    ∃ spellings ∈ modes, ∃ spelling ∈ spellings, py.lower (Text.strip spelling) = mode
  outside : ∀ key, key ≠ "opencode".toList → metadata.lookup key = payload.metadata.lookup key
  object : metadata.lookup "opencode".toList = some (.struct (opencodeFields metadata))
  siblings : ∀ key, key ≠ "output_negotiation".toList →
    (opencodeFields metadata).lookup key = (opencodeFields payload.metadata).lookup key

/-- Modes that restrict nothing leave a payload as it is; others are read from the
annotated payload again, and all other metadata stays. -/
theorem annotated_modes_round_trip (py : TextFunctions) (pb : StructFunctions d)
    (payload : TaskOrEvent δ) (modes : Option (List Text))
    (hfinite : FiniteFields d payload.metadata) :
    (Unrestricted py modes → payload.annotate py pb modes = .ok payload) ∧
    (¬ Unrestricted py modes →
      ∃ metadata found, RoundTrip py pb payload modes metadata found) := by
  rw [← normalizeModes_eq_none]
  constructor
  · intro hnone
    rw [TaskOrEvent.annotate, hnone]
  · intro hsome
    obtain ⟨normalized, hnormalized⟩ := Option.ne_none_iff_exists'.mp hsome
    cases modes with
    | none => exact absurd rfl hsome
    | some spellings =>
        obtain ⟨hcollected, hne⟩ := collected_of_normalizeModes hnormalized
        have hperm := List.perm_insertionSort (· ≤ ·) normalized
        refine ⟨annotatedStruct payload.metadata normalized, normalized.insertionSort (· ≤ ·), ?_⟩
        constructor
        case annotated =>
          rw [TaskOrEvent.annotate, hnormalized]
          simp only
          rw [annotateStruct_eq pb hfinite hcollected hne]
          rfl
        case extracted => exact extract_annotatedStruct pb hfinite hcollected hne
        case normalized => exact ⟨normalized, hnormalized, hperm⟩
        case nodup => exact hperm.nodup_iff.mpr hcollected.nodup
        case mem =>
          intro mode
          rw [hperm.mem_iff, mem_normalizeModes hnormalized]
          simp
        case outside =>
          intro key hkey
          rw [annotatedStruct, Entries.lookup_set, if_neg hkey]
        case object =>
          rw [lookup_opencode_annotatedStruct, opencodeFields_annotatedStruct]
        case siblings =>
          intro key hkey
          rw [opencodeFields_annotatedStruct, Entries.lookup_set, if_neg hkey]

/-- Doubles by their `repr`; without one, the double is not a number. -/
def doublesByRepr : Doubles (Option Text) where
  isFinite := Option.isSome
  repr := fun x => x.getD "nan".toList
  isZero := fun x => x == some "0.0".toList || x == some "-0.0".toList

def structFunctionsByRepr : StructFunctions doublesByRepr :=
  .recursive doublesByRepr some (fun n => some ((toString n).toList ++ ".0".toList)) (by
    intro x hx
    cases x with
    | none => cases hx
    | some lit => rfl)

/-- A status update whose metadata has a number, and an entry beside the modes. -/
def usageUpdate : TaskOrEvent (Option Text) :=
  .statusUpdate "task-1".toList "ctx-1".toList { state := .working }
    [("shared".toList, .struct [("usage".toList,
      .struct [("total_tokens".toList, .number (some "5.0".toList))])]),
    ("opencode".toList, .struct [("session".toList, .str "ses-1".toList)])]

theorem usageUpdate_round_trip :
    ∃ metadata found, RoundTrip (.ascii fun _ => []) structFunctionsByRepr usageUpdate
      (some [" Text/PLAIN ".toList, "text/plain".toList, "application/json".toList])
      metadata found := by
  have hfinite : FiniteFields doublesByRepr usageUpdate.metadata :=
    ⟨⟨⟨rfl, trivial⟩, trivial⟩, ⟨trivial, trivial⟩, trivial⟩
  refine (annotated_modes_round_trip (.ascii fun _ => []) structFunctionsByRepr usageUpdate _
    hfinite).2 ?_
  rw [← normalizeModes_eq_none]
  decide

end OpencodeA2a.Server
