import Mathlib.Data.Char
import Mathlib.Data.List.Lex
import Mathlib.Data.List.Sort
import OpencodeA2a.Server.Payloads

/-!
# Accepted output modes

`output_modes.py`: the media types that a client accepts, how they are kept in a
task's metadata, and what of a payload is left under them.
-/

namespace OpencodeA2a.Server

open OpencodeA2a.Stream

/-- What the negotiation takes from the standard library. -/
structure TextFunctions where
  /-- `str.lower` -/
  lower : Text → Text
  /-- `json.dumps` with sorted keys and without blanks -/
  dumps : Json → Text
  lower_lower : ∀ t, lower (lower t) = lower t
  /-- Lowering a text neither makes nor uncovers white space at its ends. -/
  strip_lower : ∀ t, Text.strip (lower (Text.strip t)) = lower (Text.strip t)

theorem toNat_toLower (c : Char) :
    c.toLower.toNat = if 65 ≤ c.toNat ∧ c.toNat ≤ 90 then c.toNat + 32 else c.toNat := by
  have hupper : (c.val ≥ 'A'.val ∧ c.val ≤ 'Z'.val) ↔ 65 ≤ c.toNat ∧ c.toNat ≤ 90 := by
    simp only [ge_iff_le, UInt32.le_iff_toNat_le]
    rfl
  unfold Char.toLower
  split
  · rename_i h
    have hn := hupper.mp h
    rw [if_pos hn]
    show (c.val + 32).toNat = c.val.toNat + 32
    have hlt : c.val.toNat ≤ 90 := hn.2
    rw [UInt32.toNat_add]
    exact Nat.mod_eq_of_lt (Nat.lt_of_le_of_lt (Nat.add_le_add_right hlt 32) (by decide))
  · rename_i h
    rw [if_neg fun hn => h (hupper.mpr hn)]

theorem isSpace_toLower (c : Char) : isSpace c.toLower = isSpace c := by
  simp only [isSpace, toNat_toLower]
  split
  · rename_i h
    rw [Bool.eq_iff_iff]
    simp only [Bool.or_eq_true, Bool.and_eq_true, decide_eq_true_eq, beq_iff_eq]
    omega
  · rfl

theorem toLower_toLower (c : Char) : c.toLower.toLower = c.toLower := by
  refine Char.toNat_inj.mp ?_
  rw [toNat_toLower, toNat_toLower]
  split_ifs <;> omega

theorem Text.strip_lower (t : Text) : Text.strip (Text.lower t) = Text.lower (Text.strip t) := by
  have hspace : isSpace ∘ Char.toLower = isSpace := funext isSpace_toLower
  simp only [Text.strip, Text.lower, Strip.strip, List.rdropWhile, List.dropWhile_map,
    ← List.map_reverse, hspace]

/-- The functions on texts of ASCII characters. -/
def TextFunctions.ascii (dumps : Json → Text) : TextFunctions where
  lower := Text.lower
  dumps := dumps
  lower_lower := by
    intro t
    show (t.map Char.toLower).map Char.toLower = t.map Char.toLower
    rw [List.map_map]
    exact List.map_congr_left fun c _ => toLower_toLower c
  strip_lower := by
    intro t
    rw [Text.strip_lower, Text.strip_strip]

def textPlainMediaType : Text := "text/plain".toList

def applicationJsonMediaType : Text := "application/json".toList

def applicationOctetStream : Text := "application/octet-stream".toList

/-! ## §1  Normalised modes -/

/-- `mode in {"*", "*/*"}` -/
def isWildcard (mode : Text) : Bool := mode == "*".toList || mode == "*/*".toList

variable (py : TextFunctions)

/-- The loop of `normalize_accepted_output_modes`; a wildcard ends it. -/
def collectModes : List Json → List Text → Option (List Text)
  | [], normalized => if normalized = [] then none else some normalized
  | .str value :: values, normalized =>
      let mode := py.lower value.strip
      if mode = [] ∨ mode ∈ normalized then collectModes values normalized
      else if isWildcard mode then none
      else collectModes values (normalized ++ [mode])
  | _ :: values, normalized => collectModes values normalized

/-- `normalize_accepted_output_modes` of a decoded value: only a list is iterated. -/
def normalizeAcceptedOutputModes (source : Json) : Option (List Text) :=
  match source with
  | .arr values => collectModes py values []
  | _ => none

/-- The same of a tuple of strings, where there is one. -/
def normalizeModes (modes : Option (List Text)) : Option (List Text) :=
  modes.bind fun modes => normalizeAcceptedOutputModes py (.arr (modes.map .str))

/-- What the loop has collected, as long as no wildcard came. -/
structure Collected (modes : List Text) : Prop where
  nodup : modes.Nodup
  normal : ∀ mode ∈ modes, py.lower mode.strip = mode ∧ mode ≠ [] ∧ isWildcard mode = false

variable {py}

theorem collectModes_eq_some {values : List Json} {normalized modes : List Text}
    (hnormalized : Collected py normalized) (h : collectModes py values normalized = some modes) :
    Collected py modes ∧ modes ≠ [] := by
  induction values generalizing normalized with
  | nil =>
      simp only [collectModes] at h
      split at h
      · cases h
      · rename_i hne
        rw [Option.some.injEq] at h
        subst h
        exact ⟨hnormalized, hne⟩
  | cons value values ih =>
      cases value with
      | str value =>
          simp only [collectModes] at h
          split at h
          · exact ih hnormalized h
          · rename_i hnew
            rw [not_or] at hnew
            split at h
            · cases h
            · rename_i hwild
              refine ih ⟨?_, ?_⟩ h
              · rw [List.nodup_append]
                refine ⟨hnormalized.nodup, List.nodup_singleton _, ?_⟩
                rintro a ha b hb rfl
                rw [List.mem_singleton] at hb
                exact hnew.2 (hb ▸ ha)
              · intro mode hmode
                rcases List.mem_append.mp hmode with hmode | hmode
                · exact hnormalized.normal mode hmode
                · rw [List.mem_singleton] at hmode
                  subst hmode
                  refine ⟨?_, hnew.1, Bool.eq_false_iff.mpr hwild⟩
                  rw [py.strip_lower, py.lower_lower]
      | null => exact ih hnormalized h
      | bool b => exact ih hnormalized h
      | int n => exact ih hnormalized h
      | float lit isZero => exact ih hnormalized h
      | arr items => exact ih hnormalized h
      | obj entries => exact ih hnormalized h

/-- Collected modes are collected again as they are. -/
theorem collectModes_collected {modes normalized : List Text}
    (h : Collected py (normalized ++ modes)) (hne : normalized ++ modes ≠ []) :
    collectModes py (modes.map .str) normalized = some (normalized ++ modes) := by
  induction modes generalizing normalized with
  | nil =>
      rw [List.append_nil] at hne ⊢
      simp only [List.map_nil, collectModes]
      rw [if_neg hne]
  | cons mode modes ih =>
      obtain ⟨hnormal, hmode, hwild⟩ := h.normal mode (by simp)
      have hnew : mode ∉ normalized := by
        intro hmem
        exact (List.nodup_append.mp h.nodup).2.2 mode hmem mode (by simp) rfl
      have hshift : normalized ++ mode :: modes = (normalized ++ [mode]) ++ modes := by simp
      simp only [List.map_cons, collectModes, hnormal]
      rw [if_neg (by tauto), if_neg (by simp [hwild]), ih (hshift ▸ h) (by simp), hshift]

theorem Collected.perm {modes modes' : List Text} (h : Collected py modes)
    (hperm : modes'.Perm modes) : Collected py modes' where
  nodup := hperm.nodup_iff.mpr h.nodup
  normal := fun mode hmode => h.normal mode (hperm.mem_iff.mp hmode)

theorem normalizeAcceptedOutputModes_eq_some {source : Json} {modes : List Text}
    (h : normalizeAcceptedOutputModes py source = some modes) :
    Collected py modes ∧ modes ≠ [] := by
  unfold normalizeAcceptedOutputModes at h
  split at h
  · exact collectModes_eq_some ⟨List.nodup_nil, by simp⟩ h
  · cases h

/-- Normalising once is enough. -/
theorem normalizeModes_collected {modes : List Text} (h : Collected py modes) (hne : modes ≠ []) :
    normalizeModes py (some modes) = some modes :=
  @collectModes_collected py modes [] h hne

/-! ## §2  Modes in a task's metadata -/

variable (py) in
/-- `build_output_negotiation_metadata` -/
def buildOutputNegotiationMetadata (modes : Option (List Text)) : Option Mapping :=
  (normalizeModes py modes).map fun normalized =>
    [("opencode".toList, .obj [("output_negotiation".toList, .obj
      [("accepted_output_modes".toList,
        .arr ((normalized.insertionSort (· ≤ ·)).map .str))])])]

variable (py) in
/-- `merge_output_negotiation_metadata` -/
def mergeOutputNegotiationMetadata (metadata : Mapping) (modes : Option (List Text)) : Mapping :=
  match buildOutputNegotiationMetadata py modes with
  | none => metadata
  | some negotiation =>
      metadata.set "opencode".toList (.obj
        ((metadata.getMappingD "opencode").set "output_negotiation".toList
          (.obj ((negotiation.getMappingD "opencode").getMappingD "output_negotiation"))))

variable (py) in
/-- `extract_accepted_output_modes_from_metadata` -/
def extractAcceptedOutputModesFromMetadata (metadata : Mapping) : Option (List Text) :=
  if metadata.isEmpty then none
  else
    match metadata.getMapping? "opencode" with
    | none => none
    | some opencode =>
        match opencode.getMapping? "output_negotiation" with
        | none => none
        | some negotiation =>
            normalizeAcceptedOutputModes py (getOrNone negotiation "accepted_output_modes")

variable (py) in
/-- What `annotate_output_negotiation_metadata` makes of the metadata of a payload. -/
def annotatedMetadata (metadata : Mapping) (modes : Option (List Text)) : Mapping :=
  match normalizeModes py modes with
  | none => metadata
  | some normalized => mergeOutputNegotiationMetadata py metadata normalized

variable (py) in
/-- `annotate_output_negotiation_metadata` of a task -/
def annotateTask (t : Task) (modes : Option (List Text)) : Task :=
  { t with metadata := annotatedMetadata py t.metadata modes }

variable (py) in
/-- `annotate_output_negotiation_metadata`; messages are left as they are. -/
def annotateOutputNegotiationMetadata (payload : Payload) (modes : Option (List Text)) : Payload :=
  match payload with
  | .task t => .task (annotateTask py t modes)
  | .statusUpdate e => .statusUpdate { e with metadata := annotatedMetadata py e.metadata modes }
  | .artifactUpdate e =>
      .artifactUpdate { e with metadata := annotatedMetadata py e.metadata modes }
  | .message m => .message m

/-- Modes written into metadata are read from it again, sorted. -/
theorem extract_merge (metadata : Mapping) {modes : List Text} (h : Collected py modes)
    (hne : modes ≠ []) :
    extractAcceptedOutputModesFromMetadata py (mergeOutputNegotiationMetadata py metadata modes) =
      some (modes.insertionSort (· ≤ ·)) := by
  have hperm := List.perm_insertionSort (· ≤ ·) modes
  have hsorted : Collected py (modes.insertionSort (· ≤ ·)) := h.perm hperm
  have hsorted_ne : modes.insertionSort (· ≤ ·) ≠ [] := by
    intro hnil
    rw [hnil] at hperm
    exact hne hperm.nil_eq.symm
  have hread := normalizeModes_collected hsorted hsorted_ne
  unfold mergeOutputNegotiationMetadata buildOutputNegotiationMetadata
  rw [normalizeModes_collected h hne]
  unfold extractAcceptedOutputModesFromMetadata
  have hset : ∀ (m : Mapping) (k : String) (n : Mapping),
      (m.set k.toList (.obj n)).getMapping? k = some n := by
    intro m k n
    rw [Mapping.getMapping?_eq_some, Mapping.get?_set, if_pos rfl]
  have hfull : ∀ (m : Mapping) (k : Text) (v : Json), (m.set k v).isEmpty = false := by
    intro m k v
    exact List.isEmpty_eq_false_iff.mpr (Entries.set_ne_nil m k v)
  simp only [Option.map_some, hfull, hset]
  exact hread

/-- The other entries of the metadata stay. -/
theorem get?_annotatedMetadata (metadata : Mapping) (modes : Option (List Text)) {key : String}
    (h : key.toList ≠ "opencode".toList) :
    (annotatedMetadata py metadata modes).get? key = metadata.get? key := by
  unfold annotatedMetadata mergeOutputNegotiationMetadata
  split
  · rfl
  · split
    · rfl
    · rw [Mapping.get?_set, if_neg h]

theorem extract_annotatedMetadata (metadata : Mapping) {modes : List Text}
    (h : Collected py modes) (hne : modes ≠ []) :
    extractAcceptedOutputModesFromMetadata py (annotatedMetadata py metadata (some modes)) =
      some (modes.insertionSort (· ≤ ·)) := by
  unfold annotatedMetadata
  rw [normalizeModes_collected h hne]
  exact extract_merge metadata h hne

/-! ## §3  What is left of a payload -/

/-- `accepts_output_mode` -/
def acceptsOutputMode (modes : Option (List Text)) (mediaType : Text) : Bool :=
  match modes with
  | none => true
  | some modes => modes.contains mediaType

/-- The media type of a part, as `_filter_parts` takes it; a part without content
has none. -/
def Part.mediaType? (p : Part) : Option Text :=
  match p.content with
  | .text _ => some textPlainMediaType
  | .data _ => some applicationJsonMediaType
  | .raw _ | .url _ =>
      some (if p.mediaType = [] then applicationOctetStream else p.mediaType)
  | .unset => none

variable (py) in
/-- One round of `_filter_parts`. -/
def filterPart (modes : List Text) (p : Part) : Option Part :=
  if p.mediaType?.all (acceptsOutputMode (some modes)) then some p
  else if acceptsOutputMode (some modes) textPlainMediaType then
    match p.content with
    | .text t => some { content := .text t }
    | .data d => some { content := .text (py.dumps d) }
    | .raw _ | .url _ | .unset => none
  else none

variable (py) in
/-- `_filter_parts` -/
def filterParts (parts : List Part) (modes : List Text) : List Part :=
  parts.filterMap (filterPart py modes)

variable (py) in
/-- `_filter_message` -/
def filterMessage (message : Message) (modes : List Text) : Option Message :=
  if filterParts py message.parts modes = [] then none
  else some { message with parts := filterParts py message.parts modes }

variable (py) in
/-- `_filter_artifact` -/
def filterArtifact (artifact : Artifact) (modes : List Text) : Option Artifact :=
  if filterParts py artifact.parts modes = [] then none
  else some { artifact with parts := filterParts py artifact.parts modes }

variable (py) in
/-- `_filter_task` -/
def filterTask (task : Task) (modes : List Text) : Task :=
  { task with
    status := { task.status with
      message := task.status.message.bind fun message => filterMessage py message modes }
    history := task.history.filterMap fun message => filterMessage py message modes
    artifacts := task.artifacts.filterMap fun artifact => filterArtifact py artifact modes }

variable (py) in
/-- `apply_accepted_output_modes` -/
def applyAcceptedOutputModes (payload : Payload) (modes : Option (List Text)) : Option Payload :=
  match normalizeModes py modes with
  | none => some payload
  | some normalized =>
      match payload with
      | .artifactUpdate e =>
          (filterArtifact py e.artifact normalized).map fun artifact =>
            .artifactUpdate { e with artifact }
      | .statusUpdate e =>
          some (.statusUpdate { e with
            status := { e.status with
              message := e.status.message.bind fun message =>
                filterMessage py message normalized } })
      | .task t => some (.task (filterTask py t normalized))
      | .message m =>
          some (.message ((filterMessage py m normalized).getD { m with parts := [] }))

/-- A part that the client takes: what it holds is of one of the modes. -/
def Part.Acceptable (modes : List Text) (p : Part) : Prop :=
  ∀ mediaType, p.mediaType? = some mediaType → mediaType ∈ modes

theorem acceptsOutputMode_iff {modes : List Text} {mediaType : Text} :
    acceptsOutputMode (some modes) mediaType = true ↔ mediaType ∈ modes :=
  List.contains_iff_mem

/-- `_extract_artifact_stream_block_type` -/
def extractArtifactStreamBlockType (artifact : Artifact) : Option Text :=
  (artifact.metadata.getMapping? "shared").bind fun shared =>
    (shared.getMapping? "stream").bind fun stream =>
      (stream.getStr? "block_type").bind nonempty?

/-- One round of the loop. -/
def canonicalizeArtifact (artifact : Artifact) : Artifact :=
  match artifact.parts with
  | [] => artifact
  | first :: parts =>
      let blockType := extractArtifactStreamBlockType artifact
      if (blockType = some "text".toList ∨ blockType = some "reasoning".toList) ∧
          (first :: parts).all Part.hasText then
        { artifact with
          parts := [{ first with content := .text ((first :: parts).flatMap Part.text) }] }
      else if blockType = some "tool_call".toList ∧ 1 < (first :: parts).length then
        { artifact with parts := ((first :: parts).getLast?).toList }
      else artifact

def canonicalizeStreamArtifacts (task : Task) : Task :=
  { task with artifacts := task.artifacts.map canonicalizeArtifact }

end OpencodeA2a.Server
