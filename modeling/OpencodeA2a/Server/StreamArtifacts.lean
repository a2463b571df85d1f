import OpencodeA2a.Library.Fold
import OpencodeA2a.Server.OutputModes

/-!
# Canonical artifacts while a task grows

Artifact updates are folded into a task by the SDK, and the task stores compact the
artifacts of what they save. The artifacts come out the same whichever saves fell
between the updates.
-/

namespace OpencodeA2a.Server

open OpencodeA2a.Stream

/-! ## §1  Updates -/

/-- The artifact of a `TaskArtifactUpdateEvent`, and whether it is appended. -/
structure ArtifactChange where
  artifact : Artifact
  append : Bool

/-- What the SDK makes of the metadata of an artifact and of what is appended to it. -/
abbrev JoinMetadata := Mapping → Mapping → Mapping

def Artifact.extend (joins : JoinMetadata) (a b : Artifact) : Artifact :=
  { a with parts := a.parts ++ b.parts, metadata := joins a.metadata b.metadata }

/-- The first artifact with the id is changed; `none` where there is none. -/
def changeArtifact (id : Text) (f : Artifact → Artifact) : List Artifact → Option (List Artifact)
  | [] => none
  | a :: as =>
      if a.artifactId = id then some (f a :: as) else (changeArtifact id f as).map (a :: ·)

/-- What an update makes of the artifact that has its id. -/
def ArtifactChange.change (joins : JoinMetadata) (u : ArtifactChange) (a : Artifact) : Artifact :=
  if u.append then a.extend joins u.artifact else u.artifact

/-- Appended to an artifact that is not there, an update is ignored. -/
def applyChange (joins : JoinMetadata) (task : Task) (u : ArtifactChange) : Task :=
  { task with
    artifacts :=
      (changeArtifact u.artifact.artifactId (u.change joins) task.artifacts).getD
        (if u.append then task.artifacts else task.artifacts ++ [u.artifact]) }

/-! ## §2  Lanes -/

/-- The block type of each artifact id. -/
abbrev Lanes := Text → Option Text

def isTextLane (blockType : Option Text) : Prop :=
  blockType = some "text".toList ∨ blockType = some "reasoning".toList

structure Artifact.InLane (lanes : Lanes) (a : Artifact) : Prop where
  blockType : extractArtifactStreamBlockType a = lanes a.artifactId
  texts : isTextLane (lanes a.artifactId) → a.parts.all Part.hasText = true

/-- The update leaves the artifact with its block type, and a text lane with texts alone. -/
def ArtifactChange.InLane (joins : JoinMetadata) (lanes : Lanes) (u : ArtifactChange) : Prop :=
  if u.append then
    (∀ a : Artifact, a.artifactId = u.artifact.artifactId → a.InLane lanes →
      extractArtifactStreamBlockType (a.extend joins u.artifact) = lanes a.artifactId) ∧
    (isTextLane (lanes u.artifact.artifactId) → u.artifact.parts.all Part.hasText = true)
  else u.artifact.InLane lanes

def Task.InLanes (lanes : Lanes) (task : Task) : Prop := ∀ a ∈ task.artifacts, a.InLane lanes

/-! ## §3  One artifact -/

/-- The parts of an artifact, compacted. -/
def canonicalParts (blockType : Option Text) (parts : List Part) : List Part :=
  match parts with
  | [] => []
  | first :: rest =>
      if (blockType = some "text".toList ∨ blockType = some "reasoning".toList) ∧
          (first :: rest).all Part.hasText then
        [{ first with content := .text ((first :: rest).flatMap Part.text) }]
      else if blockType = some "tool_call".toList ∧ 1 < (first :: rest).length then
        ((first :: rest).getLast?).toList
      else first :: rest

theorem canonicalParts_cons_of_not (blockType : Option Text) {p : Part} {ps : List Part}
    (h : ¬ (isTextLane blockType ∧ (p :: ps).all Part.hasText = true)) :
    canonicalParts blockType (p :: ps) =
      if blockType = some "tool_call".toList ∧ 1 < (p :: ps).length then
        ((p :: ps).getLast?).toList
      else p :: ps :=
  if_neg h

theorem canonicalizeArtifact_eq (a : Artifact) :
    canonicalizeArtifact a =
      { a with parts := canonicalParts (extractArtifactStreamBlockType a) a.parts } := by
  obtain ⟨artifactId, parts, metadata⟩ := a
  unfold canonicalizeArtifact canonicalParts
  cases parts with
  | nil => rfl
  | cons first rest =>
      simp only
      split
      · rfl
      · split <;> rfl

theorem canonicalParts_texts {blockType : Option Text} (hlane : isTextLane blockType) {p : Part}
    {ps : List Part} (htexts : (p :: ps).all Part.hasText = true) :
    canonicalParts blockType (p :: ps) =
      [{ p with content := .text ((p :: ps).flatMap Part.text) }] :=
  if_pos ⟨hlane, htexts⟩

theorem canonicalParts_toolCall {blockType : Option Text} (hlane : ¬ isTextLane blockType)
    (htool : blockType = some "tool_call".toList) (parts : List Part) :
    canonicalParts blockType parts = parts.getLast?.toList := by
  cases parts with
  | nil => rfl
  | cons p ps =>
      rw [canonicalParts_cons_of_not blockType fun h => hlane h.1]
      cases ps with
      | nil => exact if_neg (by simp)
      | cons q ps => exact if_pos ⟨htool, by simp⟩

theorem canonicalParts_other {blockType : Option Text} (hlane : ¬ isTextLane blockType)
    (htool : blockType ≠ some "tool_call".toList) (parts : List Part) :
    canonicalParts blockType parts = parts := by
  cases parts with
  | nil => rfl
  | cons p ps =>
      rw [canonicalParts_cons_of_not blockType fun h => hlane h.1, if_neg fun h => htool h.1]

/-- Compacting before something is appended makes no difference. -/
theorem canonicalParts_append (blockType : Option Text) {parts parts' : List Part}
    (htexts : isTextLane blockType → (parts ++ parts').all Part.hasText = true) :
    canonicalParts blockType (canonicalParts blockType parts ++ parts') =
      canonicalParts blockType (parts ++ parts') := by
  by_cases hlane : isTextLane blockType
  · have happended := htexts hlane
    cases parts with
    | nil => rfl
    | cons p ps =>
        have hboth : (p :: ps).all Part.hasText = true ∧ parts'.all Part.hasText = true := by
          rwa [List.all_append, Bool.and_eq_true] at happended
        have hall : (p :: (ps ++ parts')).all Part.hasText = true := happended
        have hfirst : ({ p with content := .text ((p :: ps).flatMap Part.text) } :: parts').all
            Part.hasText = true := by
          rw [List.all_cons, hboth.2]
          rfl
        have hjoined : (({ p with content := .text ((p :: ps).flatMap Part.text) } : Part) ::
            parts').flatMap Part.text = (p :: (ps ++ parts')).flatMap Part.text := by
          rw [List.flatMap_cons, ← List.cons_append, List.flatMap_append]
          rfl
        rw [canonicalParts_texts hlane hboth.1, List.singleton_append, List.cons_append,
          canonicalParts_texts hlane hall, canonicalParts_texts hlane hfirst, hjoined]
  · by_cases htool : blockType = some "tool_call".toList
    · rw [canonicalParts_toolCall hlane htool, canonicalParts_toolCall hlane htool,
        canonicalParts_toolCall hlane htool, List.getLast?_append, List.getLast?_append]
      cases parts'.getLast? with
      | some p => rfl
      | none => cases parts.getLast? <;> rfl
    · rw [canonicalParts_other hlane htool parts]

theorem canonicalParts_canonicalParts (blockType : Option Text) (parts : List Part) :
    canonicalParts blockType (canonicalParts blockType parts) = canonicalParts blockType parts := by
  by_cases hlane : isTextLane blockType
  · cases parts with
    | nil => rfl
    | cons p ps =>
        by_cases htexts : (p :: ps).all Part.hasText = true
        · rw [canonicalParts_texts hlane htexts, canonicalParts_texts hlane rfl,
            List.flatMap_singleton]
          rfl
        · -- a part that is no text keeps the artifact as it is
          have hnot : ¬ blockType = some "tool_call".toList := by
            rintro rfl
            rcases hlane with h | h <;> simp at h
          have hstay : canonicalParts blockType (p :: ps) = p :: ps := by
            rw [canonicalParts_cons_of_not blockType fun h => htexts h.2, if_neg fun h => hnot h.1]
          rw [hstay, hstay]
  · by_cases htool : blockType = some "tool_call".toList
    · rw [canonicalParts_toolCall hlane htool, canonicalParts_toolCall hlane htool]
      cases parts.getLast? <;> rfl
    · rw [canonicalParts_other hlane htool, canonicalParts_other hlane htool]

theorem blockType_canonicalizeArtifact (a : Artifact) :
    extractArtifactStreamBlockType (canonicalizeArtifact a) =
      extractArtifactStreamBlockType a := by
  rw [canonicalizeArtifact_eq]
  rfl

theorem canonicalizeArtifact_self (a : Artifact) :
    canonicalizeArtifact (canonicalizeArtifact a) = canonicalizeArtifact a := by
  rw [canonicalizeArtifact_eq (canonicalizeArtifact a), blockType_canonicalizeArtifact,
    canonicalizeArtifact_eq a]
  simp only [canonicalParts_canonicalParts]

theorem canonicalizeArtifact_extend {lanes : Lanes} {joins : JoinMetadata} {a b : Artifact}
    (ha : a.InLane lanes)
    (hjoined : extractArtifactStreamBlockType (a.extend joins b) = lanes a.artifactId)
    (htexts : isTextLane (lanes a.artifactId) → b.parts.all Part.hasText = true) :
    canonicalizeArtifact ((canonicalizeArtifact a).extend joins b) =
      canonicalizeArtifact (a.extend joins b) := by
  rw [canonicalizeArtifact_eq a, ha.blockType, canonicalizeArtifact_eq,
    canonicalizeArtifact_eq (a.extend joins b)]
  have hsame : extractArtifactStreamBlockType
      (({ a with parts := canonicalParts (lanes a.artifactId) a.parts } : Artifact).extend joins b) =
      extractArtifactStreamBlockType (a.extend joins b) := rfl
  have hparts : canonicalParts _ (canonicalParts (lanes a.artifactId) a.parts ++ b.parts) = _ :=
    canonicalParts_append (lanes a.artifactId) fun hlane => by
      rw [List.all_append, ha.texts hlane, htexts hlane]
      rfl
  rw [hsame, hjoined]
  simp only [Artifact.extend, hparts]

/-! ## §4  The artifacts of a task -/

variable {lanes : Lanes} {joins : JoinMetadata}

theorem inLane_canonicalizeArtifact {a : Artifact} (h : a.InLane lanes) :
    (canonicalizeArtifact a).InLane lanes := by
  constructor
  · rw [blockType_canonicalizeArtifact, h.blockType, canonicalizeArtifact_eq]
  · intro hlane
    rw [canonicalizeArtifact_eq] at hlane ⊢
    have htexts := h.texts hlane
    rw [h.blockType]
    show (canonicalParts (lanes a.artifactId) a.parts).all Part.hasText = true
    cases hparts : a.parts with
    | nil => rfl
    | cons p ps =>
        rw [hparts] at htexts
        rw [canonicalParts_texts hlane htexts]
        rfl

theorem inLane_change {u : ArtifactChange} (hu : u.InLane joins lanes) {a : Artifact}
    (ha : a.InLane lanes) (hid : a.artifactId = u.artifact.artifactId) :
    (u.change joins a).InLane lanes := by
  unfold ArtifactChange.InLane at hu
  unfold ArtifactChange.change
  split at hu
  · rename_i happend
    rw [if_pos happend]
    refine ⟨hu.1 a hid ha, fun hlane => ?_⟩
    show (a.parts ++ u.artifact.parts).all Part.hasText = true
    have htexts : u.artifact.parts.all Part.hasText = true := hu.2 (hid ▸ hlane)
    rw [List.all_append, ha.texts hlane, htexts]
    rfl
  · rename_i happend
    rw [if_neg happend]
    exact hu

theorem canonicalizeArtifact_change {u : ArtifactChange} (hu : u.InLane joins lanes) {a : Artifact}
    (ha : a.InLane lanes) (hid : a.artifactId = u.artifact.artifactId) :
    canonicalizeArtifact (u.change joins (canonicalizeArtifact a)) =
      canonicalizeArtifact (u.change joins a) := by
  unfold ArtifactChange.InLane at hu
  unfold ArtifactChange.change
  split at hu
  · rename_i happend
    rw [if_pos happend, if_pos happend]
    exact canonicalizeArtifact_extend ha (hu.1 a hid ha) fun hlane => hu.2 (hid ▸ hlane)
  · rename_i happend
    rw [if_neg happend, if_neg happend]

theorem artifactId_canonicalizeArtifact (a : Artifact) :
    (canonicalizeArtifact a).artifactId = a.artifactId := by
  rw [canonicalizeArtifact_eq]

/-- The artifact that is changed is the same one after compacting. -/
theorem changeArtifact_canonicalize {u : ArtifactChange} (hu : u.InLane joins lanes)
    {as : List Artifact} (has : ∀ a ∈ as, a.InLane lanes) :
    (changeArtifact u.artifact.artifactId (u.change joins) (as.map canonicalizeArtifact)).map
        (List.map canonicalizeArtifact) =
      (changeArtifact u.artifact.artifactId (u.change joins) as).map
        (List.map canonicalizeArtifact) := by
  induction as with
  | nil => rfl
  | cons a as ih =>
      rw [List.forall_mem_cons] at has
      rw [List.map_cons, changeArtifact, changeArtifact, artifactId_canonicalizeArtifact]
      by_cases hid : a.artifactId = u.artifact.artifactId
      · rw [if_pos hid, if_pos hid, Option.map_some, Option.map_some, List.map_cons, List.map_cons,
          canonicalizeArtifact_change hu has.1 hid, List.map_map]
        have hself : canonicalizeArtifact ∘ canonicalizeArtifact = canonicalizeArtifact :=
          funext canonicalizeArtifact_self
        rw [hself]
      · have hcons : ∀ b : Artifact, (List.map canonicalizeArtifact) ∘ (b :: ·) =
            (canonicalizeArtifact b :: ·) ∘ List.map canonicalizeArtifact := fun _ => rfl
        rw [if_neg hid, if_neg hid, Option.map_map, Option.map_map, hcons, hcons,
          canonicalizeArtifact_self, ← Option.map_map, ih has.2, Option.map_map]

theorem changeArtifact_inLane {u : ArtifactChange} (hu : u.InLane joins lanes)
    {as as' : List Artifact} (has : ∀ a ∈ as, a.InLane lanes)
    (h : changeArtifact u.artifact.artifactId (u.change joins) as = some as') :
    ∀ a ∈ as', a.InLane lanes := by
  induction as generalizing as' with
  | nil => cases h
  | cons a as ih =>
      rw [List.forall_mem_cons] at has
      rw [changeArtifact] at h
      split at h
      · rename_i hid
        cases h
        rw [List.forall_mem_cons]
        exact ⟨inLane_change hu has.1 hid, has.2⟩
      · obtain ⟨as'', has'', rfl⟩ := Option.map_eq_some_iff.mp h
        rw [List.forall_mem_cons]
        exact ⟨has.1, ih has.2 has''⟩

theorem inLanes_applyChange {u : ArtifactChange} (hu : u.InLane joins lanes) {task : Task}
    (h : task.InLanes lanes) : (applyChange joins task u).InLanes lanes := by
  unfold Task.InLanes applyChange
  cases hc : changeArtifact u.artifact.artifactId (u.change joins) task.artifacts with
  | some as => exact changeArtifact_inLane hu h hc
  | none =>
      show ∀ a ∈ (if u.append then task.artifacts else task.artifacts ++ [u.artifact]), _
      split
      · exact h
      · rename_i happend
        intro a ha
        rcases List.mem_append.mp ha with ha | ha
        · exact h a ha
        · unfold ArtifactChange.InLane at hu
          rw [if_neg happend] at hu
          rw [List.mem_singleton.mp ha]
          exact hu

theorem canonicalizeStreamArtifacts_self (task : Task) :
    canonicalizeStreamArtifacts (canonicalizeStreamArtifacts task) =
      canonicalizeStreamArtifacts task := by
  unfold canonicalizeStreamArtifacts
  simp only [List.map_map]
  congr 1
  exact List.map_congr_left fun a _ => canonicalizeArtifact_self a

theorem canonicalizeStreamArtifacts_applyChange {u : ArtifactChange} (hu : u.InLane joins lanes)
    {task : Task} (h : task.InLanes lanes) :
    canonicalizeStreamArtifacts (applyChange joins (canonicalizeStreamArtifacts task) u) =
      canonicalizeStreamArtifacts (applyChange joins task u) := by
  have hchange := changeArtifact_canonicalize hu h
  unfold canonicalizeStreamArtifacts applyChange
  simp only
  congr 1
  cases hc : changeArtifact u.artifact.artifactId (u.change joins) task.artifacts with
  | some as =>
      rw [hc] at hchange
      obtain ⟨as', has', heq⟩ := Option.map_eq_some_iff.mp hchange
      rw [has']
      exact heq
  | none =>
      rw [hc] at hchange
      rw [Option.map_eq_none_iff.mp hchange, Option.getD_none, Option.getD_none]
      have hself : (task.artifacts.map canonicalizeArtifact).map canonicalizeArtifact =
          task.artifacts.map canonicalizeArtifact := by
        rw [List.map_map]
        exact List.map_congr_left fun a _ => canonicalizeArtifact_self a
      split
      · exact hself
      · rw [List.map_append, List.map_append, hself]

/-! ## §5  Saves between the updates -/

theorem canonicalize_transparent (lanes : Lanes) (joins : JoinMetadata) :
    Fold.Transparent (Task.InLanes lanes) (ArtifactChange.InLane joins lanes)
      canonicalizeStreamArtifacts (applyChange joins) where
  norm_norm := canonicalizeStreamArtifacts_self
  norm_mem := by
    intro task h a ha
    obtain ⟨b, hb, rfl⟩ := List.mem_map.mp ha
    exact inLane_canonicalizeArtifact (h b hb)
  step_mem := fun _ _ h hu => inLanes_applyChange hu h
  norm_step := fun _ _ h hu => canonicalizeStreamArtifacts_applyChange hu h

/-- The task after the updates, compacted after those that are marked. -/
def evolve (joins : JoinMetadata) (task : Task) (us : List (ArtifactChange × Bool)) : Task :=
  Fold.normalising canonicalizeStreamArtifacts (applyChange joins) task us

/-- Compacting after every update, after some of them or once at the end comes to the same
artifacts, and a compacted task is left as it is. -/
theorem canonicalize_commutes (joins : JoinMetadata) (lanes : Lanes) {task : Task}
    (htask : task.InLanes lanes) {us : List (ArtifactChange × Bool)}
    (hus : ∀ u ∈ us, u.1.InLane joins lanes) :
    canonicalizeStreamArtifacts (evolve joins task us) =
        canonicalizeStreamArtifacts ((us.map Prod.fst).foldl (applyChange joins) task) ∧
      ((∃ u, us.getLast? = some (u, true)) → evolve joins task us =
        canonicalizeStreamArtifacts ((us.map Prod.fst).foldl (applyChange joins) task)) ∧
      ∀ t, canonicalizeStreamArtifacts (canonicalizeStreamArtifacts t) =
        canonicalizeStreamArtifacts t := by
  have h := canonicalize_transparent lanes joins
  refine ⟨?_, ?_, canonicalizeStreamArtifacts_self⟩
  · exact h.norm_normalising htask hus
  · intro hlast
    exact h.normalising_eq htask hus hlast

/-- The entries of the update over those that are there. -/
def updateMetadata : JoinMetadata := fun m m' => m'.foldl (fun m entry => m.set entry.1 entry.2) m

/-- A lane of texts. -/
def textLane : Lanes := fun id => if id = "t".toList then some "text".toList else none

def textChunk (text : String) (append : Bool) : ArtifactChange where
  artifact :=
    { artifactId := "t".toList
      parts := [{ content := .text text.toList }]
      metadata := if append then []
        else [("shared".toList, .obj [("stream".toList,
          .obj [("block_type".toList, .str "text".toList)])])] }
  append := append

/-- Three chunks, saved after the second: the texts are joined all the same. -/
theorem chunks_joined :
    canonicalizeStreamArtifacts (evolve updateMetadata ⟨"task".toList, ⟨.working, none⟩, [], [], []⟩
        [(textChunk "a" false, false), (textChunk "b" true, true), (textChunk "c" true, false)]) =
      canonicalizeStreamArtifacts
        ([textChunk "a" false, textChunk "b" true, textChunk "c" true].foldl
          (applyChange updateMetadata) ⟨"task".toList, ⟨.working, none⟩, [], [], []⟩) := by
  refine (canonicalize_commutes updateMetadata textLane (fun a ha => by cases ha) ?_).1
  have hfirst : (textChunk "a" false).InLane updateMetadata textLane := ⟨by decide, fun _ => rfl⟩
  have happended : ∀ text, (textChunk text true).InLane updateMetadata textLane :=
    fun text => ⟨fun a _ ha => ha.blockType, fun _ => rfl⟩
  intro u hu
  simp only [List.mem_cons, List.not_mem_nil, or_false] at hu
  rcases hu with rfl | rfl | rfl
  · exact hfirst
  · exact happended "b"
  · exact happended "c"

end OpencodeA2a.Server
