import OpencodeA2a.Stream.Lanes

/-!
# The artifacts of a saved task

The SDK's task manager folds the artifact updates of a run into a task and saves it
after every event; `NegotiatingVersionedTaskStore.save` compacts the artifacts on
the way. What lane an artifact belongs to is read from its stream metadata.
-/

namespace OpencodeA2a.Store

open OpencodeA2a.Stream

/-! ## §1  The task manager -/

structure StoredArtifact where
  artifactId : Text
  parts : List Part
  metadata : Option StreamArtifactMetadata

/-- What the SDK leaves open: the metadata of an artifact after an update with
`append` is the old or the new one, and the manager goes on with the task as it was
saved or with its own copy. -/
structure TaskManager where
  joins : Option StreamArtifactMetadata → Option StreamArtifactMetadata →
    Option StreamArtifactMetadata
  joins_cases : ∀ m m', joins m m' = m ∨ joins m m' = m'
  rereads : Bool

/-- The artifact with the given id. -/
def lookup (id : Text) (task : List StoredArtifact) : Option StoredArtifact :=
  task.find? fun a => a.artifactId = id

def StoredArtifact.extend (manager : TaskManager) (a : StoredArtifact) (u : ArtifactUpdate) :
    StoredArtifact :=
  { a with parts := a.parts ++ [u.part], metadata := manager.joins a.metadata u.metadata }

/-- The artifact that an update without `append` leaves. -/
def StoredArtifact.ofUpdate (u : ArtifactUpdate) : StoredArtifact :=
  ⟨u.artifactId, [u.part], u.metadata⟩

/-- An update is appended to the stored artifact, or replaces it. -/
def TaskManager.apply (manager : TaskManager) (task : List StoredArtifact) (u : ArtifactUpdate) :
    List StoredArtifact :=
  if u.append then
    task.map fun a => if a.artifactId = u.artifactId then a.extend manager u else a
  else if task.any fun a => a.artifactId = u.artifactId then
    task.map fun a => if a.artifactId = u.artifactId then .ofUpdate u else a
  else task ++ [.ofUpdate u]

/-! ## §2  `canonicalize_stream_artifacts` -/

def isText : Part → Bool
  | .text _ => true
  | .data _ => false

/-- `_extract_artifact_stream_block_type` -/
def blockType? (metadata : Option StreamArtifactMetadata) : Option BlockType :=
  metadata.map StreamArtifactMetadata.blockType

/-- The parts of one artifact, compacted: the texts joined, or the last one alone. -/
def canonicalParts : Option BlockType → List Part → List Part
  | some .text, parts | some .reasoning, parts =>
      if !parts.isEmpty && parts.all isText then [.text (parts.flatMap Part.textD)] else parts
  | some .toolCall, parts => if 1 < parts.length then parts.getLast?.toList else parts
  | none, parts => parts

/-- One round of the loop. -/
def StoredArtifact.canonicalize (a : StoredArtifact) : StoredArtifact :=
  { a with parts := canonicalParts (blockType? a.metadata) a.parts }

def canonicalizeStreamArtifacts (task : List StoredArtifact) : List StoredArtifact :=
  task.map StoredArtifact.canonicalize

/-- The manager's task after the updates. -/
def TaskManager.held (manager : TaskManager) (us : List ArtifactUpdate) : List StoredArtifact :=
  us.foldl
    (fun task u =>
      if manager.rereads then canonicalizeStreamArtifacts (manager.apply task u)
      else manager.apply task u) []

/-- The task that is saved after them. -/
def TaskManager.saved (manager : TaskManager) (us : List ArtifactUpdate) : List StoredArtifact :=
  canonicalizeStreamArtifacts (manager.held us)

/-! ## §3  Parts in canonical form -/

theorem canonicalParts_toolCall (parts : List Part) :
    canonicalParts (some .toolCall) parts = parts.getLast?.toList := by
  unfold canonicalParts
  cases parts with
  | nil => rfl
  | cons p parts =>
      cases parts with
      | nil => rfl
      | cons q parts => exact if_pos (by simp)

theorem canonicalParts_text {parts : List Part} (hne : parts ≠ [])
    (htexts : parts.all isText = true) :
    canonicalParts (some .text) parts = [.text (parts.flatMap Part.textD)] := by
  refine if_pos ?_
  rw [Bool.and_eq_true, Bool.not_eq_true', List.isEmpty_eq_false_iff]
  exact ⟨hne, htexts⟩

theorem canonicalParts_text_append (parts : List Part) {parts' : List Part}
    (htexts : parts'.all isText = true) :
    canonicalParts (some .text) (canonicalParts (some .text) parts ++ parts') =
      canonicalParts (some .text) (parts ++ parts') := by
  by_cases hjoined : (!parts.isEmpty && parts.all isText) = true
  · rw [Bool.and_eq_true, Bool.not_eq_true', List.isEmpty_eq_false_iff] at hjoined
    have hall : (parts ++ parts').all isText = true := by
      rw [List.all_append, hjoined.2, htexts]
      rfl
    have hall' : ([Part.text (parts.flatMap Part.textD)] ++ parts').all isText = true := by
      rw [List.all_append, htexts]
      rfl
    rw [canonicalParts_text hjoined.1 hjoined.2, canonicalParts_text (by simp) hall',
      canonicalParts_text (List.append_ne_nil_of_left_ne_nil hjoined.1 _) hall,
      List.flatMap_append, List.flatMap_append, List.flatMap_singleton]
    rfl
  · have hparts : canonicalParts (some .text) parts = parts := if_neg hjoined
    rw [hparts]

/-- Compacting before something is appended makes no difference. -/
theorem canonicalParts_append {b : Option BlockType} (parts : List Part) {parts' : List Part}
    (htexts : b = some .text ∨ b = some .reasoning → parts'.all isText = true) :
    canonicalParts b (canonicalParts b parts ++ parts') = canonicalParts b (parts ++ parts') := by
  cases b with
  | none => rfl
  | some b =>
      cases b with
      | text => exact canonicalParts_text_append parts (htexts (.inl rfl))
      | reasoning => exact canonicalParts_text_append parts (htexts (.inr rfl))
      | toolCall =>
          rw [canonicalParts_toolCall, canonicalParts_toolCall, canonicalParts_toolCall,
            List.getLast?_append, List.getLast?_append]
          cases parts'.getLast? with
          | some p => rfl
          | none => cases parts.getLast? <;> rfl

/-! ## §4  One artifact -/

theorem lookup_map {f : StoredArtifact → StoredArtifact}
    (hf : ∀ a, (f a).artifactId = a.artifactId) (id : Text) (task : List StoredArtifact) :
    lookup id (task.map f) = (lookup id task).map f := by
  have hsame : ((fun a : StoredArtifact => decide (a.artifactId = id)) ∘ f) =
      fun a => decide (a.artifactId = id) := by
    funext a
    show decide ((f a).artifactId = id) = decide (a.artifactId = id)
    rw [hf]
  unfold lookup
  rw [List.find?_map, hsame]

theorem artifactId_of_lookup {id : Text} {task : List StoredArtifact} {a : StoredArtifact}
    (h : lookup id task = some a) : a.artifactId = id := by
  have ha := List.find?_some (p := fun a : StoredArtifact => decide (a.artifactId = id)) h
  exact of_decide_eq_true ha

theorem lookup_canonicalize (id : Text) (task : List StoredArtifact) :
    lookup id (canonicalizeStreamArtifacts task) =
      (lookup id task).map StoredArtifact.canonicalize :=
  @lookup_map StoredArtifact.canonicalize (fun _ => rfl) id task

/-- An update is about one artifact. -/
theorem lookup_apply (manager : TaskManager) (task : List StoredArtifact) (u : ArtifactUpdate)
    (id : Text) : lookup id (manager.apply task u) =
      if u.artifactId = id then
        if u.append then (lookup id task).map fun a => a.extend manager u
        else some (.ofUpdate u)
      else lookup id task := by
  -- what is stored under the id, after the artifacts under `u.artifactId` are changed
  have hmap : ∀ g : StoredArtifact → StoredArtifact, (∀ a, a.artifactId = u.artifactId →
      (g a).artifactId = u.artifactId) →
      lookup id (task.map fun a => if a.artifactId = u.artifactId then g a else a) =
        if u.artifactId = id then (lookup id task).map g else lookup id task := by
    intro g hg
    rw [lookup_map]
    · cases hl : lookup id task with
      | none => split <;> rfl
      | some a =>
          have ha := artifactId_of_lookup hl
          subst ha
          by_cases heq : a.artifactId = u.artifactId
          · rw [if_pos heq.symm, Option.map_some, if_pos heq, Option.map_some]
          · rw [if_neg fun h => heq h.symm, Option.map_some, if_neg heq]
    · intro a
      split
      · rename_i heq
        rw [hg a heq, heq]
      · rfl
  unfold TaskManager.apply
  by_cases happend : u.append = true
  · rw [if_pos happend, if_pos happend]
    exact hmap (fun a => a.extend manager u) fun a ha => ha
  · rw [if_neg happend, if_neg happend]
    split
    · rename_i hany
      rw [hmap (fun _ => .ofUpdate u) fun _ _ => rfl]
      by_cases hid : u.artifactId = id
      · subst hid
        rw [if_pos rfl, if_pos rfl]
        obtain ⟨a, ha, heq⟩ := List.any_eq_true.mp hany
        have hsome : (lookup u.artifactId task).isSome = true :=
          List.find?_isSome.mpr ⟨a, ha, heq⟩
        obtain ⟨b, hb⟩ := Option.isSome_iff_exists.mp hsome
        rw [hb, Option.map_some]
      · rw [if_neg hid, if_neg hid]
    · rename_i hany
      have happ : lookup id (task ++ [.ofUpdate u]) =
          (lookup id task).or (lookup id [.ofUpdate u]) := List.find?_append
      rw [happ]
      by_cases hid : u.artifactId = id
      · subst hid
        have hnone : lookup u.artifactId task = none := by
          refine List.find?_eq_none.mpr fun a ha heq => hany ?_
          exact List.any_eq_true.mpr ⟨a, ha, heq⟩
        rw [if_pos rfl, hnone, Option.none_or]
        exact List.find?_cons_of_pos (decide_eq_true rfl)
      · have hother : lookup id [.ofUpdate u] = none :=
          List.find?_cons_of_neg fun h => hid (of_decide_eq_true h)
        rw [if_neg hid, hother, Option.or_none]

/-! ## §5  The parts of a lane -/

/-- The parts that the updates give the artifact, uncompacted. -/
def laneParts (id : Text) (us : List ArtifactUpdate) : List Part :=
  us.foldl
    (fun ps u =>
      if u.artifactId = id then if u.append then ps ++ [u.part] else [u.part] else ps) []

theorem laneParts_snoc (id : Text) (us : List ArtifactUpdate) (u : ArtifactUpdate) :
    laneParts id (us ++ [u]) =
      if u.artifactId = id then if u.append then laneParts id us ++ [u.part] else [u.part]
      else laneParts id us := by
  unfold laneParts
  rw [List.foldl_append, List.foldl_cons, List.foldl_nil]

theorem laneOf_snoc (id : Text) (us : List ArtifactUpdate) (u : ArtifactUpdate) :
    laneOf id (us ++ [u]) = if u.artifactId = id then laneOf id us ++ [u] else laneOf id us := by
  rw [laneOf_append]
  by_cases hid : u.artifactId = id
  · rw [if_pos hid]
    congr 1
    unfold laneOf
    rw [List.filter_singleton, decide_eq_true hid]
    rfl
  · rw [if_neg hid]
    unfold laneOf
    rw [List.filter_singleton, decide_eq_false hid]
    exact List.append_nil _

/-- The client folds the texts of the parts. -/
theorem clientText_eq_flatMap (id : Text) (us : List ArtifactUpdate) :
    clientText id us = (laneParts id us).flatMap Part.textD := by
  induction us using List.reverseRecOn with
  | nil => rfl
  | append_singleton us u ih =>
      rw [clientText_snoc, laneParts_snoc]
      split
      · unfold ArtifactUpdate.fold
        split
        · rw [ih, List.flatMap_append, List.flatMap_singleton]
        · rw [List.flatMap_singleton]
      · exact ih

/-- The last part is that of the last update. -/
theorem getLast?_laneParts (id : Text) (us : List ArtifactUpdate) :
    (laneParts id us).getLast? = (laneOf id us).getLast?.map ArtifactUpdate.part := by
  induction us using List.reverseRecOn with
  | nil => rfl
  | append_singleton us u ih =>
      rw [laneParts_snoc, laneOf_snoc]
      split
      · rw [List.getLast?_append]
        split
        · rw [List.getLast?_append]
          rfl
        · rfl
      · exact ih

/-- Every update with `append` has one of its artifact before it. -/
def Headed (us : List ArtifactUpdate) : Prop :=
  ∀ pre u, pre ++ [u] <+: us → u.append = true → laneOf u.artifactId pre ≠ []

theorem headed_nil : Headed [] := by
  intro pre u hpre
  exact absurd (List.prefix_nil.mp hpre) (by simp)

theorem headed_snoc {us : List ArtifactUpdate} {u : ArtifactUpdate} :
    Headed (us ++ [u]) ↔ Headed us ∧ (u.append = true → laneOf u.artifactId us ≠ []) := by
  constructor
  · intro h
    refine ⟨?_, h us u (List.prefix_refl _)⟩
    intro pre v hpre
    exact h pre v (hpre.trans (List.prefix_append us [u]))
  · rintro ⟨h, hlast⟩ pre v hpre happend
    rcases List.prefix_concat_iff.mp hpre with heq | hpre
    · obtain ⟨rfl, hv⟩ := List.append_inj' heq rfl
      cases hv
      exact hlast happend
    · exact h pre v hpre happend

theorem laneParts_ne_nil {id : Text} {us : List ArtifactUpdate} (h : laneOf id us ≠ []) :
    laneParts id us ≠ [] := by
  intro hnil
  have hlast := getLast?_laneParts id us
  rw [hnil] at hlast
  have hnone : (laneOf id us).getLast? = none := Option.map_eq_none_iff.mp hlast.symm
  exact h (List.getLast?_eq_none_iff.mp hnone)

/-- One part is left where the last update replaces. -/
theorem length_laneParts_eq_one_iff {id : Text} {us : List ArtifactUpdate} (hheaded : Headed us)
    (h : laneOf id us ≠ []) :
    (laneParts id us).length = 1 ↔ ∀ u, (laneOf id us).getLast? = some u → u.append = false := by
  induction us using List.reverseRecOn with
  | nil => exact absurd rfl h
  | append_singleton us u ih =>
      obtain ⟨hbefore, hlast⟩ := headed_snoc.mp hheaded
      rw [laneParts_snoc]
      rw [laneOf_snoc] at h ⊢
      by_cases hid : u.artifactId = id
      · have hu : (∀ v, some u = some v → v.append = false) ↔ u.append = false :=
          ⟨fun hall => hall u rfl, fun hnot v heq => Option.some.inj heq ▸ hnot⟩
        rw [if_pos hid, if_pos hid, List.getLast?_concat, hu]
        by_cases happend : u.append = true
        · have hpos := List.length_pos_iff.mpr (laneParts_ne_nil (hid ▸ hlast happend))
          rw [if_pos happend, happend, List.length_append, List.length_singleton]
          constructor
          · intro hone
            omega
          · exact fun hcon => by cases hcon
        · rw [if_neg happend]
          rw [Bool.not_eq_true] at happend
          exact ⟨fun _ => happend, fun _ => rfl⟩
      · rw [if_neg hid] at h ⊢
        rw [if_neg hid]
        exact ih hbefore h

/-! ## §6  The saved task -/

/-- The updates of the artifact are all of one kind. -/
structure Homogeneous (b : Option BlockType) (id : Text) (us : List ArtifactUpdate) : Prop where
  form : ∀ u ∈ laneOf id us, canonicalParts (blockType? u.metadata) = canonicalParts b
  texts : b = some .text ∨ b = some .reasoning → ∀ u ∈ laneOf id us, isText u.part = true

variable {b : Option BlockType} {id : Text} {us : List ArtifactUpdate}

theorem Homogeneous.before {u : ArtifactUpdate} (h : Homogeneous b id (us ++ [u])) :
    Homogeneous b id us := by
  have hmem : ∀ v ∈ laneOf id us, v ∈ laneOf id (us ++ [u]) := by
    intro v hv
    rw [laneOf_append]
    exact List.mem_append_left _ hv
  exact ⟨fun v hv => h.form v (hmem v hv), fun hb v hv => h.texts hb v (hmem v hv)⟩

theorem mem_laneOf_snoc {u : ArtifactUpdate} (hid : u.artifactId = id) :
    u ∈ laneOf id (us ++ [u]) := by
  rw [laneOf_snoc, if_pos hid]
  exact List.mem_append_right _ (List.mem_singleton_self u)

/-- The stored artifact comes, once compacted, to what the updates come to. -/
structure StoredArtifact.Holds (b : Option BlockType) (id : Text) (us : List ArtifactUpdate)
    (a : StoredArtifact) : Prop where
  form : canonicalParts (blockType? a.metadata) = canonicalParts b
  parts : canonicalParts b a.parts = canonicalParts b (laneParts id us)

theorem StoredArtifact.Holds.canonicalize {a : StoredArtifact} (h : a.Holds b id us) :
    a.canonicalize.Holds b id us := by
  refine ⟨h.form, ?_⟩
  have hidem : canonicalParts b (canonicalParts b a.parts) = canonicalParts b a.parts := by
    have happend := canonicalParts_append (b := b) a.parts fun _ => @List.all_nil _ isText
    rwa [List.append_nil, List.append_nil] at happend
  show canonicalParts b (canonicalParts (blockType? a.metadata) a.parts) = _
  rw [h.form, hidem]
  exact h.parts

theorem TaskManager.held_snoc (manager : TaskManager) (us : List ArtifactUpdate)
    (u : ArtifactUpdate) : manager.held (us ++ [u]) =
      if manager.rereads then canonicalizeStreamArtifacts (manager.apply (manager.held us) u)
      else manager.apply (manager.held us) u := by
  unfold TaskManager.held
  rw [List.foldl_append, List.foldl_cons, List.foldl_nil]

/-- One more update. -/
theorem StoredArtifact.Holds.extend {manager : TaskManager} {a : StoredArtifact}
    {u : ArtifactUpdate} (h : a.Holds b id us) (hid : u.artifactId = id)
    (happend : u.append = true) (hlane : Homogeneous b id (us ++ [u])) :
    (a.extend manager u).Holds b id (us ++ [u]) := by
  have hu : u ∈ laneOf id (us ++ [u]) := mem_laneOf_snoc hid
  have htexts : b = some .text ∨ b = some .reasoning → [u.part].all isText = true := by
    intro hb
    rw [List.all_cons, hlane.texts hb u hu]
    rfl
  refine ⟨?_, ?_⟩
  · show canonicalParts (blockType? (manager.joins a.metadata u.metadata)) = canonicalParts b
    rcases manager.joins_cases a.metadata u.metadata with heq | heq
    · rw [heq]
      exact h.form
    · rw [heq]
      exact hlane.form u hu
  · show canonicalParts b (a.parts ++ [u.part]) = _
    rw [laneParts_snoc, if_pos hid, if_pos happend, ← canonicalParts_append a.parts htexts, h.parts,
      canonicalParts_append _ htexts]

theorem held_holds (manager : TaskManager) (hheaded : Headed us) (hlane : Homogeneous b id us) :
    (laneOf id us = [] → lookup id (manager.held us) = none) ∧
      (laneOf id us ≠ [] → ∃ a, lookup id (manager.held us) = some a ∧ a.Holds b id us) := by
  induction us using List.reverseRecOn with
  | nil => exact ⟨fun _ => rfl, fun hne => absurd rfl hne⟩
  | append_singleton us u ih =>
      obtain ⟨hbefore, hlast⟩ := headed_snoc.mp hheaded
      obtain ⟨hnone, hsome⟩ := ih hbefore hlane.before
      -- the manager may compact the artifacts before it goes on
      have hreread : (laneOf id (us ++ [u]) = [] →
            lookup id (manager.apply (manager.held us) u) = none) ∧
          (laneOf id (us ++ [u]) ≠ [] →
            ∃ a, lookup id (manager.apply (manager.held us) u) = some a ∧
              a.Holds b id (us ++ [u])) →
          (laneOf id (us ++ [u]) = [] → lookup id (manager.held (us ++ [u])) = none) ∧
            (laneOf id (us ++ [u]) ≠ [] → ∃ a, lookup id (manager.held (us ++ [u])) = some a ∧
              a.Holds b id (us ++ [u])) := by
        rintro ⟨hempty, hstored⟩
        rw [TaskManager.held_snoc]
        split
        · rw [lookup_canonicalize]
          refine ⟨fun h => by rw [hempty h]; rfl, fun h => ?_⟩
          obtain ⟨a, ha, hholds⟩ := hstored h
          exact ⟨a.canonicalize, by rw [ha]; rfl, hholds.canonicalize⟩
        · exact ⟨hempty, hstored⟩
      refine hreread ?_
      rw [lookup_apply, laneOf_snoc]
      by_cases hid : u.artifactId = id
      · rw [if_pos hid, if_pos hid]
        refine ⟨fun hcon => absurd hcon (by simp), fun _ => ?_⟩
        by_cases happend : u.append = true
        · obtain ⟨a, ha, hholds⟩ := hsome (hid ▸ hlast happend)
          rw [if_pos happend, ha]
          exact ⟨_, rfl, hholds.extend hid happend hlane⟩
        · rw [if_neg happend]
          refine ⟨_, rfl, hlane.form u (mem_laneOf_snoc hid), ?_⟩
          rw [laneParts_snoc, if_pos hid, if_neg happend]
          rfl
      · rw [if_neg hid, if_neg hid]
        refine ⟨hnone, fun h => ?_⟩
        obtain ⟨a, ha, hholds⟩ := hsome h
        refine ⟨a, ha, hholds.form, ?_⟩
        rw [laneParts_snoc, if_neg hid]
        exact hholds.parts

/-- What the store saves of a lane. -/
theorem saved_parts (manager : TaskManager) (hheaded : Headed us) (hlane : Homogeneous b id us)
    (h : laneOf id us ≠ []) : ∃ a, lookup id (manager.saved us) = some a ∧
      a.parts = canonicalParts b (laneParts id us) := by
  obtain ⟨a, ha, hholds⟩ := (held_holds manager hheaded hlane).2 h
  refine ⟨a.canonicalize, ?_, ?_⟩
  · unfold TaskManager.saved
    rw [lookup_canonicalize, ha]
    rfl
  · show canonicalParts (blockType? a.metadata) a.parts = _
    rw [hholds.form]
    exact hholds.parts

/-! ## §7  Canonical artifacts -/

/-- The artifact of a text or reasoning lane is one part, the text that the client has. -/
def TextSaved (saved : List StoredArtifact) (id : Text) (us : List ArtifactUpdate) : Prop :=
  ∃ a, lookup id saved = some a ∧ a.parts = [.text (clientText id us)]

/-- The artifact of a tool lane is one part, the last payload. -/
def ToolSaved (saved : List StoredArtifact) (id : Text) (us : List ArtifactUpdate) : Prop :=
  ∃ a u, lookup id saved = some a ∧ (laneOf id us).getLast? = some u ∧ a.parts = [u.part]

/-- The last update of the lane replaces it. -/
def Replaced (id : Text) (us : List ArtifactUpdate) : Prop :=
  ∀ u, (laneOf id us).getLast? = some u → u.append = false

theorem laneParts_texts (h : ∀ u ∈ laneOf id us, isText u.part = true) :
    (laneParts id us).all isText = true := by
  induction us using List.reverseRecOn with
  | nil => rfl
  | append_singleton us u ih =>
      have hbefore : ∀ v ∈ laneOf id us, isText v.part = true := by
        intro v hv
        refine h v ?_
        rw [laneOf_append]
        exact List.mem_append_left _ hv
      rw [laneParts_snoc]
      by_cases hid : u.artifactId = id
      · have hu := h u (mem_laneOf_snoc hid)
        rw [if_pos hid]
        split
        · rw [List.all_append, ih hbefore, List.all_cons, hu]
          rfl
        · rw [List.all_cons, hu]
          rfl
      · rw [if_neg hid]
        exact ih hbefore

/-- With its block type known, a text lane is saved as one text. -/
theorem textSaved_of_hints (manager : TaskManager) (hheaded : Headed us)
    (hlane : Homogeneous (some .text) id us) (h : laneOf id us ≠ []) :
    TextSaved (manager.saved us) id us := by
  obtain ⟨a, ha, hparts⟩ := saved_parts manager hheaded hlane h
  refine ⟨a, ha, ?_⟩
  rw [hparts, clientText_eq_flatMap]
  exact canonicalParts_text (laneParts_ne_nil h) (laneParts_texts (hlane.texts (.inl rfl)))

theorem toolSaved_of_hints (manager : TaskManager) (hheaded : Headed us)
    (hlane : Homogeneous (some .toolCall) id us) (h : laneOf id us ≠ []) :
    ToolSaved (manager.saved us) id us := by
  obtain ⟨a, ha, hparts⟩ := saved_parts manager hheaded hlane h
  have hlast := List.getLast?_eq_some_getLast h
  refine ⟨a, _, ha, hlast, ?_⟩
  rw [hparts, canonicalParts_toolCall, getLast?_laneParts, hlast]
  rfl

/-- Without it, the parts stay as they came. -/
theorem textSaved_iff_replaced (manager : TaskManager) (hheaded : Headed us)
    (hlane : Homogeneous none id us) (htexts : ∀ u ∈ laneOf id us, isText u.part = true)
    (h : laneOf id us ≠ []) : TextSaved (manager.saved us) id us ↔ Replaced id us := by
  obtain ⟨a, ha, hparts⟩ := saved_parts manager hheaded hlane h
  have hone := length_laneParts_eq_one_iff hheaded h
  constructor
  · rintro ⟨a', ha', hparts'⟩
    have hsame : a = a' := Option.some.inj (ha.symm.trans ha')
    refine hone.mp ?_
    have hsingle : laneParts id us = [.text (clientText id us)] := by
      rw [← hparts', ← hsame, hparts]
      rfl
    rw [hsingle]
    rfl
  · intro hreplaced
    obtain ⟨p, hp⟩ := List.length_eq_one_iff.mp (hone.mpr hreplaced)
    refine ⟨a, ha, ?_⟩
    have htext := laneParts_texts htexts
    rw [hparts, clientText_eq_flatMap, hp]
    rw [hp] at htext
    cases p with
    | data m => cases htext
    | text t =>
        rw [List.flatMap_singleton]
        rfl

theorem toolSaved_iff_replaced (manager : TaskManager) (hheaded : Headed us)
    (hlane : Homogeneous none id us) (h : laneOf id us ≠ []) :
    ToolSaved (manager.saved us) id us ↔ Replaced id us := by
  obtain ⟨a, ha, hparts⟩ := saved_parts manager hheaded hlane h
  have hone := length_laneParts_eq_one_iff hheaded h
  constructor
  · rintro ⟨a', u, ha', -, hparts'⟩
    have hsame : a = a' := Option.some.inj (ha.symm.trans ha')
    refine hone.mp ?_
    have hsingle : laneParts id us = [u.part] := by
      rw [← hparts', ← hsame, hparts]
      rfl
    rw [hsingle]
    rfl
  · intro hreplaced
    obtain ⟨p, hp⟩ := List.length_eq_one_iff.mp (hone.mpr hreplaced)
    have hlast := List.getLast?_eq_some_getLast h
    have hpart := getLast?_laneParts id us
    rw [hp, hlast] at hpart
    refine ⟨a, _, ha, hlast, ?_⟩
    rw [hparts, hp, ← Option.some.inj hpart]
    rfl

end OpencodeA2a.Store
