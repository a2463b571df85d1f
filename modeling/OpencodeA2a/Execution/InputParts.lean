import OpencodeA2a.Execution.RequestMetadata
import OpencodeA2a.Library.Base64
import OpencodeA2a.Server.OutputModes
import OpencodeA2a.Server.SandboxPolicy

/-!
# What the upstream is sent of a message

`parts/mapping.py`, and what `OpencodeAgentExecutor.execute` makes of a request before the run
begins. A part of the message means a text, a file or a link to one; so does what stands for it in
the body of the first turn, where a file is a data URL.
-/

namespace OpencodeA2a.Execution

open OpencodeA2a.Stream OpencodeA2a.Server

/-! ## §1  The parts -/

/-- A part of the user's message. -/
structure UserPart extends Part where
  filename : Text := []

/-- `OpencodeInputPart` -/
inductive InputPart where
  | text (text : Text)
  | file (url mime : Text) (filename : Option Text)
deriving DecidableEq

namespace UserPart

variable (p : UserPart)

def mime : Text := (nonempty? p.mediaType).getD applicationOctetStream

def name : Option Text := nonempty? p.filename

/-- `part.HasField("text") and part.text` -/
def isTextPart : Bool := p.hasText && p.text ≠ []

/-- `_is_file_part` -/
def isFilePart : Bool :=
  match p.content with
  | .raw bytes => bytes ≠ []
  | .url url => (nonempty? url).isSome
  | .unset | .text _ | .data _ => false

end UserPart

/-- The place of a part, as messages have it. -/
def requestPart (index : ℕ) : Text :=
  "request.parts[".toList ++ (toString index).toList ++ "]".toList

/-- `_map_file_part` -/
def mapFilePart (p : UserPart) (index : ℕ) : Except Text InputPart :=
  let unreadable := requestPart index ++ " file input must contain either raw bytes or a url.".toList
  match p.content with
  | .raw [] => .error unreadable
  | .raw (b :: bytes) => .ok (.file (Base64.dataUrl p.mime (b :: bytes)) p.mime p.name)
  | .url url =>
      match nonempty? url with
      | some url => .ok (.file url p.mime p.name)
      | none => .error unreadable
  | .unset | .text _ | .data _ => .error unreadable

/-- What is wrong with a part that is neither text nor a file. -/
def unsupportedPart (p : UserPart) (index : ℕ) : Text :=
  requestPart index ++
    match p.content with
    | .data _ => " structured data is not supported; use text, raw, or url parts.".toList
    | _ => " is not supported; only text, raw, or url parts are accepted.".toList

def mapPart (p : UserPart) (index : ℕ) : Except Text InputPart :=
  if p.isTextPart then .ok (.text p.text)
  else if p.isFilePart then mapFilePart p index
  else .error (unsupportedPart p index)

/-- The loop of `map_a2a_parts_to_opencode_parts`, from an index on. -/
def mapPartsFrom : ℕ → List UserPart → Except Text (List InputPart)
  | _, [] => .ok []
  | index, p :: parts => do
      let mapped ← mapPart p index
      let rest ← mapPartsFrom (index + 1) parts
      return mapped :: rest

/-- `map_a2a_parts_to_opencode_parts` -/
def mapA2aPartsToOpencodeParts (parts : List UserPart) : Except Text (List InputPart) :=
  mapPartsFrom 0 parts

/-- `extract_text_from_a2a_parts` -/
def extractTextFromA2aParts (parts : List UserPart) : Text :=
  Text.strip (['\n'].intercalate ((parts.filter (·.isTextPart)).map (·.text)))

/-- `summarize_a2a_parts` -/
def summarizeA2aParts (parts : List UserPart) : Option Text :=
  match extractTextFromA2aParts parts with
  | c :: text => some ((c :: text).take 80)
  | [] =>
      match (parts.filter (·.isFilePart)).map fun p => p.name.getD "file".toList with
      | [] => none
      | [name] => some name
      | names => some (((", ".toList).intercalate (names.take 3)).take 80)

/-! ## §2  The preparation of a run -/

/-- What of `PreparedExecution` comes from the message and the extensions of the request. -/
structure PreparedRequest extends PreparedBinding where
  requestParts : List InputPart
  userText : Text
  sessionTitle : Text
  useStructuredParts : Bool
  allowStructuredOutput : Bool
  emitSessionMetadata : Bool
  emitStreamingMetadata : Bool
  emitInterruptMetadata : Bool

/-- `user_text` -/
def userTextOf (parts : List UserPart) (userInput : Text) : Text :=
  if extractTextFromA2aParts parts = [] then userInput.strip else extractTextFromA2aParts parts

/-- What `execute` makes of a request, or the text of the error it emits. `userInput` is
`context.get_user_input()`. -/
def prepareExecution (resolveDirectory : Option Text → Except Text (Option Text))
    (context : RequestContext) (parts : List UserPart) (userInput : Text)
    (modes : Option (List Text)) (requestedExtensions : List Text) :
    Except Text PreparedRequest := do
  let requestParts ← mapA2aPartsToOpencodeParts parts
  let userText := userTextOf parts userInput
  let binding ← prepareBinding resolveDirectory context
  if userText = [] ∧ requestParts = [] then
    .error "Only text and file input are supported.".toList
  else if acceptsOutputMode modes textPlainMediaType then
    return {
      binding with
      requestParts := requestParts
      userText := userText
      sessionTitle :=
        if userText = [] then (summarizeA2aParts parts).getD userText else userText
      useStructuredParts := requestParts ≠ [] ∧ requestParts ≠ [.text userText]
      allowStructuredOutput := acceptsOutputMode modes applicationJsonMediaType
      emitSessionMetadata := sessionBindingExtensionUri ∈ requestedExtensions
      emitStreamingMetadata := streamingExtensionUri ∈ requestedExtensions
      emitInterruptMetadata := interruptCallbackExtensionUri ∈ requestedExtensions }
  else .error "acceptedOutputModes must include text/plain for OpenCode chat responses.".toList

/-- The `parts` in the body of the first turn. -/
def PreparedRequest.firstParts (prepared : PreparedRequest) : List InputPart :=
  if !prepared.useStructuredParts && prepared.requestParts = [] then [.text prepared.userText]
  else prepared.requestParts

/-! ## §3  What the parts mean -/

inductive Meaning where
  | text (text : Text)
  | bytes (mime : Text) (bytes : List UInt8) (filename : Option Text)
  | link (url mime : Text) (filename : Option Text)

/-- A data URL is a file itself. -/
def readLink (url mime : Text) (filename : Option Text) : Meaning :=
  match Base64.readDataUrl url with
  | some (mime, bytes) => .bytes mime bytes filename
  | none => .link url mime filename

/-- As the upstream reads the part. -/
def InputPart.read : InputPart → Meaning
  | .text t => .text t
  | .file url mime filename => readLink url mime filename

/-- As the client has written the part. -/
def UserPart.meaning (p : UserPart) : Option Meaning :=
  match p.content with
  | .text (c :: text) => some (.text (c :: text))
  | .raw (b :: bytes) => some (.bytes p.mime (b :: bytes) p.name)
  | .url url => (nonempty? url).map fun url => readLink url p.mime p.name
  | .text [] | .raw [] | .unset | .data _ => none

/-- The media type can stand in a data URL, if it has to. -/
def UserPart.Plain (p : UserPart) : Prop := ∀ bytes, p.content = .raw bytes → ',' ∉ p.mime

variable {p : UserPart} {parts : List UserPart} {index : ℕ} {mapped : InputPart}

theorem read_dataUrl {mime : Text} {bytes : List UInt8} {filename : Option Text} :
    readLink (Base64.dataUrl mime bytes) mime filename = .bytes mime bytes filename ↔ ',' ∉ mime := by
  have hread : Base64.readDataUrl (Base64.dataUrl mime bytes) = some (mime, bytes) ↔ ',' ∉ mime :=
    Base64.readDataUrl_eq_iff
  rw [← hread]
  unfold readLink
  cases Base64.readDataUrl (Base64.dataUrl mime bytes) with
  | none => exact iff_of_false (by rintro ⟨⟩) (by rintro ⟨⟩)
  | some read =>
      obtain ⟨mime', bytes'⟩ := read
      simp

/-- A part is taken if it means anything; it is read as it is meant if its media type lets it. -/
theorem mapPart_spec (p : UserPart) (index : ℕ) :
    (p.meaning = none ∧ mapPart p index = .error (unsupportedPart p index)) ∨
      ∃ m mapped, p.meaning = some m ∧ mapPart p index = .ok mapped ∧ (mapped.read = m ↔ p.Plain) := by
  obtain ⟨⟨content, mediaType, metadata⟩, filename⟩ := p
  have hplain : (∀ bytes, content ≠ .raw bytes) →
      UserPart.Plain ⟨⟨content, mediaType, metadata⟩, filename⟩ := fun hraw bytes h =>
    absurd h (hraw bytes)
  cases content with
  | unset => exact .inl ⟨rfl, rfl⟩
  | data data => exact .inl ⟨rfl, rfl⟩
  | text text =>
      cases text with
      | nil => exact .inl ⟨rfl, rfl⟩
      | cons c text =>
          exact .inr ⟨_, .text (c :: text), rfl, rfl, iff_of_true rfl (hplain fun _ => by rintro ⟨⟩)⟩
  | raw bytes =>
      cases bytes with
      | nil => exact .inl ⟨rfl, rfl⟩
      | cons b bytes =>
          refine .inr ⟨_, _, rfl, rfl, read_dataUrl.trans ⟨?_, fun h => h (b :: bytes) rfl⟩⟩
          exact fun hcomma _ _ => hcomma
  | url url =>
      have hfile : ∀ p : UserPart, p.content = .url url → p.isTextPart = false ∧
          p.isFilePart = (nonempty? url).isSome := by
        intro p hp
        unfold UserPart.isTextPart UserPart.isFilePart Part.hasText
        rw [hp]
        exact ⟨rfl, rfl⟩
      obtain ⟨htext, hfile⟩ := hfile ⟨⟨.url url, mediaType, metadata⟩, filename⟩ rfl
      unfold UserPart.meaning mapPart
      rw [htext, hfile, if_neg Bool.false_ne_true]
      unfold mapFilePart
      dsimp only
      cases hurl : nonempty? url with
      | none => exact .inl ⟨rfl, rfl⟩
      | some url =>
          exact .inr ⟨_, _, rfl, rfl, iff_of_true rfl (hplain fun _ => by rintro ⟨⟩)⟩

theorem mapPartsFrom_cons (p : UserPart) (parts : List UserPart) (index : ℕ) :
    mapPartsFrom index (p :: parts) = (mapPart p index).bind fun mapped =>
      (mapPartsFrom (index + 1) parts).bind fun rest => .ok (mapped :: rest) := rfl

/-- The parts that are taken stand one for one for those of the message. -/
theorem mapPartsFrom_eq_ok {index : ℕ} {out : List InputPart}
    (h : mapPartsFrom index parts = .ok out) : out.length = parts.length ∧
      (out.map (fun mapped => some mapped.read) = parts.map UserPart.meaning ↔
        ∀ p ∈ parts, p.Plain) := by
  induction parts generalizing index out with
  | nil =>
      cases h
      simp
  | cons p parts ih =>
      obtain ⟨mapped, hmapped, h⟩ := bind_eq_ok.mp h
      obtain ⟨rest, hrest, h⟩ := bind_eq_ok.mp h
      cases h
      obtain ⟨hlength, hrest⟩ := ih hrest
      refine ⟨congrArg Nat.succ hlength, ?_⟩
      rcases mapPart_spec p index with ⟨-, herror⟩ | ⟨m, mapped', hmeaning, hok, hread⟩
      · cases herror.symm.trans hmapped
      · cases hok.symm.trans hmapped
        rw [List.map_cons, List.map_cons, List.cons_eq_cons, hrest, hmeaning, Option.some_inj, hread,
          List.forall_mem_cons]

theorem mapPartsFrom_eq_error {index : ℕ} {e : Text} : mapPartsFrom index parts = .error e ↔
    ∃ before p after, parts = before ++ p :: after ∧ (∀ q ∈ before, q.meaning ≠ none) ∧
      p.meaning = none ∧ e = unsupportedPart p (index + before.length) := by
  induction parts generalizing index with
  | nil => exact iff_of_false (by rintro ⟨⟩) (by rintro ⟨before, p, after, h, -⟩; simp at h)
  | cons p parts ih =>
      rcases mapPart_spec p index with ⟨hnone, herror⟩ | ⟨m, mapped, hmeaning, hok, -⟩
      · have hstep : mapPartsFrom index (p :: parts) = .error (unsupportedPart p index) := by
          rw [mapPartsFrom_cons, herror]
          rfl
        rw [hstep]
        constructor
        · rintro ⟨⟩
          exact ⟨[], p, parts, rfl, by simp, hnone, rfl⟩
        · rintro ⟨before, q, after, hparts, hbefore, -, rfl⟩
          cases before with
          | nil =>
              obtain ⟨rfl, -⟩ := List.cons.inj hparts
              rfl
          | cons q' before =>
              obtain ⟨rfl, -⟩ := List.cons.inj hparts
              exact absurd hnone (hbefore p (List.mem_cons_self ..))
      · have hstep : mapPartsFrom index (p :: parts) = .error e ↔
            mapPartsFrom (index + 1) parts = .error e := by
          rw [mapPartsFrom_cons, hok]
          cases mapPartsFrom (index + 1) parts with
          | error e' => exact Iff.rfl
          | ok rest => exact iff_of_false (by rintro ⟨⟩) (by rintro ⟨⟩)
        rw [hstep, ih]
        constructor
        · rintro ⟨before, q, after, rfl, hbefore, hq, rfl⟩
          refine ⟨p :: before, q, after, rfl, List.forall_mem_cons.mpr ⟨by rw [hmeaning]; simp, hbefore⟩,
            hq, ?_⟩
          rw [List.length_cons, Nat.add_assoc, Nat.add_comm 1]
        · rintro ⟨before, q, after, hparts, hbefore, hq, rfl⟩
          cases before with
          | nil =>
              obtain ⟨rfl, -⟩ := List.cons.inj hparts
              rw [hmeaning] at hq
              cases hq
          | cons q' before =>
              obtain ⟨rfl, rfl⟩ := List.cons.inj hparts
              refine ⟨before, q, after, rfl, (List.forall_mem_cons.mp hbefore).2, hq, ?_⟩
              rw [List.length_cons, Nat.add_assoc, Nat.add_comm 1]

/-- A message is refused for its first part that means nothing. -/
theorem mapA2aPartsToOpencodeParts_eq_error {e : Text} :
    mapA2aPartsToOpencodeParts parts = .error e ↔
      ∃ before p after, parts = before ++ p :: after ∧ (∀ q ∈ before, q.meaning ≠ none) ∧
        p.meaning = none ∧ e = unsupportedPart p before.length := by
  refine mapPartsFrom_eq_error.trans ?_
  simp only [Nat.zero_add]

/-! ## §4  The first turn -/

section Preparation

variable {resolveDirectory : Option Text → Except Text (Option Text)} {context : RequestContext}
  {userInput : Text} {modes : Option (List Text)} {requestedExtensions : List Text}
  {prepared : PreparedRequest}

theorem prepareExecution_eq_ok (h : prepareExecution resolveDirectory context parts userInput modes
      requestedExtensions = .ok prepared) :
    mapA2aPartsToOpencodeParts parts = .ok prepared.requestParts ∧
      prepareBinding resolveDirectory context = .ok prepared.toPreparedBinding ∧
      (prepared.requestParts = [] → prepared.userText ≠ []) ∧
      prepared.userText = userTextOf parts userInput ∧
      (prepared.useStructuredParts = true → prepared.requestParts ≠ []) := by
  obtain ⟨requestParts, hparts, h⟩ := bind_eq_ok.mp h
  obtain ⟨binding, hbinding, h⟩ := bind_eq_ok.mp h
  split at h
  · cases h
  · rename_i hinput
    split at h
    · cases h
      refine ⟨hparts, hbinding, fun hnil htext => hinput ⟨htext, hnil⟩, rfl, fun hstructured => ?_⟩
      exact (of_decide_eq_true hstructured).1
    · cases h

/-- The directory is that of the policy, unless there is a workspace. -/
theorem directory_of_prepareBinding {binding : PreparedBinding}
    (h : prepareBinding resolveDirectory context = .ok binding) :
    (binding.workspaceId.isSome = true ∧ binding.directory = none) ∨
      (binding.workspaceId = none ∧
        resolveDirectory (callerFields context).requestedDir = .ok binding.directory) := by
  unfold prepareBinding at h
  dsimp only at h
  split at h
  iterate 5 cases h
  all_goals
    split at h
    · rename_i hnone
      obtain ⟨directory, hdirectory, h⟩ := bind_eq_ok.mp h
      cases h
      exact .inr ⟨Option.isNone_iff_eq_none.mp hnone, hdirectory⟩
    · rename_i hsome
      cases h
      exact .inl ⟨Option.isSome_iff_ne_none.mpr fun hnone =>
        hsome (Option.isNone_iff_eq_none.mpr hnone), rfl⟩

theorem firstParts_eq (h : prepareExecution resolveDirectory context parts userInput modes
      requestedExtensions = .ok prepared) :
    prepared.firstParts = if parts = [] then [.text userInput.strip] else prepared.requestParts := by
  obtain ⟨hparts, -, -, huser, hstructured⟩ := prepareExecution_eq_ok h
  have hlength := (mapPartsFrom_eq_ok hparts).1
  unfold PreparedRequest.firstParts
  cases parts with
  | nil =>
      have hnil := List.length_eq_zero_iff.mp hlength
      have hplain : prepared.useStructuredParts = false :=
        Bool.eq_false_iff.mpr fun h => hstructured h hnil
      rw [hnil, hplain, huser]
      rfl
  | cons p parts =>
      have hne : prepared.requestParts ≠ [] := List.ne_nil_of_length_eq_add_one hlength
      rw [decide_eq_false hne, Bool.and_false, if_neg Bool.false_ne_true, if_neg (by simp)]

end Preparation

/-! What the upstream gets in the first turn is what the message means, unless a file's media type has
a comma; and it gets it in a workspace or in a directory that the policy admits. -/

section FirstTurn

variable {fs : FileSystem} {policy : SandboxPolicy fs} {defaultDirectory : Option Text}
  {context : RequestContext} {userInput : Text} {modes : Option (List Text)}
  {requestedExtensions : List Text} {prepared : PreparedRequest}

theorem first_turn_keeps_meaning
    (h : prepareExecution (fun requested => (policy.resolveDirectory defaultDirectory requested).map some)
      context parts userInput modes requestedExtensions = .ok prepared) :
    (if prepared.workspaceId.isSome then prepared.directory = none
      else ∃ directory, prepared.directory = some directory ∧
        policy.Confined defaultDirectory directory) ∧
    (if parts = [] then prepared.firstParts.map InputPart.read = [.text userInput.strip] ∧
        userInput.strip ≠ []
      else (prepared.firstParts.map (fun mapped => some mapped.read) = parts.map UserPart.meaning ↔
        ∀ p ∈ parts, p.Plain)) := by
  obtain ⟨hparts, hbinding, hinput, huser, -⟩ := prepareExecution_eq_ok h
  rw [firstParts_eq h]
  constructor
  · rcases directory_of_prepareBinding hbinding with ⟨hworkspace, hdirectory⟩ | ⟨hworkspace, hresolved⟩
    · rw [if_pos hworkspace]
      exact hdirectory
    · rw [hworkspace, if_neg (by decide)]
      obtain ⟨directory, hdirectory, hsome⟩ := map_eq_ok.mp hresolved
      exact ⟨directory, hsome.symm, SandboxPolicy.confined_of_resolveDirectory hdirectory⟩
  · split
    · rename_i hnil
      subst hnil
      have hrequest : prepared.requestParts = [] :=
        List.length_eq_zero_iff.mp (mapPartsFrom_eq_ok hparts).1
      have htext : prepared.userText = userInput.strip := huser
      exact ⟨rfl, htext ▸ hinput hrequest⟩
    · exact (mapPartsFrom_eq_ok hparts).2

/-- A deployment whose workspace is `/srv`. -/
def srvPolicy : SandboxPolicy (FileSystem.linkless (PosixPath.ofText "/".toList) rfl) where
  workspaceRoot := PosixPath.ofText "/srv".toList
  resolved := rfl
  allowDirectoryOverride := true
  sandboxMode := .workspaceWrite
  filesystemScope := .workspaceOnly
  writableRoots := []
  writeAccessScope := .workspaceOnly

/-- A text and a file. -/
def textAndFile : List UserPart :=
  [{ content := .text "look".toList },
    { content := .raw [1, 2], mediaType := "image/png".toList, filename := "a.png".toList }]

theorem text_and_file_keep_meaning : ∃ prepared,
    prepareExecution (fun requested => (srvPolicy.resolveDirectory none requested).map some)
      ⟨"c".toList, .null, none⟩ textAndFile [] none [] = .ok prepared ∧
    (if prepared.workspaceId.isSome then prepared.directory = none
      else ∃ directory, prepared.directory = some directory ∧ srvPolicy.Confined none directory) ∧
    (if textAndFile = [] then prepared.firstParts.map InputPart.read = [.text (Text.strip [])] ∧
        Text.strip [] ≠ []
      else (prepared.firstParts.map (fun mapped => some mapped.read) =
          textAndFile.map UserPart.meaning ↔ ∀ p ∈ textAndFile, p.Plain)) := by
  have hprepared : prepareExecution
      (fun requested => (srvPolicy.resolveDirectory none requested).map some)
      ⟨"c".toList, .null, none⟩ textAndFile [] none [] = .ok _ := rfl
  exact ⟨_, hprepared, first_turn_keeps_meaning hprepared⟩

end FirstTurn

end OpencodeA2a.Execution
