import OpencodeA2a.Library.Checks
import OpencodeA2a.Extension.Params

/-!
# The payloads of session control

The validators of `jsonrpc/methods.py` for `params.request` of the methods `prompt_async`,
`command` and `shell`. A rejection names a field by its path.
-/

namespace OpencodeA2a.Extension

open OpencodeA2a.Stream (Text Json Mapping)
open OpencodeA2a.Jsonrpc
open OpencodeA2a.Checks

/-! ## §1  Fields -/

/-- `_PromptAsyncValidationError` -/
structure PayloadError where
  field : Text
  message : Text

/-- The error whose message is the field and what it must be. -/
def mustBe (field : Text) (what : String) : PayloadError := ⟨field, field ++ ' ' :: what.toList⟩

def under (field : Text) (key : String) : Text := field ++ '.' :: key.toList

def item (field : Text) (index : ℕ) : Text :=
  field ++ '[' :: (toString index).toList ++ [']']

def requestField (key : String) : Text := under "request".toList key

def isStr (j : Json) : Bool := j.asStr?.isSome

/-- A string that starts with `msg`. -/
def isMessageId (j : Json) : Bool := j.asStr?.any fun t => "msg".toList.isPrefixOf t

/-- An `int` that is not negative; the booleans are integers. -/
def isRetryCount (j : Json) : Bool := j.asInt?.any fun n => 0 ≤ n.1

/-- The value is a string that is not blank. -/
def hasText (m : Mapping) (key : String) : Bool := ((m.getStr? key).bind Stream.nonempty?).isSome

def hasStr (m : Mapping) (key : String) : Bool := (m.getStr? key).isSome

/-! ## §2  Validators -/

/-- `_validate_allowed_request_fields` -/
def validateAllowedRequestFields (value : Mapping) (allowed : List String) :
    Except PayloadError Unit :=
  require (unknownFields value allowed).isEmpty
    ⟨"request".toList, "Unsupported fields: ".toList ++
      (", ".toList).intercalate ((unknownFields value allowed).map fun f => "request.".toList ++ f)⟩

/-- `_validate_optional_message_id` -/
def validateOptionalMessageId (value : Option Json) (field : Text) : Except PayloadError Unit :=
  require (value.all isMessageId) (mustBe field "must be a string starting with 'msg'")

/-- `_validate_optional_string_fields` -/
def validateOptionalStringFields (value : Mapping) (fieldNames : List String) :
    Except PayloadError Unit :=
  each (fun _ name => require ((field? value name).all isStr)
    (mustBe (requestField name) "must be a string")) 0 fieldNames

/-- `_validate_required_non_empty_string_fields` -/
def validateRequiredNonEmptyStringFields (value : Mapping) (fieldNames : List String) :
    Except PayloadError Unit :=
  each (fun _ name => require (hasText value name)
    (mustBe (requestField name) "must be a non-empty string")) 0 fieldNames

/-- `_validate_parts_array` -/
def validatePartsArray (value : Option Json) (field : Text)
    (partValidator : Json → Text → Except PayloadError Unit) : Except PayloadError Unit :=
  match value with
  | some (.arr parts) => each (fun i part => partValidator part (item field i)) 0 parts
  | _ => .error (mustBe field "must be an array")

/-- `_validate_model_ref` -/
def validateModelRef (value : Json) (field : Text) : Except PayloadError Unit :=
  match value with
  | .obj m => do
      require (hasText m "providerID") (mustBe (under field "providerID") "must be a non-empty string")
      require (hasText m "modelID") (mustBe (under field "modelID") "must be a non-empty string")
  | _ => .error (mustBe field "must be an object")

/-- `if (model := value.get("model")) is not None: …` -/
def validateOptionalModelRef (value : Option Json) (field : Text) : Except PayloadError Unit :=
  given (fun model => validateModelRef model field) value

/-- `_validate_prompt_async_format` -/
def validatePromptAsyncFormat (value : Json) (field : Text) : Except PayloadError Unit :=
  match value with
  | .obj m =>
      if Mapping.getStr? m "type" = some "text".toList then .ok ()
      else if Mapping.getStr? m "type" = some "json_schema".toList then do
        require (Mapping.getMapping? m "schema").isSome
          (mustBe (under field "schema") "must be an object for type=json_schema")
        require ((field? m "retryCount").all isRetryCount)
          (mustBe (under field "retryCount") "must be an integer >= 0")
      else .error (mustBe (under field "type") "must be 'text' or 'json_schema'")
  | _ => .error (mustBe field "must be an object")

/-- The keys of a part that must be strings, where its type is one that is supported. -/
def partKeys (partType : Text) : Option (List String) :=
  if partType = "text".toList then some ["text"]
  else if partType = "file".toList then some ["mime", "url"]
  else if partType = "agent".toList then some ["name"]
  else if partType = "subtask".toList then some ["prompt", "description", "agent"]
  else none

/-- What a subtask is checked for besides. -/
def validateSubtask (m : Mapping) (field : Text) : Except PayloadError Unit := do
  validateOptionalModelRef (field? m "model") (under field "model")
  require ((field? m "command").all isStr) (mustBe (under field "command") "must be a string")

/-- `_validate_prompt_async_part` -/
def validatePromptAsyncPart (value : Json) (field : Text) : Except PayloadError Unit :=
  match value with
  | .obj m =>
      match Mapping.getStr? m "type" with
      | none => .error (mustBe (under field "type") "must be a string")
      | some partType =>
          match partKeys partType with
          | none => .error (mustBe (under field "type") "must be one of: text, file, agent, subtask")
          | some keys => do
              each (fun _ key => require (hasStr m key) (mustBe (under field key) "must be a string"))
                0 keys
              if partType = "subtask".toList then validateSubtask m field else .ok ()
  | _ => .error (mustBe field "must be an object")

/-- `request.tools`, whose values are booleans -/
def validateTools (value : Json) : Except PayloadError Unit :=
  match value with
  | .obj tools =>
      each (fun _ tool => require (isBool tool.2)
        (mustBe (requestField "tools" ++ '.' :: tool.1) "must be a boolean")) 0 tools
  | _ => .error (mustBe (requestField "tools") "must be an object")

def promptAsyncRequestAllowedFields : List String :=
  ["parts", "messageID", "model", "agent", "noReply", "tools", "format", "system", "variant"]

/-- `_validate_prompt_async_request_payload` -/
def validatePromptAsyncRequestPayload (value : Mapping) : Except PayloadError Unit := do
  validateAllowedRequestFields value promptAsyncRequestAllowedFields
  validateOptionalMessageId (field? value "messageID") (requestField "messageID")
  validateOptionalModelRef (field? value "model") (requestField "model")
  validateOptionalStringFields value ["agent", "system", "variant"]
  require ((field? value "noReply").all isBool) (mustBe (requestField "noReply") "must be a boolean")
  given validateTools (field? value "tools")
  given (fun format => validatePromptAsyncFormat format (requestField "format"))
    (field? value "format")
  validatePartsArray (value.get? "parts") (requestField "parts") validatePromptAsyncPart

/-- `_validate_command_part` -/
def validateCommandPart (value : Json) (field : Text) : Except PayloadError Unit :=
  match value with
  | .obj m => do
      require (Mapping.getStr? m "type" = some "file".toList) (mustBe (under field "type") "must be 'file'")
      each (fun _ key => require (hasText m key) (mustBe (under field key) "must be a non-empty string"))
        0 ["mime", "url"]
  | _ => .error (mustBe field "must be an object")

def commandRequestAllowedFields : List String :=
  ["command", "arguments", "messageID", "agent", "model", "variant", "parts"]

/-- `_validate_command_request_payload` -/
def validateCommandRequestPayload (value : Mapping) : Except PayloadError Unit := do
  validateAllowedRequestFields value commandRequestAllowedFields
  validateRequiredNonEmptyStringFields value ["command", "arguments"]
  validateOptionalMessageId (field? value "messageID") (requestField "messageID")
  validateOptionalModelRef (field? value "model") (requestField "model")
  validateOptionalStringFields value ["agent", "variant"]
  given (fun parts => validatePartsArray (some parts) (requestField "parts") validateCommandPart)
    (field? value "parts")

def shellRequestAllowedFields : List String := ["agent", "command", "model"]

/-- `_validate_shell_request_payload` -/
def validateShellRequestPayload (value : Mapping) : Except PayloadError Unit := do
  validateAllowedRequestFields value shellRequestAllowedFields
  validateRequiredNonEmptyStringFields value ["agent", "command"]
  validateOptionalModelRef (field? value "model") (requestField "model")

/-- The methods of session control. -/
inductive ControlMethod where
  | promptAsync
  | command
  | shell
deriving DecidableEq

def ControlMethod.validate : ControlMethod → Mapping → Except PayloadError Unit
  | .promptAsync => validatePromptAsyncRequestPayload
  | .command => validateCommandRequestPayload
  | .shell => validateShellRequestPayload

def ControlMethod.allowedFields : ControlMethod → List String
  | .promptAsync => promptAsyncRequestAllowedFields
  | .command => commandRequestAllowedFields
  | .shell => shellRequestAllowedFields

/-! ## §3  Faults

What can be wrong with a payload, in no order.
-/

inductive ModelRefFault (field : Text) : Json → PayloadError → Prop
  | shape {value : Json} (h : value.asMapping? = none) :
      ModelRefFault field value (mustBe field "must be an object")
  | blank {m : Mapping} {key : String} (hkey : key ∈ ["providerID", "modelID"])
      (h : hasText m key = false) :
      ModelRefFault field (.obj m) (mustBe (under field key) "must be a non-empty string")

inductive FormatFault (field : Text) : Json → PayloadError → Prop
  | shape {value : Json} (h : value.asMapping? = none) :
      FormatFault field value (mustBe field "must be an object")
  | type {m : Mapping} (htext : m.getStr? "type" ≠ some "text".toList)
      (hschema : m.getStr? "type" ≠ some "json_schema".toList) :
      FormatFault field (.obj m) (mustBe (under field "type") "must be 'text' or 'json_schema'")
  | schema {m : Mapping} (htype : m.getStr? "type" = some "json_schema".toList)
      (h : (m.getMapping? "schema").isSome = false) :
      FormatFault field (.obj m)
        (mustBe (under field "schema") "must be an object for type=json_schema")
  | retryCount {m : Mapping} (htype : m.getStr? "type" = some "json_schema".toList)
      (h : (field? m "retryCount").all isRetryCount = false) :
      FormatFault field (.obj m) (mustBe (under field "retryCount") "must be an integer >= 0")

inductive PartFault (field : Text) : Json → PayloadError → Prop
  | shape {part : Json} (h : part.asMapping? = none) :
      PartFault field part (mustBe field "must be an object")
  | noType {m : Mapping} (h : m.getStr? "type" = none) :
      PartFault field (.obj m) (mustBe (under field "type") "must be a string")
  | otherType {m : Mapping} {partType : Text} (htype : m.getStr? "type" = some partType)
      (h : partKeys partType = none) :
      PartFault field (.obj m)
        (mustBe (under field "type") "must be one of: text, file, agent, subtask")
  | key {m : Mapping} {partType : Text} {keys : List String} {key : String}
      (htype : m.getStr? "type" = some partType) (hkeys : partKeys partType = some keys)
      (hkey : key ∈ keys) (h : hasStr m key = false) :
      PartFault field (.obj m) (mustBe (under field key) "must be a string")
  | model {m : Mapping} {model : Json} {e : PayloadError}
      (htype : m.getStr? "type" = some "subtask".toList) (hmodel : field? m "model" = some model)
      (h : ModelRefFault (under field "model") model e) : PartFault field (.obj m) e
  | command {m : Mapping} (htype : m.getStr? "type" = some "subtask".toList)
      (h : (field? m "command").all isStr = false) :
      PartFault field (.obj m) (mustBe (under field "command") "must be a string")

inductive CommandPartFault (field : Text) : Json → PayloadError → Prop
  | shape {part : Json} (h : part.asMapping? = none) :
      CommandPartFault field part (mustBe field "must be an object")
  | type {m : Mapping} (h : m.getStr? "type" ≠ some "file".toList) :
      CommandPartFault field (.obj m) (mustBe (under field "type") "must be 'file'")
  | blank {m : Mapping} {key : String} (hkey : key ∈ ["mime", "url"])
      (h : hasText m key = false) :
      CommandPartFault field (.obj m) (mustBe (under field key) "must be a non-empty string")

inductive ToolsFault : Json → PayloadError → Prop
  | shape {tools : Json} (h : tools.asMapping? = none) :
      ToolsFault tools (mustBe (requestField "tools") "must be an object")
  | flag {tools : Mapping} {name : Text} {flag : Json} (hmem : (name, flag) ∈ tools)
      (h : isBool flag = false) :
      ToolsFault (.obj tools) (mustBe (requestField "tools" ++ '.' :: name) "must be a boolean")

/-- The faults of an array, whose members have those of `F` at their paths. -/
inductive PartsFault (F : Text → Json → PayloadError → Prop) : Json → PayloadError → Prop
  | shape {value : Json} (h : ∀ parts, value ≠ .arr parts) :
      PartsFault F value (mustBe (requestField "parts") "must be an array")
  | member {parts : List Json} {i : ℕ} {part : Json} {e : PayloadError} (hpart : parts[i]? = some part)
      (h : F (item (requestField "parts") i) part e) : PartsFault F (.arr parts) e

/-- The fields that must not be blank. -/
def ControlMethod.requiredFields : ControlMethod → List String
  | .promptAsync => []
  | .command => ["command", "arguments"]
  | .shell => ["agent", "command"]

/-- The fields that are strings where they are given. -/
def ControlMethod.stringFields : ControlMethod → List String
  | .promptAsync => ["agent", "system", "variant"]
  | .command => ["agent", "variant"]
  | .shell => []

inductive PayloadFault (value : Mapping) : ControlMethod → PayloadError → Prop
  | unsupported {method : ControlMethod}
      (h : (unknownFields value method.allowedFields).isEmpty = false) :
      PayloadFault value method
        ⟨"request".toList, "Unsupported fields: ".toList ++ (", ".toList).intercalate
          ((unknownFields value method.allowedFields).map fun f => "request.".toList ++ f)⟩
  | required {method : ControlMethod} {key : String} (hkey : key ∈ method.requiredFields)
      (h : hasText value key = false) :
      PayloadFault value method (mustBe (requestField key) "must be a non-empty string")
  | messageID {method : ControlMethod} (hmethod : method ≠ .shell)
      (h : (field? value "messageID").all isMessageId = false) :
      PayloadFault value method
        (mustBe (requestField "messageID") "must be a string starting with 'msg'")
  | model {method : ControlMethod} {model : Json} {e : PayloadError}
      (hmodel : field? value "model" = some model)
      (h : ModelRefFault (requestField "model") model e) : PayloadFault value method e
  | string {method : ControlMethod} {key : String} (hkey : key ∈ method.stringFields)
      (h : (field? value key).all isStr = false) :
      PayloadFault value method (mustBe (requestField key) "must be a string")
  | noReply (h : (field? value "noReply").all isBool = false) :
      PayloadFault value .promptAsync (mustBe (requestField "noReply") "must be a boolean")
  | tools {tools : Json} {e : PayloadError} (htools : field? value "tools" = some tools)
      (h : ToolsFault tools e) : PayloadFault value .promptAsync e
  | format {format : Json} {e : PayloadError} (hformat : field? value "format" = some format)
      (h : FormatFault (requestField "format") format e) : PayloadFault value .promptAsync e
  | noParts (h : value.get? "parts" = none) :
      PayloadFault value .promptAsync (mustBe (requestField "parts") "must be an array")
  | parts {parts : Json} {e : PayloadError} (hparts : value.get? "parts" = some parts)
      (h : PartsFault PartFault parts e) : PayloadFault value .promptAsync e
  | commandParts {parts : Json} {e : PayloadError} (hparts : field? value "parts" = some parts)
      (h : PartsFault CommandPartFault parts e) : PayloadFault value .command e

/-! ## §4  The validators locate the faults -/

section Locating

variable {value : Mapping} {field : Text}

theorem locates_requireText {m : Mapping} (field : Text) (keys : List String) :
    Locates (fun e => ∃ key ∈ keys, hasText m key = false ∧
        e = mustBe (under field key) "must be a non-empty string")
      (each (fun _ key => require (hasText m key)
        (mustBe (under field key) "must be a non-empty string")) 0 keys) :=
  locates_each_mem (fun _ _ => locates_require _ _) 0

theorem locates_modelRef (value : Json) (field : Text) :
    Locates (ModelRefFault field value) (validateModelRef value field) := by
  cases value with
  | obj m =>
      refine ((locates_require _ _).seq (locates_require _ _)).congr fun e => ⟨?_, ?_⟩
      · rintro (⟨h, rfl⟩ | ⟨h, rfl⟩)
        · exact .blank (by simp) h
        · exact .blank (by simp) h
      · rintro (⟨⟨⟩⟩ | ⟨hkey, h⟩)
        rcases List.mem_pair.mp hkey with rfl | rfl
        · exact .inl ⟨h, rfl⟩
        · exact .inr ⟨h, rfl⟩
  | null | bool | int | float | str | arr => exact locates_error (.shape rfl)

theorem locates_optionalModelRef (value : Option Json) (field : Text) :
    Locates (fun e => ∃ model, value = some model ∧ ModelRefFault field model e)
      (validateOptionalModelRef value field) :=
  locates_given (fun model => locates_modelRef model field) value

theorem locates_format (value : Json) (field : Text) :
    Locates (FormatFault field value) (validatePromptAsyncFormat value field) := by
  cases value with
  | obj m =>
      unfold validatePromptAsyncFormat
      dsimp only
      by_cases htext : Mapping.getStr? m "type" = some "text".toList
      · rw [if_pos htext]
        refine locates_ok fun e he => ?_
        cases he with
        | shape h => cases h
        | type hno _ => exact hno htext
        | schema htype _ | retryCount htype _ => rw [htext] at htype; simp at htype
      · rw [if_neg htext]
        by_cases htype : Mapping.getStr? m "type" = some "json_schema".toList
        · rw [if_pos htype]
          refine ((locates_require _ _).seq (locates_require _ _)).congr fun e => ⟨?_, ?_⟩
          · rintro (⟨h, rfl⟩ | ⟨h, rfl⟩)
            · exact .schema htype h
            · exact .retryCount htype h
          · rintro (⟨⟨⟩⟩ | ⟨-, hno⟩ | ⟨-, h⟩ | ⟨-, h⟩)
            · exact absurd htype hno
            · exact .inl ⟨h, rfl⟩
            · exact .inr ⟨h, rfl⟩
        · rw [if_neg htype]
          exact locates_error (.type htext htype)
  | null | bool | int | float | str | arr => exact locates_error (.shape rfl)

theorem locates_subtask (m : Mapping) (field : Text) :
    Locates (fun e =>
        (∃ model, field? m "model" = some model ∧ ModelRefFault (under field "model") model e) ∨
          ((field? m "command").all isStr = false ∧
            e = mustBe (under field "command") "must be a string"))
      (validateSubtask m field) :=
  (locates_optionalModelRef _ _).seq (locates_require _ _)

/-- The faults of a part whose type is supported. -/
theorem partFault_iff {m : Mapping} {partType : Text} {keys : List String} {e : PayloadError}
    (htype : m.getStr? "type" = some partType) (hkeys : partKeys partType = some keys) :
    PartFault field (.obj m) e ↔
      (∃ key ∈ keys, hasStr m key = false ∧ e = mustBe (under field key) "must be a string") ∨
        partType = "subtask".toList ∧
          ((∃ model, field? m "model" = some model ∧ ModelRefFault (under field "model") model e) ∨
            ((field? m "command").all isStr = false ∧
              e = mustBe (under field "command") "must be a string")) := by
  constructor
  · intro h
    cases h with
    | shape hshape => cases hshape
    | noType hno => cases htype.symm.trans hno
    | otherType ht hno =>
        cases htype.symm.trans ht
        cases hkeys.symm.trans hno
    | key ht hk hkey hmissing =>
        cases htype.symm.trans ht
        cases hkeys.symm.trans hk
        exact .inl ⟨_, hkey, hmissing, rfl⟩
    | model ht hmodel hfault =>
        cases htype.symm.trans ht
        exact .inr ⟨rfl, .inl ⟨_, hmodel, hfault⟩⟩
    | command ht hfault =>
        cases htype.symm.trans ht
        exact .inr ⟨rfl, .inr ⟨hfault, rfl⟩⟩
  · rintro (⟨key, hkey, hmissing, rfl⟩ | ⟨rfl, ⟨model, hmodel, hfault⟩ | ⟨hfault, rfl⟩⟩)
    · exact .key htype hkeys hkey hmissing
    · exact .model htype hmodel hfault
    · exact .command htype hfault

theorem locates_part (value : Json) (field : Text) :
    Locates (PartFault field value) (validatePromptAsyncPart value field) := by
  cases value with
  | obj m =>
      unfold validatePromptAsyncPart
      dsimp only
      cases htype : Mapping.getStr? m "type" with
      | none => exact locates_error (.noType htype)
      | some partType =>
          dsimp only
          cases hkeys : partKeys partType with
          | none => exact locates_error (.otherType htype hkeys)
          | some keys =>
              refine Locates.congr ?_ fun e => (partFault_iff htype hkeys).symm
              exact (locates_each_mem (fun key _ => locates_require _ _) 0).seq
                ((locates_subtask m field).when _)
  | null | bool | int | float | str | arr => exact locates_error (.shape rfl)

theorem locates_commandPart (value : Json) (field : Text) :
    Locates (CommandPartFault field value) (validateCommandPart value field) := by
  cases value with
  | obj m =>
      refine ((locates_require _ _).seq (locates_requireText field ["mime", "url"])).congr
        fun e => ⟨?_, ?_⟩
      · rintro (⟨h, rfl⟩ | ⟨key, hkey, h, rfl⟩)
        · exact .type (of_decide_eq_false h)
        · exact .blank hkey h
      · rintro (⟨⟨⟩⟩ | h | ⟨hkey, h⟩)
        · exact .inl ⟨decide_eq_false h, rfl⟩
        · exact .inr ⟨_, hkey, h, rfl⟩
  | null | bool | int | float | str | arr => exact locates_error (.shape rfl)

theorem locates_tools (value : Json) : Locates (ToolsFault value) (validateTools value) := by
  cases value with
  | obj tools =>
      refine (locates_each_mem (fun tool _ => locates_require (isBool tool.2)
        (mustBe (requestField "tools" ++ '.' :: tool.1) "must be a boolean")) 0).congr
        fun e => ⟨?_, ?_⟩
      · rintro ⟨tool, hmem, h, rfl⟩
        exact .flag hmem h
      · rintro (⟨⟨⟩⟩ | ⟨hmem, h⟩)
        exact ⟨_, hmem, h, rfl⟩
  | null | bool | int | float | str | arr => exact locates_error (.shape rfl)

theorem locates_parts {F : Text → Json → PayloadError → Prop}
    {validate : Json → Text → Except PayloadError Unit}
    (h : ∀ part field, Locates (F field part) (validate part field)) (value : Json) :
    Locates (PartsFault F value) (validatePartsArray (some value) (requestField "parts") validate) := by
  cases value with
  | arr parts =>
      refine (locates_each (fun i part _ => h part (item (requestField "parts") i)) 0).congr
        fun e => ⟨?_, ?_⟩
      · rintro ⟨i, part, hpart, he⟩
        rw [Nat.zero_add] at he
        exact .member hpart he
      · rintro (hno | ⟨hpart, he⟩)
        · exact absurd rfl (hno parts)
        · exact ⟨_, _, hpart, by rwa [Nat.zero_add]⟩
  | null | bool | int | float | str | obj => exact locates_error (.shape (by rintro _ ⟨⟩))

theorem locates_unsupported (value : Mapping) (allowed : List String) :
    Locates (fun e => (unknownFields value allowed).isEmpty = false ∧
        e = ⟨"request".toList, "Unsupported fields: ".toList ++ (", ".toList).intercalate
          ((unknownFields value allowed).map fun f => "request.".toList ++ f)⟩)
      (validateAllowedRequestFields value allowed) :=
  locates_require _ _

theorem locates_strings (value : Mapping) (keys : List String) :
    Locates (fun e => ∃ key ∈ keys, (field? value key).all isStr = false ∧
        e = mustBe (requestField key) "must be a string")
      (validateOptionalStringFields value keys) :=
  locates_each_mem (fun _ _ => locates_require _ _) 0

theorem locates_promptAsync (value : Mapping) :
    Locates (PayloadFault value .promptAsync) (validatePromptAsyncRequestPayload value) := by
  have hparts : Locates (fun e =>
        (value.get? "parts" = none ∧ e = mustBe (requestField "parts") "must be an array") ∨
          ∃ parts, value.get? "parts" = some parts ∧ PartsFault PartFault parts e)
      (validatePartsArray (value.get? "parts") (requestField "parts") validatePromptAsyncPart) := by
    cases value.get? "parts" with
    | none => exact locates_error (.inl ⟨rfl, rfl⟩)
    | some parts =>
        refine (locates_parts locates_part parts).congr fun e => ⟨fun he => .inr ⟨_, rfl, he⟩, ?_⟩
        rintro (⟨⟨⟩, -⟩ | ⟨_, ⟨⟩, he⟩)
        exact he
  refine ((locates_unsupported _ _).seq ((locates_require _ _).seq ((locates_optionalModelRef _ _).seq
    ((locates_strings _ _).seq ((locates_require _ _).seq ((locates_given locates_tools _).seq
      ((locates_given (fun format => locates_format format _) _).seq hparts))))))).congr
    fun e => ⟨?_, ?_⟩
  · rintro (⟨h, rfl⟩ | ⟨h, rfl⟩ | ⟨_, hmodel, h⟩ | ⟨_, hkey, h, rfl⟩ | ⟨h, rfl⟩ | ⟨_, htools, h⟩ |
      ⟨_, hformat, h⟩ | ⟨h, rfl⟩ | ⟨_, hp, h⟩)
    · exact .unsupported h
    · exact .messageID (by decide) h
    · exact .model hmodel h
    · exact .string hkey h
    · exact .noReply h
    · exact .tools htools h
    · exact .format hformat h
    · exact .noParts h
    · exact .parts hp h
  · intro he
    cases he with
    | unsupported h => exact .inl ⟨h, rfl⟩
    | required hkey h => cases hkey
    | messageID hmethod h => exact .inr (.inl ⟨h, rfl⟩)
    | model hmodel h => exact .inr (.inr (.inl ⟨_, hmodel, h⟩))
    | string hkey h => exact .inr (.inr (.inr (.inl ⟨_, hkey, h, rfl⟩)))
    | noReply h => exact .inr (.inr (.inr (.inr (.inl ⟨h, rfl⟩))))
    | tools htools h => exact .inr (.inr (.inr (.inr (.inr (.inl ⟨_, htools, h⟩)))))
    | format hformat h => exact .inr (.inr (.inr (.inr (.inr (.inr (.inl ⟨_, hformat, h⟩))))))
    | noParts h => exact .inr (.inr (.inr (.inr (.inr (.inr (.inr (.inl ⟨h, rfl⟩)))))))
    | parts hp h => exact .inr (.inr (.inr (.inr (.inr (.inr (.inr (.inr ⟨_, hp, h⟩)))))))

theorem locates_command (value : Mapping) :
    Locates (PayloadFault value .command) (validateCommandRequestPayload value) := by
  refine ((locates_unsupported _ _).seq ((locates_requireText "request".toList _).seq
    ((locates_require _ _).seq ((locates_optionalModelRef _ _).seq ((locates_strings _ _).seq
      (locates_given (locates_parts locates_commandPart) _)))))).congr fun e => ⟨?_, ?_⟩
  · rintro (⟨h, rfl⟩ | ⟨_, hkey, h, rfl⟩ | ⟨h, rfl⟩ | ⟨_, hmodel, h⟩ | ⟨_, hkey, h, rfl⟩ |
      ⟨_, hparts, h⟩)
    · exact .unsupported h
    · exact .required hkey h
    · exact .messageID (by decide) h
    · exact .model hmodel h
    · exact .string hkey h
    · exact .commandParts hparts h
  · intro he
    cases he with
    | unsupported h => exact .inl ⟨h, rfl⟩
    | required hkey h => exact .inr (.inl ⟨_, hkey, h, rfl⟩)
    | messageID hmethod h => exact .inr (.inr (.inl ⟨h, rfl⟩))
    | model hmodel h => exact .inr (.inr (.inr (.inl ⟨_, hmodel, h⟩)))
    | string hkey h => exact .inr (.inr (.inr (.inr (.inl ⟨_, hkey, h, rfl⟩))))
    | commandParts hparts h => exact .inr (.inr (.inr (.inr (.inr ⟨_, hparts, h⟩))))

theorem locates_shell (value : Mapping) :
    Locates (PayloadFault value .shell) (validateShellRequestPayload value) := by
  refine ((locates_unsupported _ _).seq ((locates_requireText "request".toList _).seq
    (locates_optionalModelRef _ _))).congr fun e => ⟨?_, ?_⟩
  · rintro (⟨h, rfl⟩ | ⟨_, hkey, h, rfl⟩ | ⟨_, hmodel, h⟩)
    · exact .unsupported h
    · exact .required hkey h
    · exact .model hmodel h
  · intro he
    cases he with
    | unsupported h => exact .inl ⟨h, rfl⟩
    | required hkey h => exact .inr (.inl ⟨_, hkey, h, rfl⟩)
    | messageID hmethod h => exact absurd rfl hmethod
    | model hmodel h => exact .inr (.inr ⟨_, hmodel, h⟩)
    | string hkey h => cases hkey

/-- A payload passes exactly when nothing is wrong with it; otherwise the error is about
something that is wrong. -/
theorem ControlMethod.locates_validate (method : ControlMethod) (value : Mapping) :
    Locates (PayloadFault value method) (method.validate value) := by
  cases method with
  | promptAsync => exact locates_promptAsync value
  | command => exact locates_command value
  | shell => exact locates_shell value

end Locating

end OpencodeA2a.Extension
