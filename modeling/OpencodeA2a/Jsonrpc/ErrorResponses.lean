import OpencodeA2a.Store.Interrupts
import OpencodeA2a.Server.Metadata
import OpencodeA2a.Redact.AbsolutePaths

/-!
# Error responses

`jsonrpc/error_responses.py` and the masker of values in `redact.py`: an error is
adapted before it goes to the client. Keys are put into camel case, strings are masked,
and the values of the error's metadata are written as texts.
-/

namespace OpencodeA2a.Jsonrpc

open OpencodeA2a.Stream (Text Json Mapping)
open OpencodeA2a.Redact

/-! ## §1  Cases of letters -/

/-- `str.isupper`, `str.islower` and `str.upper` of one character: what they make of
characters beyond ASCII is left open. -/
structure LetterCases where
  isUpper : Char → Bool
  isLower : Char → Bool
  upper : Char → Text
  isUpper_ascii : ∀ c, c.toNat < 128 → isUpper c = c.isUpper
  isLower_ascii : ∀ c, c.toNat < 128 → isLower c = c.isLower
  upper_ascii : ∀ c, c.toNat < 128 → upper c = [c.toUpper]

/-- The letter cases of a text that has no other letters than those of ASCII. -/
def LetterCases.asciiOnly : LetterCases where
  isUpper := Char.isUpper
  isLower := Char.isLower
  upper := fun c => [c.toUpper]
  isUpper_ascii := fun _ _ => rfl
  isLower_ascii := fun _ _ => rfl
  upper_ascii := fun _ _ => rfl

section Names

variable (L : LetterCases)

/-- The loop over the characters of a name: the flag says that the character before is in
lower case. -/
def snakeCase : Bool → Text → Text
  | _, [] => []
  | previousWasLower, c :: l =>
      (if L.isUpper c && previousWasLower then ['_'] else []) ++
        if c = ' ' ∨ c = '-' then '_' :: snakeCase false l
        else L.upper c ++ snakeCase (L.isLower c) l

/-- `_to_upper_snake_case` -/
def toUpperSnakeCase (name : Text) : Text := Strip.strip (· == '_') (snakeCase L false name)

/-- `part[:1].upper() + part[1:]` -/
def capitalize : Text → Text
  | [] => []
  | c :: l => L.upper c ++ l

/-- `_to_lower_camel_case`, with nothing where it raises: a name of underscores only has no
first part. -/
def toLowerCamelCase (name : Text) : Option Text :=
  if '_' ∉ name then some name
  else
    match (name.splitOn '_').filter (· ≠ []) with
    | [] => none
    | head :: tail => some (head ++ tail.flatMap (capitalize L))

end Names

/-! ## §2  Camel case in a value -/

section Camelize

variable (L : LetterCases)

mutual

/-- `_camelize` -/
def camelize : Json → Option Json
  | .arr items => (camelizeItems items).map .arr
  | .obj entries => (camelizeEntries entries).map fun m => .obj (Mapping.merge [] m)
  | j => some j

def camelizeItems : List Json → Option (List Json)
  | [] => some []
  | j :: js => (camelize j).bind fun j' => (camelizeItems js).map fun js' => j' :: js'

/-- The keys and values that the comprehension runs through. -/
def camelizeEntries : List (Text × Json) → Option (List (Text × Json))
  | [] => some []
  | (key, j) :: es =>
      (toLowerCamelCase L key).bind fun key' =>
        (camelize j).bind fun j' => (camelizeEntries es).map fun es' => (key', j') :: es'

end

end Camelize

/-! ## §3  Masking -/

section Mask

variable (W : WordChars)

mutual

/-- `redact_paths_in_value` -/
def redactPathsInValue : Json → Json
  | .str s => .str (redactAbsolutePaths W s)
  | .arr items => .arr (redactPathsInItems items)
  | .obj entries => .obj (redactPathsInEntries entries)
  | j => j

def redactPathsInItems : List Json → List Json
  | [] => []
  | j :: js => redactPathsInValue j :: redactPathsInItems js

def redactPathsInEntries : List (Text × Json) → List (Text × Json)
  | [] => []
  | (key, j) :: es => (key, redactPathsInValue j) :: redactPathsInEntries es

end

end Mask

/-! ## §4  A value as a text -/

def hexDigit (n : ℕ) : Char := "0123456789abcdef".toList.getD n '0'

/-- One character of a JSON string, with `ensure_ascii=False`. -/
def escapeChar (c : Char) : Text :=
  if c = '"' then ['\\', '"']
  else if c = '\\' then ['\\', '\\']
  else if c = '\n' then ['\\', 'n']
  else if c = '\r' then ['\\', 'r']
  else if c = '\t' then ['\\', 't']
  else if c.toNat = 8 then ['\\', 'b']
  else if c.toNat = 12 then ['\\', 'f']
  else if c.toNat < 32 then ['\\', 'u', '0', '0', hexDigit (c.toNat / 16), hexDigit (c.toNat % 16)]
  else [c]

def escape (s : Text) : Text := s.flatMap escapeChar

def quote (s : Text) : Text := '"' :: escape s ++ ['"']

mutual

/-- The text of a value, its entries in their order. -/
def render : Json → Text
  | .null => "null".toList
  | .bool true => "true".toList
  | .bool false => "false".toList
  | .int n => (toString n).toList
  | .float lit _ => lit
  | .str s => quote s
  | .arr items => '[' :: renderItems items ++ [']']
  | .obj entries => '{' :: renderEntries entries ++ ['}']

def renderItems : List Json → Text
  | [] => []
  | [j] => render j
  | j :: js => render j ++ ',' :: renderItems js

def renderEntries : List (Text × Json) → Text
  | [] => []
  | [(key, j)] => quote key ++ ':' :: render j
  | (key, j) :: es => quote key ++ ':' :: render j ++ ',' :: renderEntries es

end

/-- `json.dumps(value, ensure_ascii=False, separators=(",", ":"), sort_keys=True)` -/
def dumps (value : Json) : Text := render (Store.sortKeys value)

/-- `_stringify_metadata_value` -/
def stringifyMetadataValue (W : WordChars) : Json → Text
  | .str s => redactAbsolutePaths W s
  | .bool true => "True".toList
  | .bool false => "False".toList
  | .int n => (toString n).toList
  | .float lit _ => lit
  | value => redactAbsolutePaths W (dumps value)

/-! ## §5  Errors -/

/-- `JSONRPCError`; `Json.null` stands for data that is `None`. -/
structure JSONRPCError where
  code : ℤ
  message : Text
  data : Json

/-- `A2AError` of the SDK, with the name of the class it is raised as. -/
structure A2AError where
  className : Text
  message : Text
  data : Option Mapping

inductive ProtocolError where
  | jsonrpc (error : JSONRPCError)
  | a2a (error : A2AError)

namespace ProtocolError

/-- `type(error).__name__` -/
def className : ProtocolError → Text
  | .jsonrpc _ => "JSONRPCError".toList
  | .a2a error => error.className

/-- `getattr(error, "data", None)` -/
def data : ProtocolError → Json
  | .jsonrpc error => error.data
  | .a2a error => (error.data.map Json.obj).getD .null

end ProtocolError

def a2aErrorDomain : Text := "a2a-protocol.org".toList

def googleRpcErrorInfoType : Text := "type.googleapis.com/google.rpc.ErrorInfo".toList

/-- `STANDARD_JSONRPC_ERROR_MESSAGES` -/
def standardJsonrpcErrorMessages : List (ℤ × Text) :=
  [(-32700, "Invalid JSON payload".toList),
    (-32600, "Request payload validation error".toList),
    (-32601, "Method not found".toList),
    (-32602, "Invalid parameters".toList),
    (-32603, "Internal error".toList)]

section Adapt

variable (W : WordChars) (L : LetterCases)

/-- The entries of `payload["metadata"]`, those with `None` left out. -/
def errorInfoMetadata : Mapping → Option (List (Text × Json))
  | [] => some []
  | (_, .null) :: metadata => errorInfoMetadata metadata
  | (key, value) :: metadata =>
      (toLowerCamelCase L key).bind fun key' =>
        (errorInfoMetadata metadata).map fun es =>
          (key', Json.str (stringifyMetadataValue W value)) :: es

/-- `_build_error_info_detail` -/
def buildErrorInfoDetail (reason : Text) (metadata : Mapping) : Option Mapping :=
  let payload : Mapping :=
    [("@type".toList, .str googleRpcErrorInfoType), ("reason".toList, .str (toUpperSnakeCase L reason)),
      ("domain".toList, .str a2aErrorDomain)]
  if metadata = [] then some payload
  else (errorInfoMetadata W L metadata).map fun es =>
    payload ++ [("metadata".toList, .obj (Mapping.merge [] es))]

/-- `_build_context_detail` -/
def buildContextDetail (typeName : String) (payload : Mapping) : Option Mapping :=
  (camelizeEntries L (redactPathsInEntries W payload)).map fun es =>
    Mapping.merge [("@type".toList, .str ("type.googleapis.com/opencode_a2a." ++ typeName).toList)]
      (Mapping.merge [] es)

/-- `_reason_from_error` -/
def reasonFromError (error : ProtocolError) : Option Text :=
  let fromClass : Option Text :=
    if "Error".toList <:+ error.className ∧ error.className ≠ "JSONRPCError".toList then
      some (error.className.take (error.className.length - 5))
    else none
  match error.data.asMapping?.bind fun m => m.getStr? "type" with
  | some t => if t.Blank then fromClass else some t
  | none => fromClass

/-- `_metadata_from_error` -/
def metadataFromError (error : ProtocolError) : Mapping :=
  match error.data.asMapping? with
  | none => []
  | some m => Mapping.pop m "type".toList

/-- The data of an error with a standard code. -/
def standardData : Json → Option Json
  | .obj m => (camelize L (.obj (Mapping.pop m "type".toList))).map (redactPathsInValue W)
  | data => some (redactPathsInValue W data)

/-- `details` of an error with a code of its own. -/
def errorDetails (error : ProtocolError) : Option (List Json) :=
  let metadata := metadataFromError error
  let info : Option (List Json) :=
    match reasonFromError error with
    | none => some []
    | some reason => (buildErrorInfoDetail W L reason metadata).map fun detail => [.obj detail]
  let context : Option (List Json) :=
    if metadata = [] then some []
    else (buildContextDetail W L "ErrorContext" metadata).map fun detail => [.obj detail]
  info.bind fun details => context.map fun details' => details ++ details'

end Adapt

end OpencodeA2a.Jsonrpc
