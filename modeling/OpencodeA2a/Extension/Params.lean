import OpencodeA2a.Extension.UpstreamClient

/-!
# The parameters of the session queries

`parsing.py` and `jsonrpc/params.py`: the fields of a request for sessions or messages.
`null` is as good as a missing field.
-/

namespace OpencodeA2a.Extension

open OpencodeA2a.Stream (Text Json Mapping)
open OpencodeA2a.Jsonrpc

/-! ## §1  Integers -/

/-- The decimal digits of `int(…)`: which characters beyond ASCII are among them is left
open. -/
structure Numerals where
  digit : Char → Option ℕ
  digit_ascii : ∀ c, c.toNat < 128 → digit c = if c.isDigit then some (c.toNat - 48) else none

def Numerals.asciiOnly : Numerals where
  digit := fun c => if c.isDigit then some (c.toNat - 48) else none
  digit_ascii := fun _ _ => rfl

namespace Numerals

variable (D : Numerals)

/-- The value of the digits before, and of those that follow; an underscore may stand between
two of them. -/
def readDigits : ℕ → Text → Option ℕ
  | n, [] => some n
  | n, '_' :: c :: l => (D.digit c).bind fun d => readDigits (10 * n + d) l
  | n, c :: l => (D.digit c).bind fun d => readDigits (10 * n + d) l

def readNat : Text → Option ℕ
  | [] => none
  | c :: l =>
      -- longer numerals raise a `ValueError` too
      if 4300 < ((c :: l).filter (· ≠ '_')).length then none
      else (D.digit c).bind fun d => D.readDigits d l

/-- `int(value)` of a string -/
def readInt (t : Text) : Option ℤ :=
  match t.strip with
  | '-' :: l => (D.readNat l).map fun n => -(n : ℤ)
  | '+' :: l => (D.readNat l).map fun n => (n : ℤ)
  | l => (D.readNat l).map fun n => (n : ℤ)

end Numerals

/-! ## §2  Fields -/

variable (D : Numerals)

/-- `parse_int_field` -/
def parseIntField (value : Option Json) (field : String) (minimum : ℤ) :
    Except RpcError (Option ℤ) := do
  let parsed ←
    match value with
    | none => return none
    | some (.int n) => pure n
    | some (.str t) =>
        match D.readInt t with
        | some n => pure n
        | none => throw (invalidField (field ++ " must be an integer") field)
    | some _ => throw (invalidField (field ++ " must be an integer") field)
  if parsed < minimum then
    throw (invalidField (field ++ " must be >= " ++ toString minimum) field)
  else return some parsed

/-- `parse_string_field` -/
def parseStringField (value : Option Json) (field : String) : Except RpcError (Option Text) :=
  match value with
  | none => .ok none
  | some (.str t) => .ok (Stream.nonempty? t)
  | some _ => .error (invalidField (field ++ " must be a string") field)

/-- `parse_bool_field` -/
def parseBoolField (value : Option Json) (field : String) : Except RpcError (Option Bool) :=
  match value with
  | none => .ok none
  | some (.bool b) => .ok (some b)
  | some (.str t) =>
      if t.strip.lower ∈ ["true", "1", "yes", "on"].map String.toList then .ok (some true)
      else if t.strip.lower ∈ ["false", "0", "no", "off"].map String.toList then .ok (some false)
      else .error (invalidField (field ++ " must be a boolean") field)
  | some _ => .error (invalidField (field ++ " must be a boolean") field)

/-! ## §3  Queries -/

def sessionQueryDefaultLimit : ℤ := 20

def sessionQueryMaxLimit : ℤ := 100

/-- How many items a query asks for. -/
def SessionLimit : Type := { n : ℤ // 1 ≤ n ∧ n ≤ sessionQueryMaxLimit }

def sessionQueryPaginationUnsupported : List String := ["cursor", "page", "size"]

/-- `_reject_nested_query_params` -/
def rejectNestedQueryParams (params : Mapping) : Except RpcError Unit :=
  if (params.get? "query").isSome then
    .error (invalidField "query is not supported; use top-level params" "query")
  else .ok ()

/-- `_validate_pagination_fields` -/
def validatePaginationFields (params : Mapping) : Except RpcError Unit :=
  if sessionQueryPaginationUnsupported.any fun field => (params.get? field).isSome then
    .error (.invalidParams "Only limit pagination is supported".toList
      [entry "type" "INVALID_PAGINATION_MODE".toList,
        ("supported".toList, .arr [.str "limit".toList]),
        ("unsupported".toList,
          .arr (sessionQueryPaginationUnsupported.map fun field => .str field.toList))])
  else .ok ()

/-- `_normalize_session_query_limit` -/
def normalizeSessionQueryLimit (limit : Option Json) : Except RpcError SessionLimit := do
  match ← parseIntField D limit "limit" 1 with
  | none => return ⟨sessionQueryDefaultLimit, by decide⟩
  | some n =>
      if h : 1 ≤ n ∧ n ≤ sessionQueryMaxLimit then return ⟨n, h⟩
      else
        throw (.invalidParams ("limit must be <= " ++ toString sessionQueryMaxLimit).toList
          [entry "type" "INVALID_FIELD".toList, entry "field" "limit".toList,
            ("max".toList, .int sessionQueryMaxLimit)])

structure ListSessionsQuery where
  limit : SessionLimit
  directory : Option Text
  roots : Option Bool
  start : Option ℤ
  search : Option Text

/-- `parse_list_sessions_params` -/
def parseListSessionsParams (params : Mapping) : Except RpcError ListSessionsQuery := do
  rejectNestedQueryParams params
  validatePaginationFields params
  let limit ← normalizeSessionQueryLimit D (field? params "limit")
  let directory ← parseStringField (field? params "directory") "directory"
  let roots ← parseBoolField (field? params "roots") "roots"
  let start ← parseIntField D (field? params "start") "start" 0
  let search ← parseStringField (field? params "search") "search"
  return { limit, directory, roots, start, search }

/-- What goes upstream as the query; the directory is taken out before. -/
def ListSessionsQuery.params (query : ListSessionsQuery) : List (Text × QueryValue) :=
  [("limit".toList, .int query.limit.1)] ++
    (query.roots.map fun b => ("roots".toList, QueryValue.bool b)).toList ++
    (query.start.map fun n => ("start".toList, QueryValue.int n)).toList ++
    (query.search.map fun t => ("search".toList, QueryValue.text t)).toList

structure MessagesQuery where
  sessionId : Text
  limit : SessionLimit
  before : Option Text

def missingField (message : String) (field : String) : RpcError :=
  .invalidParams message.toList
    [entry "type" "MISSING_FIELD".toList, entry "field" field.toList]

/-- `params.get(field)`, a string that is not blank, stripped -/
def requiredString (params : Mapping) (field : String) : Except RpcError Text :=
  match (params.getStr? field).bind Stream.nonempty? with
  | some t => .ok t
  | none => .error (missingField ("Missing required params." ++ field) field)

/-- `parse_get_session_messages_params` -/
def parseGetSessionMessagesParams (params : Mapping) : Except RpcError MessagesQuery := do
  let sessionId ← requiredString params "session_id"
  rejectNestedQueryParams params
  validatePaginationFields params
  let limit ← normalizeSessionQueryLimit D (field? params "limit")
  let before ← parseStringField (field? params "before") "before"
  return { sessionId, limit, before }

def MessagesQuery.params (query : MessagesQuery) : List (Text × QueryValue) :=
  [("limit".toList, .int query.limit.1)] ++
    (query.before.map fun t => ("before".toList, QueryValue.text t)).toList

end OpencodeA2a.Extension
