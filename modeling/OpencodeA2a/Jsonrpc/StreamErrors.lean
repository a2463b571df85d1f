import OpencodeA2a.Jsonrpc.ErrorResponses

/-!
# Errors of a streaming operation

`_process_streaming_request` of `jsonrpc/application.py` waits for the first event before
it answers. An error up to then is adapted; one behind the first event goes through
`build_error_response` of the SDK, as it was raised.
-/

namespace OpencodeA2a.Jsonrpc

open OpencodeA2a.Stream (Text Json Mapping)
open OpencodeA2a.Redact

/-! ## §1  Answering -/

/-- What the handler's generator does: the events it yields and the error it then raises,
if it does not end there. -/
structure EventStream (ε : Type) where
  events : List ε
  error : Option A2AError

/-- The answer to a streaming request: server-sent events, or one JSON response. -/
inductive StreamReply where
  | events (items : List Mapping)
  | response (body : Mapping)

/-- The error that the client is sent. -/
def StreamReply.error : StreamReply → Option Json
  | .events items => items.getLast?.bind fun item => item.lookup "error".toList
  | .response body => body.lookup "error".toList

section Answer

variable {ε : Type} (W : WordChars) (L : LetterCases) (errorCodeMap : Text → Option ℤ)
  (mapEvent : ε → Mapping) (buildErrorResponse : A2AError → Mapping)

end Answer

/-! ## §2  Errors that adaptation leaves as they are written -/

section Errors

variable (W : WordChars) (L : LetterCases) (errorCodeMap : Text → Option ℤ)

/-- `JSON_RPC_ERROR_CODE_MAP.get(type(error), -32603)` -/
def A2AError.code (e : A2AError) : ℤ := (errorCodeMap e.className).getD (-32603)

/-- The class has a name that gives an error its reason. -/
def A2AError.NamesReason (e : A2AError) : Prop :=
  "Error".toList <:+ e.className ∧ e.className ≠ "JSONRPCError".toList

instance (e : A2AError) : Decidable e.NamesReason := inferInstanceAs (Decidable (_ ∧ _))

/-- The data that is written with the error is what adaptation makes of the error's own data,
and its message is kept: with a standard code it is the standard one, else there is no path to
mask in it. -/
def A2AError.Unadapted (e : A2AError) (written : Json) : Prop :=
  match standardJsonrpcErrorMessages.lookup (e.code errorCodeMap) with
  | some standard =>
      e.message = standard ∧ standardData W L (ProtocolError.a2a e).data = some written
  | none =>
      redactAbsolutePaths W e.message = e.message ∧
        ∃ details, errorDetails W L (.a2a e) = some details ∧
          (if details = [] then .null else .arr details) = written

variable {W L errorCodeMap}

/-- Details are never the data of an error with a standard code. -/
theorem not_unadapted_of_standard {e : A2AError} {standard : Text}
    (hcode : standardJsonrpcErrorMessages.lookup (e.code errorCodeMap) = some standard)
    (details : List Json) : ¬ e.Unadapted W L errorCodeMap (.arr details) := by
  unfold A2AError.Unadapted
  rw [hcode]
  rintro ⟨-, hdata⟩
  rw [ProtocolError.data] at hdata
  cases he : e.data with
  | none =>
      rw [he] at hdata
      cases hdata
  | some m =>
      rw [he] at hdata
      change (camelize L (.obj _)).map (redactPathsInValue W) = _ at hdata
      rw [camelize] at hdata
      cases hcamel : camelizeEntries L (Mapping.pop m "type".toList) with
      | none =>
          rw [hcamel] at hdata
          cases hdata
      | some es =>
          rw [hcamel] at hdata
          cases hdata

/-- With a code of its own and no data, an error is left as it is written if there is no path in
the message and the data says just the reason that the class gives. -/
theorem unadapted_of_own_code {e : A2AError}
    (hcode : standardJsonrpcErrorMessages.lookup (e.code errorCodeMap) = none)
    (hdata : e.data = none) (hname : e.NamesReason) (written : Json) :
    e.Unadapted W L errorCodeMap written ↔
      redactAbsolutePaths W e.message = e.message ∧
        written = .arr [.obj [("@type".toList, .str googleRpcErrorInfoType),
          ("reason".toList,
            .str (toUpperSnakeCase L (e.className.take (e.className.length - 5)))),
          ("domain".toList, .str a2aErrorDomain)]] := by
  have hnull : (ProtocolError.a2a e).data = .null := by
    rw [ProtocolError.data, hdata]
    rfl
  have hmetadata : metadataFromError (.a2a e) = [] := by
    rw [metadataFromError, hnull]
    rfl
  have hreason : reasonFromError (.a2a e) =
      some (e.className.take (e.className.length - 5)) := by
    rw [reasonFromError, hnull]
    exact if_pos hname
  unfold A2AError.Unadapted
  rw [hcode, errorDetails, hmetadata, hreason]
  refine and_congr_right fun _ => ?_
  constructor
  · rintro ⟨details, hdetails, hwritten⟩
    cases hdetails
    exact hwritten.symm
  · rintro rfl
    exact ⟨_, rfl, rfl⟩

end Errors

/-! ## §3  Errors at every position of a stream -/

section Positions

variable {ε : Type} {W : WordChars} {L : LetterCases} {errorCodeMap : Text → Option ℤ}
  {mapEvent : ε → Mapping} {buildErrorResponse : A2AError → Mapping}

end Positions

/-- `InternalError(message="cannot open '/home/u/x'")` -/
def unreadable : A2AError where
  className := "InternalError".toList
  message := "cannot open '/home/u/x'".toList
  data := none

end OpencodeA2a.Jsonrpc
