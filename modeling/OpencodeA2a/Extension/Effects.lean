import OpencodeA2a.Library.Effects
import OpencodeA2a.Store.Interrupts

/-!
# What the handlers of extension methods await

The handlers under `jsonrpc/handlers` check their parameters first and then await: the
session manager, the upstream server, the table of interrupts. An await may raise; the
exceptions are those that the handlers tell apart.
-/

namespace OpencodeA2a.Extension

open OpencodeA2a.Stream (Text Json Mapping)
open OpencodeA2a.Store (InterruptRequestBinding InterruptStatus)
open OpencodeA2a.Effects

/-! ## §1  HTTP -/

inductive Verb where
  | get
  | post
  | delete
deriving DecidableEq

structure HttpRequest where
  verb : Verb
  path : Text
  /-- the query -/
  params : List (Text × Text) := []
  body : Option Json := none

/-- What `response.json()` makes of a body. -/
inductive Decoded where
  | value (j : Json)
  /-- `json.JSONDecodeError` -/
  | noJson
  /-- another `ValueError`: the body is no text -/
  | noText (error : Text)

structure HttpResponse where
  status : ℕ
  contentType : Text
  text : Text
  json : Decoded
  nextCursor : Option Text

/-! ## §2  Exceptions -/

inductive Raised where
  | httpStatusError (status : ℕ)
  /-- any other `httpx.HTTPError` -/
  | httpError
  | concurrencyLimit (text : Text)
  | contractError (text : Text)
  | valueError (text : Text)
  | permissionError (text : Text)
  | other (text : Text)
  /-- `CancelledError`, which `except Exception` does not catch -/
  | cancelled
deriving DecidableEq

/-! ## §3  Effects -/

/-- What `_log_shell_audit` writes, beside the session. -/
inductive AuditOutcome where
  | authorizationForbidden
  | upstream404
  | upstreamHttpError
  | upstreamUnreachable
  | upstreamBackpressure
  | upstreamPayloadError
  | forbidden
  | internalError
  | success
deriving DecidableEq

inductive Effect where
  /-- `session_claim`: whether a claim is now pending -/
  | claim (identity sessionId : Text)
  | finalize (identity sessionId : Text)
  | release (identity sessionId : Text)
  | send (request : HttpRequest)
  | listPending (identity interruptType : Text)
  | resolveRequest (requestId : Text)
  | discardRequest (requestId : Text)
  /-- a line of the audit log, by the identity on the session -/
  | audit (identity : Option Text) (sessionId : Text) (outcome : AuditOutcome)

abbrev Effect.Answer : Effect → Type
  | .claim _ _ => Bool
  | .send _ => HttpResponse
  | .listPending _ _ => List InterruptRequestBinding
  | .resolveRequest _ => InterruptStatus × Option InterruptRequestBinding
  | .finalize _ _ | .release _ _ | .discardRequest _ | .audit _ _ _ => Unit

abbrev Action (α : Type) : Type := Prog Effect Effect.Answer Raised α

def isAudit : Effect → Bool
  | .audit _ _ _ => true
  | _ => false

/-- What the rest of the server answers. -/
abbrev Surroundings : Type := Environment Effect Effect.Answer Raised

end OpencodeA2a.Extension
