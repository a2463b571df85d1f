import OpencodeA2a.Extension.Common
import OpencodeA2a.Extension.Methods

/-!
# Interrupt callbacks on the wire

`handle_interrupt_callback_request` as a program over the upstream client and the table of
interrupts. The directory of such a request is passed on as the client gave it; it is not run
through the resolver.
-/

namespace OpencodeA2a.Extension

open OpencodeA2a.Stream (Text Json Mapping)
open OpencodeA2a.Effects
open OpencodeA2a.Jsonrpc

/-! ## §1  The replies upstream -/

/-- `permission_reply`, `question_reply` and `question_reject`: the request and its endpoint. -/
def callbackRequest (client : UpstreamClient) : UpstreamCall → HttpRequest × String
  | .permissionReply requestId reply message routing =>
      ({ verb := .post, path := "/permission/".toList ++ requestId ++ "/reply".toList
         params := client.queryParams routing
         body := some (.obj ([strEntry "reply" reply] ++
           optionalEntry "message" ((message.filter (· ≠ [])).map .str))) },
        "/permission/{requestID}/reply")
  | .questionReply requestId answers routing =>
      ({ verb := .post, path := "/question/".toList ++ requestId ++ "/reply".toList
         params := client.queryParams routing
         body := some (.obj [("answers".toList,
           .arr (answers.map fun group => .arr (group.map .str)))]) },
        "/question/{requestID}/reply")
  | .questionReject requestId routing =>
      ({ verb := .post, path := "/question/".toList ++ requestId ++ "/reject".toList
         params := client.queryParams routing },
        "/question/{requestID}/reject")

def resolveRequest (requestId : Text) :
    Action (Store.InterruptStatus × Option Store.InterruptRequestBinding) :=
  Prog.call (A := Effect.Answer) (Effect.resolveRequest requestId)

def discardRequest (requestId : Text) : Action Unit :=
  Prog.call (A := Effect.Answer) (Effect.discardRequest requestId)

/-! ## §2  The handler -/

/-- The request as the checks of the callbacks see it. -/
def Request.asCallback (request : Request) (method : CallbackMethod) : CallbackRequest where
  id := request.id
  method := method
  params := request.params
  userIdentity := request.caller.userIdentity
  userCredentialId := request.caller.userCredentialId

/-- The `except` clauses. -/
def callbackException (requestId : Text) : Raised → Action (Except RpcError Mapping)
  | .valueError text => return .error (CallbackRequest.invalidValue text)
  | .httpStatusError status =>
      -- the upstream server does not know the interrupt any more, so it is forgotten here too
      if status = 404 then do
        discardRequest requestId
        return .error (interruptNotFoundError errInterruptNotFound requestId false)
      else return .error (upstreamHttpError errUpstreamHttpError status requestId)
  | .httpError => return .error (upstreamUnreachableError errUpstreamUnreachable requestId none)
  | .concurrencyLimit text =>
      return .error (upstreamUnreachableError errUpstreamUnreachable requestId (some text))
  | x => return .error (.internal (.other x.text))

/-- The `try` statement. -/
def performCallback (client : UpstreamClient) (requestId : Text) (call : UpstreamCall) :
    Action (Except RpcError Mapping) :=
  exceptException
    (do
      let _ ← sendBoolean (callbackRequest client call).1 (callbackRequest client call).2
      discardRequest requestId
      return .ok [("ok".toList, .bool true), entry "request_id" requestId])
    (callbackException requestId)

/-- `handle_interrupt_callback_request` -/
def handleInterruptCallback (method : CallbackMethod) (context : HandlerContext) (request : Request) :
    Action Reply :=
  match (request.asCallback method).parse with
  | .error e => return request.reject e
  | .ok (requestId, routing) => do
      let (status, binding) ← resolveRequest requestId
      match (request.asCallback method).proceed requestId routing status binding with
      | .error e => return request.reject e
      | .ok call => do
          match ← performCallback context.client requestId call with
          | .error e => return request.reject e
          | .ok result => request.success result

end OpencodeA2a.Extension
