import SceneReplay.Service.Framework
import SceneReplay.Text.Encoding
import SceneReplay.Web.Fields
import SceneReplay.Web.Path

/-!
# A stand-in for a web framework

The service is made for a web framework (`SceneReplay.Service.Framework`). This one is as small as
can be (`SceneReplay.Web.standIn`): it finds the route of a call, reads the document in its body,
checks the fields and sends what the application has for it. What is wrong with a call it answers
by itself (`SceneReplay.Web.findingsResponse`).
-/

namespace SceneReplay.Web

open Service

/-- A call, as far as it matters. -/
structure Call where
  /-- The method. -/
  method : String
  /-- The address that it is sent to. -/
  address : String
  /-- The bytes of the body; none if there is no body. -/
  body : List UInt8

/-- The answer that is a remark. -/
def remark (status : Nat) (text : String) : Response :=
  ⟨status, some (.object [("detail", .text text)])⟩

/-- The answer to a failure in the path of a route. -/
def failureResponse (app : App) (path : String) (f : Failure) : Response :=
  if f.isBadValue then app.onBadValue f else app.onFailure path f

/-! ### Calls that are no good -/

/-- The answer that lists what is wrong with a call. It shows the parts in question,
so it cannot be given if these cannot be written. -/
def findingsResponse (app : App) (found : List Finding) : Response :=
  let shown := Finding.report found
  if shown.hasNonFinite then
    app.onBadValue ⟨true, "Out of range float values are not JSON compliant"⟩
  else
    match Text.unencodable? shown.compact with
    | some reason => app.onBadValue ⟨true, reason⟩
    | none => ⟨422, some shown⟩

/-- The answer to a body that holds no document at all. -/
def unreadableResponse : Response := remark 400 "There was an error parsing the body"

/-! ### Results -/

/-- What keeps a result from being written: a text that has no UTF-8 form. -/
def unwritable? (result : ExpandResponse) : Option Failure :=
  (result.texts.findSome? Text.unencodable?).map fun reason =>
    ⟨true, "Error serializing to JSON: UnicodeEncodeError: " ++ reason⟩

/-- The answer with a result, or with what keeps it from being given. -/
def resultResponse (app : App) (result : Except Failure ExpandResponse) : Response :=
  match result with
  | .error f => failureResponse app Route.expand.path f
  | .ok result =>
    match unwritable? result with
    | some f => failureResponse app Route.expand.path f
    | none => ⟨app.status, some result.document⟩

/-- The answer to a body with a request to expand a scene. -/
def expandResponse (app : App) (body : List UInt8) : Response :=
  if body.isEmpty then findingsResponse app [⟨⟨.missing, [.field "body"]⟩, .null⟩]
  else
    match Text.ofBytes? body with
    | none => unreadableResponse
    | some text =>
      match Json.parse text with
      | .error .form =>
        findingsResponse app [⟨⟨.malformedDocument, [.field "body"]⟩, .object []⟩]
      | .error .tooManyDigits => unreadableResponse
      | .ok document =>
        match readRequest document with
        | .error found => findingsResponse app found
        | .ok request => resultResponse app (app.expand request)

/-- The answer to a question for the state of the service. -/
def healthResponse (app : App) : Response :=
  match app.health with
  | .ok report => ⟨200, some report⟩
  | .error f => failureResponse app Route.health.path f

/-! ### Calls -/

/-- The answer to a call, in full. -/
def fullResponse (app : App) (call : Call) : Response :=
  match route? call.address with
  | none => remark 404 "Not Found"
  | some route =>
    if !accepts route call.method then remark 405 "Method Not Allowed"
    else
      match route with
      | .expand => expandResponse app call.body
      | .health => healthResponse app

/-- The method that asks for an answer without its contents. -/
def headMethod : String := "HEAD"

/-- The answer to a call. -/
def respond (app : App) (call : Call) : Response :=
  let full := fullResponse app call
  if sameMethod call.method headMethod then { full with body := none } else full

/-- The request that bytes ask for, if they hold a document that passes all checks. -/
def requested? (body : List UInt8) : Option ExpandRequest := do
  let text ← Text.ofBytes? body
  let document ← (Json.parse text).toOption
  (readRequest document).toOption

/-- The request to expand a scene that a call makes. -/
def request? (call : Call) : Option ExpandRequest :=
  if route? call.address = some .expand && accepts .expand call.method then requested? call.body
  else none

/-- **The stand-in.** -/
def standIn : Framework Call where
  request? := request?
  path _ := Route.expand.path
  unwritable? := unwritable?
  respond := respond

end SceneReplay.Web
