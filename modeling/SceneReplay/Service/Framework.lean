import SceneReplay.Service.App

/-!
# Web frameworks

A web framework stands between the service and those who call it. It is not a part of the service,
so it is a parameter here (`SceneReplay.Service.Framework`), and all that the service relies on is
what is documented of it (`SceneReplay.Service.Framework.Documented`).

Nothing is said of what calls look like, of how a body is read or how deep a document in it may be
nested: which calls make a request to expand a scene is for the framework to say. The same goes for
the results that cannot be written; but one whose texts consist of characters always can.
-/

namespace SceneReplay.Service

/-- **A web framework**, as far as it concerns requests to expand a scene. -/
structure Framework (Call : Type) where
  /-- The request that a call makes: the call goes to the route of these requests, and its body is
  a document whose members pass the checks of the fields. -/
  request? : Call → Option ExpandRequest
  /-- The path that a call names. -/
  path : Call → String
  /-- What keeps a result from being written, if anything does. -/
  unwritable? : ExpandResponse → Option Failure
  /-- The answer to a call, for an application. -/
  respond : App → Call → Response

namespace Framework

variable {Call : Type}

/-- The answer to a failure: the one for its kind. -/
def failed (fw : Framework Call) (app : App) (call : Call) (f : Failure) : Response :=
  if f.isBadValue then app.onBadValue f else app.onFailure (fw.path call) f

/-- **What is documented of a web framework.** -/
structure Documented (fw : Framework Call) : Prop where
  /-- A limit that passes the checks is in the declared range. -/
  limit {call : Call} {request : ExpandRequest} (hrequest : fw.request? call = some request) :
    ∀ n ∈ request.options.limit, 1 ≤ n ∧ n ≤ greatestLimit
  /-- A result that can be written is sent as a document, with the status of the route. -/
  returned {app : App} {call : Call} {request : ExpandRequest} {result : ExpandResponse}
    (hrequest : fw.request? call = some request) (hresult : app.expand request = .ok result)
    (hwritable : fw.unwritable? result = none) :
    fw.respond app call = ⟨app.status, some result.document⟩
  /-- A result that cannot be written is a failure. -/
  unwritten {app : App} {call : Call} {request : ExpandRequest} {result : ExpandResponse}
    {f : Failure} (hrequest : fw.request? call = some request)
    (hresult : app.expand request = .ok result) (hunwritable : fw.unwritable? result = some f) :
    fw.respond app call = fw.failed app call f
  /-- A failure is answered by what the application has for its kind. -/
  raised {app : App} {call : Call} {request : ExpandRequest} {f : Failure}
    (hrequest : fw.request? call = some request) (hfailure : app.expand request = .error f) :
    fw.respond app call = fw.failed app call f
  /-- Texts of characters can be written. -/
  writable {result : ExpandResponse}
    (hcharacters : ∀ text ∈ result.texts, ∀ c ∈ text, c.isSurrogate = false) :
    fw.unwritable? result = none

end Framework

end SceneReplay.Service
