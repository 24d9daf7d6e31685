import SceneReplay.Expansion
import SceneReplay.Service.Document

/-!
# The service

The service answers two requests: `POST /expand` expands a scene, `GET /health` says that the
service runs. What is here is all that it decides itself: what each of the two gives for a request
whose fields have been checked (`SceneReplay.Service.expandScene`,
`SceneReplay.Service.healthReport`), and how a failure is answered
(`SceneReplay.Service.badRequest`, `SceneReplay.Service.internalError`).

These make an application (`SceneReplay.Service.App`), which is handed to a web framework
(`SceneReplay.Service.Framework`). The framework finds the route of a request, reads its body and
checks the fields, writes the results and passes failures on.
-/

namespace SceneReplay

/-- A request to expand a scene, with its fields checked. -/
structure ExpandRequest where
  /-- The scene. -/
  rib : Text
  /-- How to expand it. -/
  options : ExpandOptions

namespace Service

/-- The version of the program. -/
def version : String := "0.3.0"

/-! ### Routes -/

/-- What the service can be asked for. -/
inductive Route where
  /-- To expand a scene. -/
  | expand
  /-- How it is. -/
  | health
deriving DecidableEq, Repr

namespace Route

/-- The path of a route. -/
def path : Route → String
  | .expand => "/expand"
  | .health => "/health"

/-- The method that a route answers. -/
def method : Route → String
  | .expand => "POST"
  | .health => "GET"

/-- All routes. -/
def all : List Route := [.expand, .health]

end Route

/-! ### Results -/

/-- A problem of a scene. -/
structure ErrorPayload where
  /-- What kind of problem it is. -/
  code : String
  /-- How serious it is. -/
  severity : String
  /-- What exactly happened. -/
  message : Text

/-- A report as it is sent. -/
def ErrorPayload.ofReport (r : Report) : ErrorPayload :=
  ⟨r.code.name, r.severity.name, r.message⟩

/-- A definition of a scene. -/
structure StreamInfo where
  /-- The name. -/
  name : Text
  /-- How many commands it holds. -/
  commands : Nat

/-- A definition as it is sent. Its name must be a text. -/
def StreamInfo.ofSummary (s : StreamSummary) : Except Fault StreamInfo :=
  match s.name with
  | .text name => .ok ⟨name, s.length⟩
  | _ => .error (.invalid ⟨"StreamInfo", [⟨.notText, [.field "name"]⟩]⟩)

/-- What a request to expand a scene results in. -/
structure ExpandResponse where
  /-- The expanded scene file. -/
  rib : Text
  /-- How many requests were read. -/
  requests : Nat
  /-- The problems that were met, in order. -/
  errors : List ErrorPayload
  /-- The archives, in the order of definition. -/
  archives : List StreamInfo
  /-- The objects, in the order of definition. -/
  objects : List StreamInfo

/-- An expanded scene as it is sent. -/
def ExpandResponse.ofExpanded (x : Expanded) : Except Fault ExpandResponse := do
  let archives ← x.snapshot.archives.mapM StreamInfo.ofSummary
  let objects ← x.snapshot.objects.mapM StreamInfo.ofSummary
  .ok ⟨x.rib, x.requests, x.reports.map ErrorPayload.ofReport, archives, objects⟩

/-- The result of a request to expand a scene. -/
def expandScene (settings : Except Invalid Settings) (request : ExpandRequest) :
    Except Fault ExpandResponse := do
  let settings ← settings.mapError Fault.invalid
  let expanded ← expandIn settings request.options request.rib
  ExpandResponse.ofExpanded expanded

/-! ### Results as documents -/

/-- A problem as a document. -/
def ErrorPayload.document (e : ErrorPayload) : Json :=
  .object [("code", .text e.code), ("severity", .text e.severity), ("message", .text e.message)]

/-- A definition as a document. -/
def StreamInfo.document (s : StreamInfo) : Json :=
  .object [("name", .text s.name), ("commands", .number (.int s.commands))]

namespace ExpandResponse

/-- A result as a document. -/
def document (r : ExpandResponse) : Json :=
  .object [("rib", .text r.rib), ("requests", .number (.int r.requests)),
    ("errors", .array (r.errors.map ErrorPayload.document)),
    ("archives", .array (r.archives.map StreamInfo.document)),
    ("objects", .array (r.objects.map StreamInfo.document))]

/-- The texts of a result that come from the scene, in their order. -/
def texts (r : ExpandResponse) : List Text :=
  r.rib :: (r.errors.map ErrorPayload.message ++ r.archives.map StreamInfo.name
    ++ r.objects.map StreamInfo.name)

end ExpandResponse

/-- What is said of a service that runs. -/
def healthReport (settings : Except Invalid Settings) : Except Fault Json := do
  let settings ← settings.mapError Fault.invalid
  .ok (.object [("status", .text "ok"), ("environment", .text settings.mode.name),
    ("version", .text version)])

/-! ### Failures -/

/-- What keeps a request from its result. -/
structure Failure where
  /-- Whether it lies in a value that was given. -/
  isBadValue : Bool
  /-- Its wording. -/
  message : String
deriving DecidableEq, Repr

/-- A fault of the program. -/
def Failure.ofFault (f : Fault) : Failure := ⟨f.isBadValue, f.message⟩

/-- An answer. -/
structure Response where
  /-- The status code. -/
  status : Nat
  /-- The contents, if there are any. -/
  body : Option Json

/-- The answer to a failure that lies in a value. -/
def badRequest (f : Failure) : Response :=
  ⟨400, some (.object [("error", .text "Bad Request"), ("detail", .text f.message)])⟩

/-- The answer to any other failure of a request for the given path. -/
def internalError (path : String) (f : Failure) : Response :=
  ⟨500, some (.object [("error", .text "Internal Server Error"), ("detail", .text f.message),
    ("path", .text path)])⟩

/-! ### The application -/

/-- What a framework is given: what is done for each route, and for each of the two kinds of
failures. -/
structure App where
  /-- What a request to expand a scene results in. -/
  expand : ExpandRequest → Except Failure ExpandResponse
  /-- The status code that such a result is sent with. -/
  status : Nat
  /-- What a question for the state of the service results in. -/
  health : Except Failure Json
  /-- The answer to a failure that lies in a value. -/
  onBadValue : Failure → Response
  /-- The answer to any other failure of a request for the given path. -/
  onFailure : String → Failure → Response

/-- **The application**, as it is with the settings that were loaded. -/
def app (settings : Except Invalid Settings) : App where
  expand request := (expandScene settings request).mapError Failure.ofFault
  status := 200
  health := (healthReport settings).mapError Failure.ofFault
  onBadValue := badRequest
  onFailure := internalError

end Service

end SceneReplay
