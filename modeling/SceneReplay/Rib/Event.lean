import SceneReplay.Report
import SceneReplay.Rib.Arguments
import SceneReplay.Rib.Declarations

/-!
# What a scene file says

Reading a text yields a row of *events* (`SceneReplay.Rib.events`): calls to be
made, comments to be recorded, declarations, and reports of whatever could not be
read. Nothing is called here; a listener takes the events in order and stops at
the first fault, be it its own or one of the text's.

Reports about code points that make no token come first. Then come the requests in
order, each followed by the comments that stand inside it. A request either is
called, after its declaration if it is one, or is reported once and left out; only
the `version` request passes without a trace.
-/

namespace SceneReplay.Rib

/-- One thing that happens when a text is read. -/
inductive Event where
  /-- A problem is reported. -/
  | report (r : Report)
  /-- The type of a token is declared. -/
  | declare (token type : Text)
  /-- A request is called. -/
  | request (c : Command)
  /-- A comment is recorded. -/
  | comment (c : Command)
  /-- Reading stops. -/
  | fault (f : Fault)

/-! ### Problems -/

/-- What can be wrong with a scene file, by lines. -/
inductive Problem where
  /-- Code points that make no token. -/
  | unreadable (t : Trouble)
  /-- A token before the first request. -/
  | stray (l : Lexeme)
  /-- A request that does not exist. -/
  | unknownRequest (name : String)
  /-- An array that is not well-formed. -/
  | malformedArray (name : String)
  /-- Operands that do not fit the request. -/
  | misfit (name : String) (m : Misfit)

/-- A token as it is shown in messages. -/
def Lexeme.literal : Lexeme → String
  | .name s => Text.literal s
  | .number n => n.text
  | .text t => Text.literal t
  | .opening => Text.literal "["
  | .closing => Text.literal "]"
  | .comment t => Text.literal t
  | .hint t => Text.literal t

namespace Problem

/-- The kind of report that a problem makes. -/
def code : Problem → Report.Code
  | .unknownRequest _ => .badToken
  | _ => .malformed

/-- The wording of a problem. -/
def detail : Problem → String
  | .unreadable t => t.detail
  | .stray l => "expected a request, found " ++ l.literal
  | .unknownRequest name => "unknown request \"" ++ name ++ "\""
  | .malformedArray name => name ++ ": malformed array"
  | .misfit name m => name ++ ": " ++ m.message

/-- The report of a problem on the given line. -/
def report (p : Problem) (line : Int) : Report :=
  Report.ofError p.code ("line " ++ toString line ++ ": " ++ p.detail : String)

end Problem

/-! ### Events of a request -/

/-- The call that records a comment. -/
def Record.command (r : Record) : Command :=
  ⟨"ArchiveRecord", [.text r.type, .text r.text], none⟩

/-- The declaration that a call makes, if it makes one. -/
def declarationOf? (c : Command) : Option (Text × Text) :=
  match c.proc, c.args with
  | "Declare", [.text token, .text type] => some (token, type)
  | _, _ => none

/-- What a request by itself leads to: a call with its declaration, one report,
nothing at all for `version`, or a fault. -/
def requestEvents (d : Declarations) (r : Request) : List Event :=
  if r.name = "version" then []
  else
    match Procedure.find? r.name with
    | none => [.report ((Problem.unknownRequest r.name).report r.line)]
    | some p =>
      let ops := operands r.body
      match firstBroken? ops with
      | some line => [.report ((Problem.malformedArray r.name).report line)]
      | none =>
        match readCall d.typeOf p (ops.map Prod.fst) with
        | .ok c =>
          match declarationOf? c with
          | some (token, type) => [.declare token type, .request c]
          | none => [.request c]
        | .error (.misfit m) => [.report ((Problem.misfit r.name m).report r.line)]
        | .error .tooLarge => [.fault .integerTooLarge]

/-- The declarations after some events. -/
def declaredBy (d : Declarations) (es : List Event) : Declarations :=
  es.foldl (fun d e =>
    match e with
    | .declare token type => d.declare token type
    | _ => d) d

/-- The comments of a request's body, as events. -/
def commentEvents (ts : List Token) : List Event :=
  (recordsOf ts).map fun r => .comment r.command

/-- The events of requests, each followed by the comments inside it. Declarations
hold from the next request on. -/
def requestsEvents (d : Declarations) : List Request → List Event
  | [] => []
  | r :: rs =>
    let es := requestEvents d r
    es ++ (commentEvents r.body ++ requestsEvents (declaredBy d es) rs)

/-! ### Events of a text -/

/-- What the tokens before the first request lead to: comments are recorded, all
else is reported. -/
def leadEvent (t : Token) : Event :=
  match recordOf? t.lexeme with
  | some r => .comment r.command
  | none => .report ((Problem.stray t.lexeme).report t.line)

/-- What tokens lead to. -/
def tokenEvents (d : Declarations) (ts : List Token) : List Event :=
  let (lead, requests) := split ts
  lead.map leadEvent ++ requestsEvents d requests

/-- What the troubles of a text lead to: reports, or a fault for an integer with
too many digits. -/
def troubleEvents (steps : List Lexed) : List Event :=
  steps.filterMap fun
    | .token _ => none
    | .trouble (.tooManyDigits n) _ _ => some (.fault (.tooManyDigits n))
    | .trouble t line _ => some (.report ((Problem.unreadable t).report line))

/-- What a text says, given the declarations that hold at its start. -/
def events (d : Declarations) (text : Text) : List Event :=
  let steps := lex 1 text
  troubleEvents steps ++ tokenEvents d (tokensOf steps)

end SceneReplay.Rib
