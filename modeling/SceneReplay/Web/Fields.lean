import SceneReplay.Service.App
import SceneReplay.Web.Printer

/-!
# Fields of a request

The body of a request to expand a scene is a document with the scene and, if
wanted, the two options. It is checked field by field
(`SceneReplay.Web.readRequest`); members that are not known are passed over.
Numbers, flags and texts are taken for one another where nothing is lost: `5.0` and
`"5"` are integers, `1` and `"yes"` are flags.
-/

namespace SceneReplay.Web

/-- Something wrong with a request. -/
structure Finding where
  /-- What is wrong, and where. -/
  issue : Issue
  /-- The part of the request that it was found in. -/
  input : Json

namespace Finding

/-- A step towards a place, as a document. -/
def stepDocument : Step → Json
  | .field name => .text name
  | .item index => .number (.int index)

/-- The bound that an issue is about, as a member of a document. -/
def boundMembers : Issue.Kind → List (Text × Json)
  | .tooSmall least => [("ctx", .object [("ge", .number (.int least))])]
  | .tooLarge greatest => [("ctx", .object [("le", .number (.int greatest))])]
  | _ => []

/-- A finding as a document. -/
def document (f : Finding) : Json :=
  let common : List (Text × Json) :=
    [("type", .text f.issue.kind.code), ("loc", .array (f.issue.place.map stepDocument)),
      ("msg", .text f.issue.kind.message), ("input", f.input.tidy)]
  .object (common ++ boundMembers f.issue.kind)

/-- All findings as one document. -/
def report (found : List Finding) : Json :=
  .object [("detail", .array (found.map document))]

end Finding

/-! ### Reading the fields -/

/-- The bound of integers of moderate size: those from its negative on and below it.
Doubles of this magnitude and above are not taken for integers. -/
def wholeBound : Nat := Nat.pow 2 63

/-- A double as an integer: it must be finite, whole and of moderate size. -/
def wholeOfDouble (x : Binary64) : Except Issue.Kind Int :=
  match x.truncate? with
  | none => .error .notFinite
  | some n =>
    if !x.isWhole then .error .fractional
    else if n.natAbs < wholeBound then .ok n
    else .error .oversizedInteger

/-- A text that is read as something else must consist of characters alone. -/
def readCharacters {α : Type} (t : Text) (read : Text → Except Issue.Kind α) :
    Except Issue.Kind α :=
  if t.any CodePoint.isSurrogate then .error .brokenText else read t

/-- A document as an integer. -/
def readInt : Json → Except Issue.Kind Int
  | .flag b => .ok b.toNat
  | .number (.int n) => .ok n
  | .number (.float x) => wholeOfDouble x
  | .text t => readCharacters t readCount
  | _ => .error .notInteger

/-- An integer as a flag. -/
def flagOfInt (n : Int) : Except Issue.Kind Bool :=
  if n = 0 then .ok false
  else if n = 1 then .ok true
  else .error .unreadableFlag

/-- A document as a flag. -/
def readBool : Json → Except Issue.Kind Bool
  | .flag b => .ok b
  | .text t => readCharacters t readFlag
  | .number (.int n) =>
    if -(wholeBound : Int) ≤ n && n < wholeBound then flagOfInt n else .error .notFlag
  | .number (.float x) =>
    match wholeOfDouble x with
    | .ok n => flagOfInt n
    | .error _ => .error .notFlag
  | _ => .error .notFlag

/-- A document as a text, which may hold lone surrogates. -/
def readText : Json → Except Issue.Kind Text
  | .text t => .ok t
  | _ => .error .notText

/-- The place of a member in the body. -/
def placeOf (name : String) : List Step := [.field "body", .field name]

/-- Reads the member of the given name, which must be there. -/
def required {α : Type} (members : List (Text × Json)) (name : String)
    (read : Json → Except Issue.Kind α) : Except Finding α :=
  match Json.member? members name with
  | none => .error ⟨⟨.missing, placeOf name⟩, .object members⟩
  | some v => (read v).mapError fun kind => ⟨⟨kind, placeOf name⟩, v⟩

/-- Reads the member of the given name, which may be missing or absent. -/
def optional {α : Type} (members : List (Text × Json)) (name : String)
    (read : Json → Except Issue.Kind α) : Except Finding (Option α) :=
  match Json.member? members name with
  | none => .ok none
  | some .null => .ok none
  | some v => ((read v).map some).mapError fun kind => ⟨⟨kind, placeOf name⟩, v⟩

/-- The finding of a check that failed. -/
def findingOf {α : Type} : Except Finding α → List Finding
  | .ok _ => []
  | .error found => [found]

/-- Reads a request from a document, or lists everything that is wrong with
it. -/
def readRequest : Json → Except (List Finding) ExpandRequest
  | .object members =>
    let rib := required members "rib" readText
    let capture := optional members "capture_archive_records" readBool
    let limit := optional members "max_replay_depth" fun v => do
      let n ← readInt v
      let _ ← checkLimit n
      .ok n
    match rib, capture, limit with
    | .ok rib, .ok capture, .ok limit => .ok ⟨rib, ⟨capture, limit⟩⟩
    | _, _, _ => .error (findingOf rib ++ findingOf capture ++ findingOf limit)
  | v => .error [⟨⟨.notRecord, [.field "body"]⟩, v⟩]

end SceneReplay.Web
