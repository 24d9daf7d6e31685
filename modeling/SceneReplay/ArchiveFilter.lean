import SceneReplay.Report
import SceneReplay.Settings
import SceneReplay.Stream

/-!
# The archive filter

A scene may define *inline archives* and *objects*: everything between the
opening and the closing call of a definition is recorded instead of being passed
on, and a later reference replays the recording. `SceneReplay.ArchiveFilter` is
the state of the stage that does this, and `SceneReplay.ArchiveFilter.receive`
says how it answers one command (`SceneReplay.Reaction`). A replay is only asked
for here; the chain carries it out, from its head, so that every stage sees what
is replayed as if it had been written in place.

## The scopes

* While *idle*, commands pass; definitions open a scope and references are
  replayed.
* While *recording an archive*, everything is recorded. Archives defined inside
  are recorded like the rest; only their nesting is counted, so that the recording
  ends with the closing call that fits its opening one.
* While *recording an object*, everything is recorded until the first call that
  closes an object.

A closing call without an open scope is dropped without a word. Comments inside
a definition are recorded only if the filter was told to.
-/

namespace SceneReplay

/-! ### What a command means to the filter -/

/-- The role of a command: the six calls about definitions, recorded comments,
and everything else. -/
inductive Role where
  /-- Opens the definition of an archive. -/
  | archiveBegin
  /-- Closes the definition of an archive. -/
  | archiveEnd
  /-- Refers to an archive. -/
  | archiveReference
  /-- Opens the definition of an object. -/
  | objectBegin
  /-- Closes the definition of an object. -/
  | objectEnd
  /-- Refers to an object. -/
  | objectReference
  /-- Is a comment. -/
  | comment
  /-- Is any other call. -/
  | uniform
deriving DecidableEq, Repr

/-- The role of the procedure of the given name. -/
def Role.ofName (name : String) : Role :=
  if name = "ArchiveBegin" then .archiveBegin
  else if name = "ArchiveEnd" then .archiveEnd
  else if name = "ReadArchive" then .archiveReference
  else if name = "ObjectBegin" then .objectBegin
  else if name = "ObjectEnd" then .objectEnd
  else if name = "ObjectInstance" then .objectReference
  else if name = "ArchiveRecord" then .comment
  else .uniform

namespace Command

/-- The role of a command. -/
def role (c : Command) : Role := Role.ofName c.proc

/-- The name that a definition or reference is about: its first argument. -/
def subject (c : Command) : Value := c.args.headD .null

end Command

/-! ### The state of the filter -/

/-- The two kinds of streams. -/
inductive StreamKind where
  /-- An inline archive. -/
  | archive
  /-- An object. -/
  | object
deriving DecidableEq, Repr

/-- The name of a kind of stream. -/
def StreamKind.name : StreamKind → String
  | .archive => "archive"
  | .object => "object"

/-- What the filter is doing with the commands that it receives. -/
inductive Scope where
  /-- Passing them on. -/
  | idle
  /-- Recording them in the archive at a position, with a number of archives
  opened inside and not yet closed. -/
  | archive (index nesting : Nat)
  /-- Recording them in the object at a position. -/
  | object (index : Nat)
deriving DecidableEq, Repr

namespace Scope

/-- The name of a scope. -/
def name : Scope → String
  | .idle => "idle"
  | .archive _ _ => "recording_archive"
  | .object _ => "defining_object"

/-- How many archives were opened inside the one being recorded and not yet
closed. -/
def nesting : Scope → Nat
  | .archive _ n => n
  | _ => 0

end Scope

/-- The state of the stage that records and replays definitions. -/
structure ArchiveFilter where
  /-- How many of its replays may be in progress at once. -/
  limit : Nat
  /-- Whether comments inside definitions are recorded. -/
  capture : Bool
  /-- The archives defined so far. -/
  archives : Registry
  /-- The objects defined so far. -/
  objects : Registry
  /-- What is being recorded. -/
  scope : Scope
  /-- How many of its replays are in progress. -/
  depth : Nat

namespace ArchiveFilter

/-- A filter before its first command. -/
def fresh (limit : Nat) (capture : Bool) : ArchiveFilter :=
  ⟨limit, capture, .empty, .empty, .idle, 0⟩

/-- The streams of one kind. -/
def registry (f : ArchiveFilter) : StreamKind → Registry
  | .archive => f.archives
  | .object => f.objects

/-- The filter with other streams of one kind. -/
def withRegistry (f : ArchiveFilter) (kind : StreamKind) (r : Registry) : ArchiveFilter :=
  match kind with
  | .archive => { f with archives := r }
  | .object => { f with objects := r }

/-- The stream that is being recorded. -/
def active? (f : ArchiveFilter) : Option Stream :=
  match f.scope with
  | .idle => none
  | .archive i _ => f.archives.get? i
  | .object i => f.objects.get? i

end ArchiveFilter

/-! ### How the filter answers -/

/-- What a stage does with a command that it received. -/
inductive Reaction where
  /-- The command goes to the next stage. -/
  | pass
  /-- The command ends here. -/
  | hold
  /-- The command ends here, with a report. -/
  | report (r : Report)
  /-- The command stands for these, to be issued at the head of the chain. -/
  | replay (content : List Command)
  /-- The command cannot be dealt with. -/
  | fault (f : Fault)

namespace ArchiveFilter

/-- Records a command in a stream of the given kind; the scope becomes `next` if
that was possible. -/
def record (f : ArchiveFilter) (kind : StreamKind) (index : Nat) (next : Scope) (c : Command) :
    ArchiveFilter × Reaction :=
  match (f.registry kind).append index c with
  | .ok r => ({ f.withRegistry kind r with scope := next }, .hold)
  | .error fault => (f, .fault fault)

/-- Starts a definition. -/
def openStream (f : ArchiveFilter) (kind : StreamKind) (name : Value) : ArchiveFilter :=
  let r := f.registry kind
  let scope :=
    match kind with
    | .archive => Scope.archive r.streams.length 0
    | .object => Scope.object r.streams.length
  { f.withRegistry kind (r.create name) with scope := scope }

/-- Ends a definition. -/
def closeStream (f : ArchiveFilter) (kind : StreamKind) (index : Nat) : ArchiveFilter :=
  { f.withRegistry kind ((f.registry kind).close index) with scope := .idle }

/-- The report of a reference to an object that is not defined. -/
def badHandle (name : Value) : Report :=
  Report.ofError .badHandle ("Bad object name \"" ++ name.plain ++ "\"")

/-- The report of a replay that would be nested too deeply. -/
def tooDeep (limit : Nat) (kind : StreamKind) (name : Value) : Report :=
  Report.ofError .nesting
    ("Replay depth " ++ toString limit ++ " exceeded expanding " ++ kind.name ++ " \""
      ++ name.plain ++ "\"")

/-- Asks for the replay of a stream, unless too many are in progress. -/
def replay (f : ArchiveFilter) (kind : StreamKind) (s : Stream) : Reaction :=
  if f.limit ≤ f.depth then .report (tooDeep f.limit kind s.name)
  else .replay s.commands

/-- How an idle filter answers a command. -/
def receiveIdle (f : ArchiveFilter) (c : Command) : ArchiveFilter × Reaction :=
  match c.role with
  | .archiveBegin => (f.openStream .archive c.subject, .hold)
  | .objectBegin => (f.openStream .object c.subject, .hold)
  | .archiveEnd => (f, .hold)
  | .objectEnd => (f, .hold)
  | .archiveReference =>
    match f.archives.find? c.subject with
    | some s => (f, f.replay .archive s)
    | none => (f, .pass)
  | .objectReference =>
    match f.objects.find? c.subject with
    | some s => (f, f.replay .object s)
    | none => (f, .report (badHandle c.subject))
  | .comment => (f, .pass)
  | .uniform => (f, .pass)

/-- How a filter that records an archive answers a command. -/
def receiveInArchive (f : ArchiveFilter) (index nesting : Nat) (c : Command) :
    ArchiveFilter × Reaction :=
  match c.role with
  | .archiveBegin => f.record .archive index (.archive index (nesting + 1)) c
  | .archiveEnd =>
    match nesting with
    | 0 => (f.closeStream .archive index, .hold)
    | n + 1 => f.record .archive index (.archive index n) c
  | .comment =>
    if f.capture then f.record .archive index (.archive index nesting) c else (f, .hold)
  | _ => f.record .archive index (.archive index nesting) c

/-- How a filter that records an object answers a command. -/
def receiveInObject (f : ArchiveFilter) (index : Nat) (c : Command) :
    ArchiveFilter × Reaction :=
  match c.role with
  | .objectEnd => (f.closeStream .object index, .hold)
  | .comment => if f.capture then f.record .object index (.object index) c else (f, .hold)
  | _ => f.record .object index (.object index) c

/-- How the filter answers a command. -/
def receive (f : ArchiveFilter) (c : Command) : ArchiveFilter × Reaction :=
  match f.scope with
  | .idle => f.receiveIdle c
  | .archive index nesting => f.receiveInArchive index nesting c
  | .object index => f.receiveInObject index c

/-! ### Making a filter -/

/-- A scalar as a limit on nested replays: an integer, a double with its fraction
cut off, or a text that spells an integer. -/
def limitOfScalar : Scalar → Except Fault Int
  | .number (.int n) => .ok n
  | .number (.float .nan) => .error .nanAsInteger
  | .number (.float (.infinite _)) => .error .infinityAsInteger
  | .number (.float (.finite s r)) =>
    .ok (((Binary64.finite s r).truncate?).getD 0)
  | .text t =>
    match readInteger t with
    | .ok n => .ok n
    | .error .malformed => .error (.notAnInteger t)
    | .error (.tooLong digits) => .error (.tooManyDigits digits)

/-- Makes a filter. What is not asked for comes from the settings. -/
def make (settings : Settings) (capture : Option Bool) (limit : Option Int) :
    Except Fault ArchiveFilter :=
  let limit := limit.getD settings.limit
  if limit < 1 || greatestLimit < limit then
    .error (.limitOutOfRange limit greatestLimit)
  else .ok (fresh limit.toNat (capture.getD settings.capture))

/-- The first value of a parameter. -/
def option? (params : Option ParamList) (name : String) : Option Scalar :=
  params.bind fun ps => (ps.get? name).bind fun p => p.values.head?

/-- Makes a filter from parameters: `capturerecords` says whether to keep
comments, `maxreplaydepth` gives the limit on nested replays. -/
def ofParams (settings : Settings) (params : Option ParamList) : Except Fault ArchiveFilter := do
  let capture := (option? params "capturerecords").map Scalar.isTruthy
  let limit ← match option? params "maxreplaydepth" with
    | none => .ok none
    | some s => (limitOfScalar s).map some
  make settings capture limit

end ArchiveFilter

end SceneReplay
