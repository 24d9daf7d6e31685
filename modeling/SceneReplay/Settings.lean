import SceneReplay.Number.Loose
import SceneReplay.Report
import SceneReplay.Validation

/-!
# Settings

Defaults come from the environment. Four variables are read: the name of the
environment, the level of the log, the limit on nested replays, and whether
comments inside definitions are kept. A variable that is not set has a default; one
that is set must be well-formed, and everything wrong is listed at once
(`SceneReplay.Settings.load`).

The two readers of loosely written data, `SceneReplay.readFlag` for flags and
`SceneReplay.readCount` for integers, also serve requests that arrive from
elsewhere.
-/

namespace SceneReplay

/-! ### Loosely written flags and integers -/

/-- The words for a set flag, in small letters. -/
def trueWords : List String := ["1", "true", "t", "yes", "y", "on"]

/-- The words for a flag that is not set, in small letters. -/
def falseWords : List String := ["0", "false", "f", "no", "n", "off"]

/-- A text as a flag: one of the words for it, in letters of either case. -/
def readFlag (t : Text) : Except Issue.Kind Bool :=
  let word := lowerText t
  if word ∈ trueWords then .ok true
  else if word ∈ falseWords then .ok false
  else .error .unreadableFlag

/-- A text as an integer, which may be loosely written. -/
def readCount (t : Text) : Except Issue.Kind Int :=
  (readWhole t).mapError fun
    | .malformed => .unreadableInteger
    | .tooLong _ => .oversizedInteger

/-! ### The limit on nested replays -/

/-- The greatest limit on nested replays. It is small since each of them takes some of the
machine's call stack. -/
def greatestLimit : Int := 64

/-- Checks that an integer is an allowed limit on nested replays. -/
def checkLimit (n : Int) : Except Issue.Kind Nat :=
  if n < 1 then .error (.tooSmall 1)
  else if greatestLimit < n then .error (.tooLarge greatestLimit)
  else .ok n.toNat

/-! ### The environment -/

/-- The kinds of environment that the program may run in. -/
inductive Mode where
  /-- Development. -/
  | dev
  /-- Tests. -/
  | test
  /-- Production. -/
  | prod
deriving DecidableEq, Repr

/-- All modes. -/
def Mode.all : List Mode := [.dev, .test, .prod]

/-- The name of a mode. -/
def Mode.name : Mode → String
  | .dev => "dev"
  | .test => "test"
  | .prod => "prod"

/-- The settings of a run. -/
structure Settings where
  /-- The kind of environment. -/
  mode : Mode
  /-- The level below which nothing is logged. -/
  logLevel : LogLevel
  /-- How many replays of one filter may be in progress at once. -/
  limit : Nat
  /-- Whether comments inside definitions are kept. -/
  capture : Bool
deriving DecidableEq, Repr

/-- Environment variables: names and values, in the order in which they were
set. -/
abbrev Environment := List (String × String)

namespace Settings

/-- The settings of an empty environment. -/
def default : Settings := ⟨.dev, .info, 64, false⟩

/-- The variable for the kind of environment. -/
def modeVariable : String := "RISTREAM_ENV"

/-- The variable for the level of the log. -/
def logVariable : String := "LOG_LEVEL"

/-- The variable for the limit on nested replays. -/
def limitVariable : String := "RISTREAM_MAX_REPLAY_DEPTH"

/-- The variable for keeping comments. -/
def captureVariable : String := "RISTREAM_CAPTURE_RECORDS"

/-- The value of a variable. Names are compared without regard to case, and of
several values the last one counts. -/
def lookUp? (env : Environment) (name : String) : Option String :=
  let lower (s : String) := s.toList.map Char.toLower
  (env.reverse.find? fun e => lower e.1 == lower name).map Prod.snd

/-- An environment in which the kind of environment is set: if it was not, it is
set last, to development. -/
def withMode (env : Environment) : Environment :=
  if env.any (·.1 == modeVariable) then env else env ++ [(modeVariable, Mode.dev.name)]

/-- Reads a variable, or takes the default if it is not set. -/
def readVariable {α : Type} (env : Environment) (name : String) (default : α)
    (read : String → Except Issue.Kind α) : Except Issue α :=
  match lookUp? env name with
  | none => .ok default
  | some s =>
    match read s with
    | .ok v => .ok v
    | .error kind => .error ⟨kind, [.field name]⟩

/-- Reads one of several named choices. -/
def readChoice {α : Type} (all : List α) (name : α → String) (s : String) :
    Except Issue.Kind α :=
  match all.find? fun a => name a == s with
  | some a => .ok a
  | none => .error (.notOneOf (all.map name))

/-- The issue of a check that failed. -/
def issueOf {α : Type} : Except Issue α → List Issue
  | .ok _ => []
  | .error issue => [issue]

/-- The settings that an environment gives, or everything that is wrong with
them. -/
def load (env : Environment) : Except Invalid Settings :=
  let env := withMode env
  let mode := readVariable env modeVariable default.mode (readChoice Mode.all Mode.name)
  let logLevel :=
    readVariable env logVariable default.logLevel (readChoice LogLevel.all LogLevel.name)
  let limit := readVariable env limitVariable default.limit fun s =>
    readCount s >>= checkLimit
  let capture := readVariable env captureVariable default.capture fun s => readFlag s
  match mode, logLevel, limit, capture with
  | .ok mode, .ok logLevel, .ok limit, .ok capture => .ok ⟨mode, logLevel, limit, capture⟩
  | _, _, _, _ =>
    .error ⟨"Settings", issueOf mode ++ issueOf logLevel ++ issueOf limit ++ issueOf capture⟩

end Settings

end SceneReplay
