import SceneReplay.CommandLine.Console
import SceneReplay.CommandLine.Files
import SceneReplay.CommandLine.Invocation
import SceneReplay.Text.Terminal
import SceneReplay.Text.Utf8

/-!
# Running the program

`SceneReplay.CommandLine.run` is one run of the program, as a function of its
arguments, the environment and the files in the directory that it runs in: what it
prints and shows, which files it writes, and its exit status. The status is `2` if
the program was not used as it should be, `1` if the work failed, and `0`
otherwise; problems inside a scene are shown and are no failure.
-/

namespace SceneReplay.CommandLine

/-! ### Outcomes -/

/-- A failure that ends the run without a word on the console. -/
inductive Escape where
  /-- A fault while expanding. -/
  | fault (f : Fault)
  /-- A path that cannot be used. -/
  | badPath (f : PathFault) (path : String)

/-- The wording of a failure. -/
def Escape.message : Escape → String
  | .fault f => f.message
  | .badPath f path => f.message path

/-- A file that is written. -/
structure Written where
  /-- The path under which it was asked for. -/
  path : String
  /-- Where it is. -/
  location : Location
  /-- What it holds. -/
  text : String

/-- What a run of the program leaves. -/
structure Outcome where
  /-- The exit status. -/
  status : Nat
  /-- What was printed; nothing at all if the run only explained how to use the
  program. -/
  printed : Option String
  /-- What was shown on the console. -/
  shown : List Entry
  /-- The file that was written, if one was. -/
  written : Option Written
  /-- The failure that ended the run, if it was not dealt with. -/
  escaped : Option Escape

namespace Outcome

/-- A run that was not used as it should be. -/
def misuse : Outcome := ⟨2, none, [], none, none⟩

/-- A run that only explained the program. -/
def help : Outcome := ⟨0, none, [], none, none⟩

/-- A run that printed something and ended well. -/
def done (printed : String) (shown : List Entry) (written : Option Written) : Outcome :=
  ⟨0, some printed, shown, written, none⟩

/-- A run that failed, with some words about it. -/
def failed (entry : Entry) : Outcome := ⟨1, some "", [entry], none, none⟩

/-- A run that a failure ended. -/
def escaping (e : Escape) : Outcome := ⟨1, some "", [], none, some e⟩

end Outcome

/-! ### The two commands -/

/-- The text of a file, or what is shown if it cannot be read. -/
def readFile (path : String) (bytes : List UInt8) : Except Entry String :=
  match Text.decodeUtf8 bytes with
  | .ok text => .ok (String.ofList (Text.unifyNewlines text.toList))
  | .error e => .error (unreadableLine (cleanPath path) e.message)

/-- What is shown after a scene was expanded. -/
def afterwards (e : Expanded) (stats : Bool) : List Entry :=
  (if stats then [streamTable e.snapshot] else []) ++ reportPanel e.reports

/-- A scene as it is printed: without control sequences. -/
def printedText (t : Text) : String :=
  String.ofList (Text.stripControls t.display.toList)

/-- Delivers an expanded scene: prints it, or writes it to the output file. -/
def deliver (files : Files) (output : Option String) (e : Expanded) (stats : Bool) : Outcome :=
  match output with
  | none => .done (printedText e.rib) (afterwards e stats) none
  | some path =>
    let path := cleanPath path
    match files.target path with
    | .error f => .escaping (.badPath f path)
    | .ok location =>
      .done "" (savedPanel e.requests path :: afterwards e stats)
        (some ⟨path, location, e.rib.display⟩)

/-- Expands the scene in a file. -/
def runExpand (env : Environment) (files : Files) (file : String) (bytes : List UInt8)
    (output : Option String) (options : ExpandOptions) (stats : Bool) : Outcome :=
  match readFile file bytes with
  | .error entry => .failed entry
  | .ok text =>
    match expand env options text with
    | .error f => .failed (failureLine f.message)
    | .ok e => deliver files output e stats

/-- Lists the definitions of the scene in a file. -/
def runInspect (env : Environment) (file : String) (bytes : List UInt8) (showScene : Bool) :
    Outcome :=
  match readFile file bytes with
  | .error entry => .failed entry
  | .ok text =>
    match expand env ⟨none, none⟩ text with
    | .error f => .escaping (.fault f)
    | .ok e =>
      let entries :=
        inspectionPanel (fileName file) :: streamTable e.snapshot
          :: (unfinishedLine e.snapshot ++ (if showScene then [.listing e.rib.display] else [])
            ++ reportPanel e.reports)
      .done "" entries none

/-- Goes on with the bytes of the input file. If there is no such file, the program was
not used as it should be. -/
def withInput (files : Files) (path : String) (run : List UInt8 → Outcome) : Outcome :=
  match files.follow path with
  | .ok (.file _ bytes) => run bytes
  | _ => .misuse

/-- Carries out what the program is asked to do. -/
def perform (env : Environment) (files : Files) : Invocation → Outcome
  | .misuse => .misuse
  | .help => .help
  | .expand file output capture limit stats =>
    withInput files file fun bytes => runExpand env files file bytes output ⟨capture, limit⟩ stats
  | .inspect file showScene =>
    withInput files file fun bytes => runInspect env file bytes showScene

/-- A run of the program. -/
def run (env : Environment) (files : Files) (args : List String) : Outcome :=
  perform env files (parse args)

end SceneReplay.CommandLine
