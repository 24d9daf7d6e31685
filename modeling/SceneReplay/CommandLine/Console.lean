import SceneReplay.Expansion
import SceneReplay.Text.Markup

/-!
# What the program shows

Apart from the expanded scene itself, the program shows panels, tables and lines
of markup. Here is what they say; how they are laid out is left to the terminal.
-/

namespace SceneReplay.CommandLine

/-- One thing shown on the console. -/
inductive Entry where
  /-- A box with a title around some markup. -/
  | panel (markup : String) (title : Option String)
  /-- A table. -/
  | table (title : String) (columns : List String) (rows : List (List String))
  /-- A listing of a scene. -/
  | listing (text : String)
  /-- A line of markup. -/
  | line (markup : String)
deriving DecidableEq, Repr

/-- The rows of one kind of streams. Only the first stream of a name is ever
replayed; the others are marked. -/
def streamRows (kind : StreamKind) (seen : List Value) : List StreamSummary → List (List String)
  | [] => []
  | s :: ss =>
    let shadowed := seen.any fun name => name.same s.name
    [kind.name, Text.escapeMarkup s.name.plain.display, toString s.length,
      if shadowed then "shadowed" else ""] :: streamRows kind (s.name :: seen) ss

/-- The table of the definitions in a scene. -/
def streamTable (snapshot : Snapshot) : Entry :=
  .table "Cached streams" ["Kind", "Name", "Commands", "Note"]
    (streamRows .archive [] snapshot.archives ++ streamRows .object [] snapshot.objects)

/-- The line of a report. -/
def reportLine (r : Report) : String :=
  Text.escapeMarkup
    ("[" ++ r.severity.name ++ "] " ++ r.code.name ++ ": " ++ r.message.display)

/-- The panel of all reports, if there are any. -/
def reportPanel (reports : List Report) : List Entry :=
  if reports.isEmpty then []
  else
    [.panel (String.intercalate "\n" (reports.map reportLine))
      (some (toString reports.length ++ " problem(s)"))]

/-- The panel that says where the expanded scene went. -/
def savedPanel (requests : Nat) (output : String) : Entry :=
  .panel (toString requests ++ " requests read\nSaved to: " ++ output) (some "Expanded")

/-- The panel at the head of an inspection. -/
def inspectionPanel (fileName : String) : Entry :=
  .panel ("[bold cyan]ristream[/bold cyan]\nInspecting: [u]" ++ fileName ++ "[/u]") none

/-- A scope in words. -/
def scopeWords : Scope → String
  | .idle => "idle"
  | .archive _ _ => "recording archive"
  | .object _ => "defining object"

/-- The line about a definition that the scene does not close. -/
def unfinishedLine (snapshot : Snapshot) : List Entry :=
  match snapshot.recording with
  | none => []
  | some name =>
    [.line ("[yellow]Input ends inside " ++ scopeWords snapshot.scope ++ " \""
      ++ Text.escapeMarkup name.plain.display ++ "\".[/yellow]")]

/-- The line about a file that cannot be read. -/
def unreadableLine (file reason : String) : Entry :=
  .line ("[bold red]Cannot read " ++ file ++ ":[/bold red] " ++ reason)

/-- The line about a scene that cannot be expanded. -/
def failureLine (reason : String) : Entry :=
  .line ("\n[bold red]Expand Error:[/bold red] " ++ reason)

namespace Entry

/-- An entry as plain lines. -/
def plainLines : Entry → List String
  | .panel markup title => title.toList ++ [markup]
  | .table title columns rows =>
    title :: (columns :: rows).map (String.intercalate "\t")
  | .listing text => [text]
  | .line markup => [markup]

end Entry

end SceneReplay.CommandLine
