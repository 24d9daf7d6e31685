import SceneReplay.Number.Numeral
import SceneReplay.Settings

/-!
# The command line

The program is started as `expand FILE` or `inspect FILE`, each with options of
its own. `SceneReplay.CommandLine.parse` reads the arguments.

An option has a long name behind two dashes or a one-letter name behind one. A
value follows as the next argument, after an equals sign behind a long name, or
directly behind a one-letter name. One-letter options can be written together.
Options and the file can come in any order; after `--` everything is a file. Of an
option given twice the last counts.
-/

namespace SceneReplay.CommandLine

/-- The options of the program. -/
inductive Flag where
  /-- Where to write the expanded scene. -/
  | output
  /-- Keep the comments inside definitions. -/
  | capture
  /-- Drop the comments inside definitions. -/
  | noCapture
  /-- The limit on nested replays. -/
  | maxDepth
  /-- Show the definitions. -/
  | stats
  /-- Show where faults come from. -/
  | verbose
  /-- Show the expanded scene. -/
  | showScene
  /-- Explain the program. -/
  | help
deriving DecidableEq, Repr

/-- Whether an option is followed by a value. -/
def Flag.takesValue : Flag → Bool
  | .output => true
  | .maxDepth => true
  | _ => false

/-- The options that a command accepts, by their names. -/
abbrev FlagTable := List (String × Flag)

/-- The options of `expand`. -/
def expandFlags : FlagTable :=
  [("--output", .output), ("-o", .output), ("--capture-records", .capture),
    ("--no-capture-records", .noCapture), ("--max-depth", .maxDepth), ("--stats", .stats),
    ("-s", .stats), ("--verbose", .verbose), ("-v", .verbose), ("--help", .help)]

/-- The options of `inspect`. -/
def inspectFlags : FlagTable :=
  [("--show", .showScene), ("--help", .help)]

/-- What one argument with a dash in front holds: options that are complete, and
one that still wants its value. -/
structure Dashed where
  /-- Options with their values. -/
  complete : List (Flag × Option String)
  /-- An option whose value is the next argument. -/
  pending : Option Flag

/-- Reads the letters of one-letter options. The first that wants a value takes
the rest of the argument, or else the next argument. -/
def readLetters (table : FlagTable) : List Char → Option Dashed
  | [] => some ⟨[], none⟩
  | c :: cs =>
    match table.lookup (String.ofList ['-', c]) with
    | none => none
    | some flag =>
      if flag.takesValue then
        if cs.isEmpty then some ⟨[], some flag⟩
        else some ⟨[(flag, some (String.ofList cs))], none⟩
      else
        (readLetters table cs).map fun d => ⟨(flag, none) :: d.complete, d.pending⟩

/-- Reads an option with a long name, and a value if an equals sign is there. -/
def readLong (table : FlagTable) (arg : List Char) : Option Dashed :=
  let name := String.ofList (arg.takeWhile (· != '='))
  match table.lookup name, arg.dropWhile (· != '=') with
  | none, _ => none
  | some flag, '=' :: value =>
    if flag.takesValue then some ⟨[(flag, some (String.ofList value))], none⟩ else none
  | some flag, _ =>
    if flag.takesValue then some ⟨[], some flag⟩ else some ⟨[(flag, none)], none⟩

/-- Reads an argument with a dash in front. -/
def readDashed (table : FlagTable) (arg : List Char) : Option Dashed :=
  match arg with
  | '-' :: '-' :: _ => readLong table arg
  | _ => readLetters table (arg.drop 1)

/-- Whether an argument is an option: it has a dash in front and more behind. -/
def isDashed : List Char → Bool
  | '-' :: _ :: _ => true
  | _ => false

/-- The options and the other arguments of a command, each in order; nothing if an
option is unknown or lacks its value. -/
def readArgs (table : FlagTable) :
    List String → Option (List (Flag × Option String) × List String)
  | [] => some ([], [])
  | arg :: args =>
    if arg = "--" then some ([], args)
    else if isDashed arg.toList then
      match readDashed table arg.toList with
      | none => none
      | some ⟨complete, none⟩ =>
        (readArgs table args).map fun (flags, files) => (complete ++ flags, files)
      | some ⟨complete, some flag⟩ =>
        match args with
        | [] => none
        | value :: args =>
          (readArgs table args).map fun (flags, files) =>
            (complete ++ (flag, some value) :: flags, files)
    else (readArgs table args).map fun (flags, files) => (flags, arg :: files)

/-- What the program is asked to do. -/
inductive Invocation where
  /-- Expand a scene file. -/
  | expand (file : String) (output : Option String) (capture : Option Bool)
      (limit : Option Int) (stats : Bool)
  /-- List the definitions of a scene file. -/
  | inspect (file : String) (showScene : Bool)
  /-- Explain the program. -/
  | help
  /-- Nothing that it understands. -/
  | misuse
deriving DecidableEq, Repr

/-- The value of the last of some options. -/
def lastOf? (wanted : List Flag) (flags : List (Flag × Option String)) :
    Option (Flag × Option String) :=
  flags.reverse.find? fun f => f.1 ∈ wanted

/-- The limit on nested replays that the options ask for; nothing if it is not
allowed. -/
def limitOf (flags : List (Flag × Option String)) : Option (Option Int) :=
  match lastOf? [.maxDepth] flags with
  | some (_, some value) =>
    match readWhole value with
    | .ok n => if 1 ≤ n && n ≤ greatestLimit then some (some n) else none
    | .error _ => none
  | _ => some none

/-- Whether the options ask for comments to be kept or dropped. -/
def captureOf (flags : List (Flag × Option String)) : Option Bool :=
  (lastOf? [.capture, .noCapture] flags).map fun f => f.1 == .capture

/-- Whether an argument can name a file: it does not hold the character that ends
names. -/
def isPath (arg : String) : Bool := !arg.contains '\x00'

/-- The output file that the options ask for; nothing if it cannot be one. -/
def outputOf (flags : List (Flag × Option String)) : Option (Option String) :=
  let output := (lastOf? [.output] flags).bind Prod.snd
  if output.all isPath then some output else none

/-- An `expand` with the given options and files. -/
def expandInvocation (flags : List (Flag × Option String)) : List String → Invocation
  | [file] =>
    match outputOf flags, limitOf flags with
    | some output, some limit =>
      if isPath file then
        .expand file output (captureOf flags) limit (flags.any (·.1 == .stats))
      else .misuse
    | _, _ => .misuse
  | _ => .misuse

/-- An `inspect` with the given options and files. -/
def inspectInvocation (flags : List (Flag × Option String)) : List String → Invocation
  | [file] => if isPath file then .inspect file (flags.any (·.1 == .showScene)) else .misuse
  | _ => .misuse

/-- A command with the given options, unless it is to be explained only. -/
def commandInvocation (table : FlagTable)
    (make : List (Flag × Option String) → List String → Invocation) (args : List String) :
    Invocation :=
  match readArgs table args with
  | none => .misuse
  | some (flags, files) => if flags.any (·.1 == .help) then .help else make flags files

/-- The options that may stand before the command. Each of them asks for an
explanation instead of work. -/
def leadingFlags : List String := ["--help", "--install-completion", "--show-completion"]

/-- The options before the command: whether there are any, and the arguments from the
command on; nothing if one of them is unknown. -/
def readLeading : List String → Option (Bool × List String)
  | [] => some (false, [])
  | arg :: args =>
    if arg = "--" then some (false, args)
    else if isDashed arg.toList then
      if arg ∈ leadingFlags then (readLeading args).map fun (_, rest) => (true, rest) else none
    else some (false, arg :: args)

/-- What the arguments from the command on ask for. A word that is no command may
still be one of the options before it. -/
def dispatch : List String → Invocation
  | "expand" :: args => commandInvocation expandFlags expandInvocation args
  | "inspect" :: args => commandInvocation inspectFlags inspectInvocation args
  | args =>
    match readLeading args with
    | some (true, _) => .help
    | _ => .misuse

/-- What the arguments of the program ask for. -/
def parse (args : List String) : Invocation :=
  match readLeading args with
  | none => .misuse
  | some (true, _) => .help
  | some (false, rest) => dispatch rest

end SceneReplay.CommandLine
