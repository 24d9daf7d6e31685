import SceneReplay.Command

/-!
# Commands as lines of a scene file

`SceneReplay.Rib.commandText` writes a command as one request. Numbers are
written shortest: a whole double of moderate size without its point. Texts stand
between quotation marks, with the quotation mark, the backslash and the line feed
escaped (`SceneReplay.Rib.quoted`). Absent arguments are left out. A recorded
comment is written as the comment it was, and a procedural primitive with its
arguments in the order of the file format, name first.

`SceneReplay.Rib.Writer` collects lines and indents them by the scopes that are
open.
-/

namespace SceneReplay.Rib

/-! ### Values -/

/-- How a code point is written inside a quoted text. -/
def quotedChar : CodePoint → Text
  | .char '\\' => ['\\', '\\']
  | .char '"' => ['\\', '"']
  | .char '\n' => ['\\', 'n']
  | c => [c]

/-- A text between quotation marks. -/
def quoted (t : Text) : Text :=
  '"' :: (t.flatMap quotedChar ++ [.char '"'])

/-- Whole doubles below this bound are written like integers. -/
def plainWholeBound : Nat := Nat.pow 10 15

/-- A number as it is written in a scene file. -/
def numberText : Number → String
  | .int n => toString n
  | .float x =>
    match (if x.isWhole then x.truncate? else none) with
    | some n => if n.natAbs < plainWholeBound then toString n else x.text
    | none => x.text

/-- A scalar as it is written in a scene file. -/
def scalarText : Scalar → Text
  | .number n => numberText n
  | .text t => quoted t

/-- Texts in brackets, one space apart. -/
def bracketed (ts : List Text) : Text :=
  '[' :: (List.intercalate " " ts ++ [.char ']'])

mutual

/-- A value as it is written in a scene file. An absent value leaves no trace,
even among others. -/
def valueText : Value → Text
  | .null => []
  | .flag b => if b then "1" else "0"
  | .scalar s => scalarText s
  | .list items => bracketed (valueTexts items)
  | .tuple items => bracketed (valueTexts items)
  | .callback _ name => quoted name
  | v => quoted v.plain

/-- The values of a list as they are written in a scene file. -/
def valueTexts : List Value → List Text
  | [] => []
  | v :: vs => valueText v :: valueTexts vs

end

/-! ### Commands -/

/-- A parameter as it is written: its token, then its values as an array. -/
def paramTexts (p : Param) : List Text :=
  [quoted p.token, bracketed (p.values.map scalarText)]

/-- The parameters of a command as they are written. -/
def paramListTexts (params : Option ParamList) : List Text :=
  (params.map (·.items.flatMap paramTexts)).getD []

/-- Whether a value is there at all. -/
def isPresent : Value → Bool
  | .null => false
  | _ => true

/-- The mark in front of a recorded comment of the given type. -/
def recordMark : Value → Text
  | .text type => if type = "comment" then "#" else if type = "structure" then "##" else []
  | _ => []

/-- The fault of a command whose form has a fixed number of arguments, when it
has another number. -/
def wrongCount (expected given : Nat) : Fault :=
  if given < expected then .tooFewArguments expected given else .tooManyArguments expected

/-- A command as one line of a scene file. -/
def commandText (c : Command) : Except Fault Text :=
  if c.proc = "ArchiveRecord" then
    match c.args with
    | [type, text] => .ok (recordMark type ++ text.plain)
    | args => .error (wrongCount 2 args.length)
  else if c.proc = "Procedural" then
    match c.args with
    | [data, bound, refine, _] =>
      .ok (List.intercalate " "
        (c.proc :: valueText refine :: valueText data :: valueText bound
          :: paramListTexts c.params))
    | args => .error (wrongCount 4 args.length)
  else
    .ok (List.intercalate " "
      (c.proc :: (valueTexts (c.args.filter isPresent) ++ paramListTexts c.params)))

/-! ### A document -/

/-- The requests that open a scope. -/
def openers : List String :=
  ["FrameBegin", "WorldBegin", "AttributeBegin", "TransformBegin", "SolidBegin", "MotionBegin",
    "ObjectBegin", "ArchiveBegin", "ResourceBegin", "IfBegin"]

/-- The requests that close a scope. -/
def closers : List String :=
  ["FrameEnd", "WorldEnd", "AttributeEnd", "TransformEnd", "SolidEnd", "MotionEnd", "ObjectEnd",
    "ArchiveEnd", "ResourceEnd", "IfEnd"]

/-- A scene file being written. -/
structure Writer where
  /-- What one level of indentation is. -/
  indent : Text
  /-- How many scopes are open. -/
  level : Nat
  /-- The lines so far. -/
  lines : Array Text

namespace Writer

/-- A file without lines. -/
def empty (indent : Text) : Writer := ⟨indent, 0, #[]⟩

/-- The indentation of files unless another is asked for. -/
def defaultIndent : Text := "  "

/-- A text that many times over. -/
def repeated (t : Text) : Nat → Text
  | 0 => []
  | n + 1 => t ++ repeated t n

/-- Writes a command. A closing request stands one level further out than what it
closes; where nothing is open it stands at the left. -/
def write (w : Writer) (c : Command) : Writer × Option Fault :=
  let level := if c.proc ∈ closers then w.level - 1 else w.level
  match commandText c with
  | .error f => (⟨w.indent, level, w.lines⟩, some f)
  | .ok line =>
    let after := if c.proc ∈ openers then level + 1 else level
    (⟨w.indent, after, w.lines.push (repeated w.indent level ++ line)⟩, none)

/-- The file so far: every line ends in a line feed. -/
def text (w : Writer) : Text :=
  w.lines.toList.flatMap fun line => line ++ [.char '\n']

end Writer

end SceneReplay.Rib
