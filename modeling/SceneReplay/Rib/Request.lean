import SceneReplay.Rib.Lexer
import SceneReplay.Value

/-!
# Requests

A scene file is read as a row of requests. A request is a name and everything up
to the next name (`SceneReplay.Rib.split`). In that body stand its operands and
any number of comments; the comments are taken out in order
(`SceneReplay.Rib.recordsOf`), and the rest is grouped into numbers, texts and
flat arrays (`SceneReplay.Rib.operands`). A bracket that does not fit makes a
*broken* operand, which spoils the request: an array cannot hold another array or
a comment, and it must end before the next name.
-/

namespace SceneReplay.Rib

/-! ### Splitting at names -/

/-- A request as it stands in the file. -/
structure Request where
  /-- Its name. -/
  name : String
  /-- The line of the name. -/
  line : Int
  /-- The tokens up to the next name. -/
  body : List Token
deriving DecidableEq

/-- The tokens before the first name, and the requests from there on. -/
def split : List Token → List Token × List Request
  | [] => ([], [])
  | t :: ts =>
    let (lead, requests) := split ts
    match t.lexeme with
    | .name s => ([], ⟨s, t.line, lead⟩ :: requests)
    | _ => (t :: lead, requests)

@[simp] theorem split_nil : split [] = ([], []) := rfl

/-! ### Comments -/

/-- What a comment is recorded as: its type and its text. -/
structure Record where
  /-- `comment`, or `structure` for a hint. -/
  type : String
  /-- The comment without its mark. -/
  text : Text
deriving DecidableEq, Repr

/-- The record of a comment or hint; other tokens make none. -/
def recordOf? : Lexeme → Option Record
  | .comment s => some ⟨"comment", s⟩
  | .hint s => some ⟨"structure", s⟩
  | _ => none

/-- The records of the comments among some tokens, in order. -/
def recordsOf (ts : List Token) : List Record :=
  ts.filterMap fun t => recordOf? t.lexeme

/-! ### Operands -/

/-- One operand of a request. -/
inductive Operand where
  /-- A number or a text. -/
  | scalar (s : Scalar)
  /-- An array of numbers and texts. -/
  | array (items : List Scalar)
  /-- A bracket that does not fit. -/
  | broken
deriving DecidableEq

/-- The scalar that a token spells, if it does. -/
def scalarOf? : Lexeme → Option Scalar
  | .number n => some (.number n)
  | .text s => some (.text s)
  | _ => none

mutual

/-- The operands that some tokens spell, each with its line. Comments and names
are passed over. -/
def operands : List Token → List (Operand × Int)
  | [] => []
  | t :: ts =>
    match t.lexeme with
    | .number n => (.scalar (.number n), t.line) :: operands ts
    | .text s => (.scalar (.text s), t.line) :: operands ts
    | .opening => arrayOperands t.line [] ts
    | .closing => (.broken, t.line) :: operands ts
    | _ => operands ts

/-- The operands that some tokens spell inside an array that was opened on the
given line and has the given items so far. -/
def arrayOperands (line : Int) (items : List Scalar) : List Token → List (Operand × Int)
  | [] => [(.broken, line)]
  | t :: ts =>
    match t.lexeme with
    | .number n => arrayOperands line (items ++ [.number n]) ts
    | .text s => arrayOperands line (items ++ [.text s]) ts
    | .closing => (.array items, line) :: operands ts
    | .opening => (.broken, line) :: arrayOperands t.line [] ts
    | _ => (.broken, line) :: operands ts

end

/-- The line of the first broken operand, if there is one. -/
def firstBroken? (ops : List (Operand × Int)) : Option Int :=
  (ops.find? fun op => op.1 == .broken).map Prod.snd

namespace Operand

/-- An operand as a value. -/
def toValue : Operand → Value
  | .scalar s => .scalar s
  | .array items => .list (items.map Value.scalar)
  | .broken => .null

end Operand

end SceneReplay.Rib
