import SceneReplay.Keyed
import SceneReplay.Web.Reader
import SceneReplay.Text.Literal

/-!
# Documents as texts

A document is written without blanks between its parts
(`SceneReplay.Json.compact`). Texts are written as they are, but for the quotation mark,
the backslash and control characters. A number that is not finite cannot be written, so
documents are searched for these first (`SceneReplay.Json.hasNonFinite`).

What an answer shows of a request is tidied before
(`SceneReplay.Json.tidy`): every name stands once in an object, and members whose names
are reserved are left out.
-/

namespace SceneReplay.Json

/-! ### Writing -/

/-- How a code point is written inside a text. -/
def escaped : CodePoint → Text
  | .char '"' => "\\\""
  | .char '\\' => "\\\\"
  | .char '\n' => "\\n"
  | .char '\r' => "\\r"
  | .char '\t' => "\\t"
  | .char '\x08' => "\\b"
  | .char '\x0C' => "\\f"
  | c => if c.code < 0x20 then Text.ofChars ('\\' :: 'u' :: Text.hexDigits 4 c.code) else [c]

/-- A text between quotation marks. -/
def quoted (t : Text) : Text :=
  '"' :: (t.flatMap escaped ++ [.char '"'])

/-- Texts one after the other, with commas between them. -/
def commas (ts : List Text) : Text := List.intercalate "," ts

mutual

/-- A document as a text without blanks between its parts. -/
def compact : Json → Text
  | .null => "null"
  | .flag b => if b then "true" else "false"
  | .number n => n.text
  | .text t => quoted t
  | .array items => '[' :: (commas (compactItems items) ++ [.char ']'])
  | .object members => '\x7b' :: (commas (compactMembers members) ++ [.char '\x7d'])

/-- The items of a list as texts. -/
def compactItems : List Json → List Text
  | [] => []
  | v :: vs => compact v :: compactItems vs

/-- The members of an object as texts. -/
def compactMembers : List (Text × Json) → List Text
  | [] => []
  | (name, v) :: ms => (quoted name ++ .char ':' :: compact v) :: compactMembers ms

end

/-! ### Numbers that cannot be written -/

/-- Whether a number is infinite or none at all. -/
def isNonFinite : Number → Bool
  | .float .nan => true
  | .float (.infinite _) => true
  | _ => false

mutual

/-- Whether a document holds a number that is not finite. -/
def hasNonFinite : Json → Bool
  | .number n => isNonFinite n
  | .array items => anyNonFinite items
  | .object members => anyMemberNonFinite members
  | _ => false

/-- Whether one of several documents holds a number that is not finite. -/
def anyNonFinite : List Json → Bool
  | [] => false
  | v :: vs => hasNonFinite v || anyNonFinite vs

/-- Whether one of several members holds a number that is not finite. -/
def anyMemberNonFinite : List (Text × Json) → Bool
  | [] => false
  | (_, v) :: ms => hasNonFinite v || anyMemberNonFinite ms

end

/-! ### Tidying -/

/-- What reserved names start with. -/
def reserved : Text := "_sa"

mutual

/-- A document in which every name stands once in an object, and no reserved name
at all. -/
def tidy : Json → Json
  | .array items => .array (tidyItems items)
  | .object members => .object (Keyed.merge (tidyMembers members))
  | v => v

/-- The items of a list, tidied. -/
def tidyItems : List Json → List Json
  | [] => []
  | v :: vs => tidy v :: tidyItems vs

/-- The members of an object without those of a reserved name, tidied. -/
def tidyMembers : List (Text × Json) → List (Text × Json)
  | [] => []
  | (name, v) :: ms =>
    if reserved.isPrefixOf name then tidyMembers ms else (name, tidy v) :: tidyMembers ms

end

end SceneReplay.Json
