import SceneReplay.Number.Basic
import SceneReplay.Text.Basic

/-!
# Tokens of a scene file

A scene file in ASCII form is a flat row of request names, numbers, quoted texts,
brackets and comments. A comment runs from `#` to the end of its line; one that
starts with `##` is a structural hint and kept apart from the others.
-/

namespace SceneReplay.Rib

/-- What a token is. -/
inductive Lexeme where
  /-- The name of a request. -/
  | name (s : String)
  /-- A number. -/
  | number (n : Number)
  /-- A quoted text, with its escapes resolved. -/
  | text (t : Text)
  /-- The bracket that opens an array. -/
  | opening
  /-- The bracket that closes an array. -/
  | closing
  /-- A comment, without its mark. -/
  | comment (t : Text)
  /-- A structural hint, without its mark. -/
  | hint (t : Text)
deriving DecidableEq

/-- A token and the line that it stands on. -/
structure Token where
  /-- What the token is. -/
  lexeme : Lexeme
  /-- The number of its line. -/
  line : Int
deriving DecidableEq

end SceneReplay.Rib
