import SceneReplay.Number.Basic
import SceneReplay.Text.Basic

/-!
# Documents

What the service is sent and what it sends are JSON documents (`SceneReplay.Json`). Integers and
other numbers are told apart in them, and a text may hold lone surrogates.
-/

namespace SceneReplay

/-- A JSON document. -/
inductive Json where
  /-- The absent value. -/
  | null
  /-- A flag. -/
  | flag (b : Bool)
  /-- A number. -/
  | number (n : Number)
  /-- A text. -/
  | text (t : Text)
  /-- A list. -/
  | array (items : List Json)
  /-- Named members, in the order in which they stand. -/
  | object (members : List (Text × Json))

/-- The member of the given name in an object; of several the last. -/
def Json.member? (members : List (Text × Json)) (name : Text) : Option Json :=
  (members.reverse.find? fun m => m.1 == name).map Prod.snd

end SceneReplay
