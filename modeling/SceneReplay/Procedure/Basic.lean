/-!
# Procedures

A renderer is driven by calls of procedures. Each procedure has a name, a fixed
row of positional arguments, each of a certain kind
(`SceneReplay.ArgKind`), and either accepts a list of named parameters after them
or does not. The kinds say how an argument is spelt in a scene file.
-/

namespace SceneReplay

/-- The kind of a single value. -/
inductive ScalarKind where
  /-- An integer. -/
  | int
  /-- A double. -/
  | float
  /-- A flag. -/
  | flag
  /-- A text that names something. -/
  | token
  /-- Any other text. -/
  | string
deriving DecidableEq, Repr

/-- The kind of an argument. -/
inductive ArgKind where
  /-- One value. -/
  | one (kind : ScalarKind)
  /-- A list of values of one kind. -/
  | many (kind : ScalarKind)
  /-- Three numbers: a colour. -/
  | color
  /-- Three numbers: a point. -/
  | point
  /-- Six numbers: a box. -/
  | bound
  /-- Sixteen numbers: a transformation. -/
  | matrix
  /-- Sixteen numbers, or the name of a standard basis. -/
  | basis
  /-- A function, or the name of a standard one. -/
  | callback
  /-- Data that only the procedure itself understands. -/
  | pointer
deriving DecidableEq, Repr

namespace ArgKind

/-- One integer. -/
@[match_pattern] abbrev int : ArgKind := .one .int

/-- One double. -/
@[match_pattern] abbrev float : ArgKind := .one .float

/-- One flag. -/
@[match_pattern] abbrev flag : ArgKind := .one .flag

/-- One name. -/
@[match_pattern] abbrev token : ArgKind := .one .token

/-- One text. -/
@[match_pattern] abbrev string : ArgKind := .one .string

/-- A list of integers. -/
@[match_pattern] abbrev ints : ArgKind := .many .int

/-- A list of doubles. -/
@[match_pattern] abbrev floats : ArgKind := .many .float

/-- A list of names. -/
@[match_pattern] abbrev tokens : ArgKind := .many .token

/-- A list of texts. -/
@[match_pattern] abbrev strings : ArgKind := .many .string

/-- How many numbers an argument of this kind has, if that is fixed and more
than one. -/
def fixedSize? : ArgKind → Option Nat
  | .color => some 3
  | .point => some 3
  | .bound => some 6
  | .matrix => some 16
  | .basis => some 16
  | _ => none

end ArgKind

/-- The short name of a kind of value. -/
def ScalarKind.label : ScalarKind → String
  | .int => "int"
  | .float => "float"
  | .flag => "bool"
  | .token => "token"
  | .string => "string"

/-- The short name of a kind of argument. -/
def ArgKind.label : ArgKind → String
  | .one k => k.label
  | .many k => k.label ++ "[]"
  | .color => "color"
  | .point => "point"
  | .bound => "bound"
  | .matrix => "matrix"
  | .basis => "basis"
  | .callback => "func"
  | .pointer => "pointer"

/-- A procedure of the renderer. -/
structure Procedure where
  /-- The name, which is also the request that calls it in a scene file. -/
  name : String
  /-- The positional arguments: their names and kinds. -/
  args : List (String × ArgKind)
  /-- Whether a list of named parameters is accepted after them. -/
  takesParams : Bool
deriving DecidableEq, Repr

namespace Procedure

/-- How many positional arguments the procedure has. -/
def arity (p : Procedure) : Nat := p.args.length

/-- The names of the positional arguments. -/
def argNames (p : Procedure) : List String := p.args.map Prod.fst

/-- The kinds of the positional arguments. -/
def argKinds (p : Procedure) : List ArgKind := p.args.map Prod.snd

/-- A name of several capitalised words in lower case, with an underscore at
each change from a small letter or digit to a capital. -/
def snakeCase : List Char → List Char
  | [] => []
  | c :: cs =>
    let rest := snakeCase cs
    let boundary := (c.isLower || c.isDigit) && (cs.head?.any Char.isUpper)
    c.toLower :: if boundary then '_' :: rest else rest

/-- The name of the renderer's entry point for the procedure. The one that would
be a reserved word has an underscore at its end. -/
def entryPoint (p : Procedure) : String :=
  if p.name = "Else" then "else_" else String.ofList (snakeCase p.name.toList)

end Procedure

end SceneReplay
