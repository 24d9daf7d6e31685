import SceneReplay.Keyed
import SceneReplay.Validation
import SceneReplay.Value
import SceneReplay.Text.Blank

/-!
# Parameters

Most procedures end in a list of named parameters. A parameter is written as a
*token* and its values. The last word of the token is the parameter's name; the
words before it, if there are any, declare its type, as in `uniform float Ks`.
The token itself is kept exactly as written.

* `SceneReplay.Param` has a token with a name in it, so that
  `SceneReplay.Param.name` is total.
* `SceneReplay.ParamList` has no two parameters of one name.
* `SceneReplay.Param.ofFields` and `SceneReplay.Param.parse` build parameters
  from loose values and collect what is wrong with them.
-/

namespace SceneReplay

/-- A named parameter. -/
structure Param where
  /-- The token as written. -/
  token : Text
  /-- The type that the parameter was declared with, or the empty text. -/
  type : Text
  /-- The values, in order. -/
  values : List Scalar
  /-- The token holds a name. -/
  named : Text.words token ≠ []

namespace Param

/-- The name of the parameter: the last word of its token. -/
def name (p : Param) : Text :=
  (Text.words p.token).getLast p.named

/-- Whether the token declares a type of its own. -/
def isInline (p : Param) : Bool :=
  1 < (Text.words p.token).length

/-- The type that a token declares: its words but the last, one space apart;
nothing if it has fewer than two words. -/
def inlineType? (token : Text) : Option Text :=
  let ws := Text.words token
  if 1 < ws.length then some (List.intercalate " " ws.dropLast) else none

/-- Whether two parameters have the same token and type, and equal values. -/
def same (p q : Param) : Bool :=
  p.token == q.token && p.type == q.type &&
    p.values.length == q.values.length &&
      (p.values.zip q.values).all fun (v, w) => v.same w

/-! ### Building a parameter -/

/-- The scalar that a single value of a parameter is stored as; a flag is stored
as an integer. -/
def scalarOf? : Value → Option Scalar
  | .flag b => some (.number (.int b.toNat))
  | .scalar s => some s
  | _ => none

/-- What is wrong with the value at a position: it is no integer, no number and
no text, which are listed in turn. -/
def valueIssues (index : Nat) : List Issue :=
  [("int", .notInteger), ("float", .notNumber), ("str", .notText)].map fun (kind, issue) =>
    ⟨issue, [.field "value", .item index, .field kind]⟩

/-- The values of a list, from the given position on, or all that is wrong with
them. -/
def scalarsOf (index : Nat) : List Value → Except (List Issue) (List Scalar)
  | [] => .ok []
  | v :: vs =>
    match scalarOf? v, scalarsOf (index + 1) vs with
    | some s, .ok ss => .ok (s :: ss)
    | some _, .error issues => .error issues
    | none, .ok _ => .error (valueIssues index)
    | none, .error issues => .error (valueIssues index ++ issues)

/-- The values of a parameter: those of a list, or a single one. -/
def valuesOf : Value → Except (List Issue) (List Scalar)
  | .list items => scalarsOf 0 items
  | .tuple items => scalarsOf 0 items
  | v =>
    match scalarOf? v with
    | some s => .ok [s]
    | none => .error [⟨.notList, [.field "value"]⟩]

/-- The text in a field. -/
def textOf (field : String) : Value → Except (List Issue) Text
  | .text t => .ok t
  | _ => .error [⟨.notText, [.field field]⟩]

/-- A token: a text of characters alone, with a name in it. -/
def tokenOf : Option Value → Except (List Issue) { t : Text // Text.words t ≠ [] }
  | none => .error [⟨.missing, [.field "token"]⟩]
  | some v => do
    let t ← textOf "token" v
    if t.any CodePoint.isSurrogate then .error [⟨.brokenText, [.field "token"]⟩]
    else if t.isEmpty then .error [⟨.emptyText, [.field "token"]⟩]
    else if h : Text.words t = [] then
      .error [⟨.refused "parameter token must contain a name", [.field "token"]⟩]
    else .ok ⟨t, h⟩

/-- The issues of a check that failed. -/
def issuesOf {α : Type} : Except (List Issue) α → List Issue
  | .ok _ => []
  | .error issues => issues

/-- Builds a parameter from its fields, of which only the token is required. All
fields are checked, and their issues come in the order token, type, value. -/
def ofFields (token type value : Option Value) : Except Invalid Param :=
  let token := tokenOf token
  let type := (type.map (textOf "type")).getD (.ok [])
  let values := (value.map valuesOf).getD (.ok [])
  match token, type, values with
  | .ok ⟨t, named⟩, .ok type, .ok values => .ok ⟨t, type, values, named⟩
  | _, _, _ => .error ⟨"Param", issuesOf token ++ issuesOf type ++ issuesOf values⟩

/-- Builds a parameter from a token as written, a value or list of values, and
the type to take if the token declares none. -/
def parse (token : Text) (value declared : Value) : Except Invalid Param :=
  let type := ((inlineType? token).map Value.text).getD declared
  ofFields (some (.text token)) (some type) (some value)

end Param

/-- A list of parameters with no name twice. -/
structure ParamList where
  /-- The parameters, in order. -/
  items : List Param
  /-- No two have the same name. -/
  distinct : (items.map Param.name).Nodup

namespace ParamList

/-- The empty parameter list. -/
def empty : ParamList := ⟨[], by simp⟩

instance : Inhabited ParamList := ⟨empty⟩

/-- The first text in a list that an earlier one equals. -/
def firstRepeated? (seen : List Text) : List Text → Option Text
  | [] => none
  | t :: ts => if t ∈ seen then some t else firstRepeated? (t :: seen) ts

/-- Makes a parameter list of parameters; no name may occur twice. -/
def ofList (items : List Param) : Except Invalid ParamList :=
  if h : (items.map Param.name).Nodup then .ok ⟨items, h⟩
  else
    let name := (firstRepeated? [] (items.map Param.name)).getD []
    .error ⟨"ParamList",
      [⟨.refused ("duplicate parameter " ++ Text.literal name ++ " in parameter list"), []⟩]⟩

/-- Makes a parameter list of tokens and values. A token that comes again keeps
its first place and takes the last value. -/
def ofPairs (pairs : List (Text × Value)) : Except Invalid ParamList := do
  ofList (← (Keyed.merge pairs).mapM fun (token, value) => Param.parse token value (.text []))

/-- The parameter of the given name. -/
def get? (ps : ParamList) (name : Text) : Option Param :=
  ps.items.find? fun p => p.name == name

/-- Whether two lists hold the same parameters in the same order. -/
def same (ps qs : ParamList) : Bool :=
  ps.items.length == qs.items.length &&
    (ps.items.zip qs.items).all fun (p, q) => p.same q

end ParamList

end SceneReplay
