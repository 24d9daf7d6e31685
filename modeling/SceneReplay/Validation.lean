/-!
# Validation

Settings, parameters and requests arrive as loose data and are checked field by
field. A check that fails leaves an issue: what is wrong
(`SceneReplay.Issue.Kind`) and where (`SceneReplay.Issue.place`). All fields are
checked, so one input may have several issues; together with the name of what was
being built they make a `SceneReplay.Invalid`.
-/

namespace SceneReplay

/-- One step towards a place in the data: a named field or a position in a
list. -/
inductive Step where
  /-- The field of that name. -/
  | field (name : String)
  /-- The item at that position. -/
  | item (index : Nat)
deriving DecidableEq, Repr

/-- A step as it is shown. -/
def Step.text : Step → String
  | .field name => name
  | .item index => toString index

/-- What can be wrong with a piece of data. -/
inductive Issue.Kind where
  /-- A required field is not there. -/
  | missing
  /-- A text was wanted. -/
  | notText
  /-- A text that is no sequence of characters. -/
  | brokenText
  /-- The empty text, where it is not allowed. -/
  | emptyText
  /-- An integer was wanted. -/
  | notInteger
  /-- A number was wanted. -/
  | notNumber
  /-- A list was wanted. -/
  | notList
  /-- A flag was wanted. -/
  | notFlag
  /-- A record was wanted. -/
  | notRecord
  /-- A text that spells no integer. -/
  | unreadableInteger
  /-- A number too large to be taken for an integer. -/
  | oversizedInteger
  /-- A number with a fraction, where an integer was wanted. -/
  | fractional
  /-- An infinite number or none, where an integer was wanted. -/
  | notFinite
  /-- A text or number that stands for no flag. -/
  | unreadableFlag
  /-- A number below the least allowed one. -/
  | tooSmall (least : Int)
  /-- A number above the greatest allowed one. -/
  | tooLarge (greatest : Int)
  /-- A text that is none of those allowed. -/
  | notOneOf (choices : List String)
  /-- Data that is no well-formed document. -/
  | malformedDocument
  /-- A condition that is checked after the parts. -/
  | refused (reason : String)
deriving DecidableEq, Repr

namespace Issue.Kind

/-- The short name of a kind of issue. -/
def code : Issue.Kind → String
  | .missing => "missing"
  | .notText => "string_type"
  | .brokenText => "string_unicode"
  | .emptyText => "string_too_short"
  | .notInteger => "int_type"
  | .notNumber => "float_type"
  | .notList => "tuple_type"
  | .notFlag => "bool_type"
  | .notRecord => "model_attributes_type"
  | .unreadableInteger => "int_parsing"
  | .oversizedInteger => "int_parsing_size"
  | .fractional => "int_from_float"
  | .notFinite => "finite_number"
  | .unreadableFlag => "bool_parsing"
  | .tooSmall _ => "greater_than_equal"
  | .tooLarge _ => "less_than_equal"
  | .notOneOf _ => "literal_error"
  | .malformedDocument => "json_invalid"
  | .refused _ => "value_error"

/-- Choices as they are listed: in apostrophes, with commas and a last `or`. -/
def listChoices : List String → String
  | [] => ""
  | [c] => "'" ++ c ++ "'"
  | [c, d] => "'" ++ c ++ "' or '" ++ d ++ "'"
  | c :: cs => "'" ++ c ++ "', " ++ listChoices cs

/-- The wording of a kind of issue. -/
def message : Issue.Kind → String
  | .missing => "Field required"
  | .notText => "Input should be a valid string"
  | .brokenText =>
    "Input should be a valid string, unable to parse raw data as a unicode string"
  | .emptyText => "String should have at least 1 character"
  | .notInteger => "Input should be a valid integer"
  | .notNumber => "Input should be a valid number"
  | .notList => "Input should be a valid tuple"
  | .notFlag => "Input should be a valid boolean"
  | .notRecord => "Input should be a valid dictionary or object to extract fields from"
  | .unreadableInteger =>
    "Input should be a valid integer, unable to parse string as an integer"
  | .oversizedInteger =>
    "Unable to parse input string as an integer, exceeded maximum size"
  | .fractional => "Input should be a valid integer, got a number with a fractional part"
  | .notFinite => "Input should be a finite number"
  | .unreadableFlag => "Input should be a valid boolean, unable to interpret input"
  | .tooSmall least => "Input should be greater than or equal to " ++ toString least
  | .tooLarge greatest => "Input should be less than or equal to " ++ toString greatest
  | .notOneOf choices => "Input should be " ++ listChoices choices
  | .malformedDocument => "JSON decode error"
  | .refused reason => "Value error, " ++ reason

end Issue.Kind

/-- One thing wrong with a piece of data. -/
structure Issue where
  /-- What is wrong. -/
  kind : Issue.Kind
  /-- Where, from the outermost field inwards; empty for the whole. -/
  place : List Step
deriving DecidableEq, Repr

/-- An issue as lines of text, its place first unless it is the whole. -/
def Issue.lines (issue : Issue) : List String :=
  let wording := "  " ++ issue.kind.message
  match issue.place with
  | [] => [wording]
  | place => [String.intercalate "." (place.map Step.text), wording]

/-- Data that does not make what it should. -/
structure Invalid where
  /-- The name of what was being built. -/
  target : String
  /-- What is wrong, in the order of the fields. -/
  issues : List Issue
deriving DecidableEq, Repr

/-- All issues as one text, under a headline that counts them. -/
def Invalid.message (e : Invalid) : String :=
  let count := e.issues.length
  let headline :=
    toString count ++ (if count = 1 then " validation error for " else " validation errors for ")
      ++ e.target
  String.intercalate "\n" (headline :: e.issues.flatMap Issue.lines)

end SceneReplay
