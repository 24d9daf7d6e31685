import SceneReplay.Number.Numeral
import SceneReplay.Service.Document
import SceneReplay.Text.Hex

/-!
# Reading documents

A JSON document is read by recursive descent (`SceneReplay.Json.parse`). The descent is bounded by
the length of the text, since each step into a nested value takes at least one code point. So values
may be nested to any depth; a reader with a stack of its own would refuse what is nested by the
thousand.

Three things go beyond the standard: the three numbers that are not finite have
names, integers and other numbers are told apart by their spelling, and a text may
spell half a surrogate pair, which then stands in it as a lone surrogate.
-/

namespace SceneReplay

namespace Json

/-- Why a text is no document. -/
inductive Malformed where
  /-- The text has another form. -/
  | form
  /-- An integer has too many digits. -/
  | tooManyDigits
deriving DecidableEq, Repr

/-! ### Texts -/

/-- The number that hexadecimal digits spell. -/
def hexNumber? (ds : Text) : Option Nat :=
  ds.foldlM (fun n d =>
    match d with
    | .char c => (Text.hexValue? c).map (n * 16 + ·)
    | .surrogate _ => none) 0

/-- The character of a one-letter escape. -/
def simpleEscape? : CodePoint → Option Char
  | .char '"' => some '"'
  | .char '\\' => some '\\'
  | .char '/' => some '/'
  | .char 'b' => some '\x08'
  | .char 'f' => some '\x0C'
  | .char 'n' => some '\n'
  | .char 'r' => some '\r'
  | .char 't' => some '\t'
  | _ => none

/-- Takes a text off the front of what follows its opening quote: its code points, and
what follows its closing quote. -/
def takeText : Text → Option (Text × Text)
  | [] => none
  | .char '"' :: cs => some ([], cs)
  | .char '\\' :: .char 'u' :: a :: b :: c :: d :: cs => do
    let n ← hexNumber? [a, b, c, d]
    match cs with
    | .char '\\' :: .char 'u' :: e :: f :: g :: h :: cs' =>
      let m := (hexNumber? [e, f, g, h]).getD 0
      if CodePoint.isPair n m then do
        let (body, rest) ← takeText cs'
        some (CodePoint.ofPair n m :: body, rest)
      else do
        let (body, rest) ← takeText (.char '\\' :: .char 'u' :: e :: f :: g :: h :: cs')
        some (CodePoint.ofNat n :: body, rest)
    | cs => do
      let (body, rest) ← takeText cs
      some (CodePoint.ofNat n :: body, rest)
  | .char '\\' :: e :: cs => do
    let c ← simpleEscape? e
    let (body, rest) ← takeText cs
    some (c :: body, rest)
  | c :: cs =>
    if c.code < 0x20 || c = '\\' then none
    else do
      let (body, rest) ← takeText cs
      some (c :: body, rest)
termination_by structural cs => cs

/-! ### Numbers -/

/-- Takes the digits before a point: a zero alone, or digits of which the first
is none. -/
def takeWhole : Text → Option (Text × Text)
  | .char '0' :: cs => some ([.char '0'], cs)
  | c :: cs =>
    if Text.isAsciiDigit c then
      some (c :: cs.takeWhile Text.isAsciiDigit, cs.dropWhile Text.isAsciiDigit)
    else none
  | [] => none

/-- Takes a point with at least one digit after it. -/
def takePlaces (cs : Text) : Option Text × Text :=
  match cs with
  | .char '.' :: d :: rest =>
    if Text.isAsciiDigit d then
      (some (d :: rest.takeWhile Text.isAsciiDigit), rest.dropWhile Text.isAsciiDigit)
    else (none, cs)
  | _ => (none, cs)

/-- Takes an exponent with digits `0` to `9` only. -/
def takePower (cs : Text) : Option (Bool × Text) × Text :=
  match Numeral.takeExponent cs with
  | (some (negative, ds), rest) =>
    if ds.all Text.isAsciiDigit then (some (negative, ds), rest) else (none, cs)
  | (none, _) => (none, cs)

/-- Takes a number. An integer may have too many digits. -/
def takeNumber (cs : Text) : Except Malformed (Number × Text) :=
  let (negative, body) : Bool × Text := match cs with
    | .char '-' :: rest => (true, rest)
    | _ => (false, cs)
  match takeWhole body with
  | none => .error .form
  | some (whole, rest) =>
    let (places, rest) := takePlaces rest
    let (power, rest) := takePower rest
    match (Numeral.mk negative whole places power).value with
    | .ok n => .ok (n, rest)
    | .error _ => .error .tooManyDigits

/-! ### Documents -/

/-- The blanks between the parts of a document. -/
def isBlank (c : CodePoint) : Bool :=
  c = ' ' || c = '\t' || c = '\n' || c = '\r'

/-- What follows the blanks at the front. -/
def skipBlanks (cs : Text) : Text := cs.dropWhile isBlank

/-- Values that are words. -/
def words : List (String × Json) :=
  [("null", .null), ("true", .flag true), ("false", .flag false),
    ("NaN", .number (.float .nan)), ("Infinity", .number (.float (.infinite false))),
    ("-Infinity", .number (.float (.infinite true)))]

/-- Takes a value that is a word. -/
def takeWord (cs : Text) : Option (Json × Text) :=
  (words.find? fun w => (Text.ofString w.1).isPrefixOf cs).map fun w => (w.2, cs.drop w.1.length)

mutual

/-- Takes a value. -/
def takeValue : Nat → Text → Except Malformed (Json × Text)
  | 0, _ => .error .form
  | fuel + 1, cs =>
    match cs with
    | .char '"' :: rest =>
      match takeText rest with
      | some (body, rest) => .ok (.text body, rest)
      | none => .error .form
    | .char '[' :: rest =>
      match skipBlanks rest with
      | .char ']' :: rest => .ok (.array [], rest)
      | rest => (takeItems fuel rest).map fun (items, rest) => (.array items, rest)
    | .char '\x7b' :: rest =>
      match skipBlanks rest with
      | .char '\x7d' :: rest => .ok (.object [], rest)
      | rest => (takeMembers fuel rest).map fun (ms, rest) => (.object ms, rest)
    | cs =>
      match takeWord cs with
      | some found => .ok found
      | none => (takeNumber cs).map fun (n, rest) => (.number n, rest)

/-- Takes the items of a list up to its closing bracket. -/
def takeItems : Nat → Text → Except Malformed (List Json × Text)
  | 0, _ => .error .form
  | fuel + 1, cs => do
    let (v, rest) ← takeValue fuel cs
    match skipBlanks rest with
    | .char ']' :: rest => .ok ([v], rest)
    | .char ',' :: rest => do
      let (vs, rest) ← takeItems fuel (skipBlanks rest)
      .ok (v :: vs, rest)
    | _ => .error .form

/-- Takes the members of an object up to its closing brace. -/
def takeMembers : Nat → Text → Except Malformed (List (Text × Json) × Text)
  | 0, _ => .error .form
  | fuel + 1, .char '"' :: cs =>
    match takeText cs with
    | none => .error .form
    | some (name, rest) =>
      match skipBlanks rest with
      | .char ':' :: rest => do
        let (v, rest) ← takeValue fuel (skipBlanks rest)
        match skipBlanks rest with
        | .char '\x7d' :: rest => .ok ([(name, v)], rest)
        | .char ',' :: rest => do
          let (ms, rest) ← takeMembers fuel (skipBlanks rest)
          .ok ((name, v) :: ms, rest)
        | _ => .error .form
      | _ => .error .form
  | _, _ => .error .form

end

/-- Reads a document that fills the whole text. -/
def parse (t : Text) : Except Malformed Json := do
  let (v, rest) ← takeValue (2 * t.length + 2) (skipBlanks t)
  if (skipBlanks rest).isEmpty then .ok v else .error .form

end Json

end SceneReplay
