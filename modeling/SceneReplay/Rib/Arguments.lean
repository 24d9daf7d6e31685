import SceneReplay.Command
import SceneReplay.Rib.Request

/-!
# From operands to arguments

A request's operands are read from the front, one positional argument after the
other, as the argument's kind demands (`SceneReplay.Rib.readArgument`). A single
value may stand bare or in an array of its own; a list must be an array; a colour,
point, box or transformation is an array of the right length or that many bare
numbers. Whatever is left over makes the parameter list, as pairs of a token and
a value (`SceneReplay.Rib.readParams`), or is an error for a procedure that
accepts no parameters.

Operands that do not fit are refused with a reason (`SceneReplay.Rib.Misfit`).
One thing is worse than a misfit: an integer too large for a double where a
double is wanted stops the reading altogether.
-/

namespace SceneReplay.Rib

/-- Why the operands of a request do not fit its procedure. -/
inductive Misfit where
  /-- The operands end before this argument. -/
  | missing (arg : String)
  /-- A list was wanted. -/
  | notArray (arg : String)
  /-- A single value was wanted, and there is an array of another length. -/
  | notSingle (arg : String)
  /-- A text was wanted. -/
  | notText (arg : String)
  /-- A number was wanted. -/
  | notNumber (arg : String)
  /-- An integer was wanted, and the number is not whole. -/
  | notWhole (arg : String)
  /-- That many numbers were wanted. -/
  | notNumbers (arg : String) (count : Nat)
  /-- A procedural primitive needs at least three operands. -/
  | proceduralTooShort
  /-- The first operand of a procedural primitive is its name. -/
  | proceduralName
  /-- The second operand of a procedural primitive is an array of texts. -/
  | proceduralData
  /-- A parameter list has an odd number of operands. -/
  | unpaired
  /-- A parameter's token must be a text. -/
  | notToken (found : Value)
  /-- There are operands left, and the procedure accepts no parameters. -/
  | surplus (expected given : Nat)
  /-- The parameters do not make a parameter list. -/
  | invalid (reasons : Invalid)

/-- The wording of a misfit. -/
def Misfit.message : Misfit → String
  | .missing arg => "missing argument " ++ Text.literal arg
  | .notArray arg => Text.literal arg ++ " must be an array"
  | .notSingle arg => Text.literal arg ++ " must be a single value"
  | .notText arg => Text.literal arg ++ " must be a string"
  | .notNumber arg => Text.literal arg ++ " must be a number"
  | .notWhole arg => Text.literal arg ++ " must be an integer"
  | .notNumbers arg count => Text.literal arg ++ " needs " ++ toString count ++ " numbers"
  | .proceduralTooShort => "expected a name, a data array and a bound"
  | .proceduralName => "procedural name must be a string"
  | .proceduralData => "procedural data must be an array of strings"
  | .unpaired => "parameter list must be token/value pairs"
  | .notToken found => "expected a parameter name, found " ++ found.literal
  | .surplus expected given =>
    "expected " ++ toString expected ++ " arguments, got " ++ toString given
  | .invalid reasons => reasons.message

/-- Why the operands of a request could not be read. -/
inductive Refusal where
  /-- They do not fit; the request is reported and left out. -/
  | misfit (m : Misfit)
  /-- An integer is too large for a double; reading stops. -/
  | tooLarge

/-- The result of reading operands. -/
abbrev Reading (α : Type) := Except Refusal α

/-- Refuses operands that do not fit. -/
def refuse {α : Type} (m : Misfit) : Reading α := .error (.misfit m)

/-! ### Single values -/

/-- A number as a double. -/
def readDouble (n : Number) : Reading Value :=
  match n.toBinary64? with
  | some x => .ok (.float x)
  | none => .error .tooLarge

/-- A single value of the given kind. -/
def readScalar (arg : String) : ScalarKind → Scalar → Reading Value
  | .token, .text s => .ok (.text s)
  | .string, .text s => .ok (.text s)
  | .token, .number _ => refuse (.notText arg)
  | .string, .number _ => refuse (.notText arg)
  | _, .text _ => refuse (.notNumber arg)
  | .int, .number n =>
    match n.toWhole? with
    | some k => .ok (.int k)
    | none => refuse (.notWhole arg)
  | .flag, .number n => .ok (.flag (!n.isZero))
  | .float, .number n => readDouble n

/-- The one value of an operand: bare, or alone in an array. -/
def single (arg : String) : Operand → Reading Scalar
  | .scalar s => .ok s
  | .array [s] => .ok s
  | _ => refuse (.notSingle arg)

/-- The procedures whose object handle may be written as a number. -/
def handleProcedures : List String := ["ObjectBegin", "ObjectInstance"]

/-- A single value for an argument of the given procedure. A number in the place
of an object's handle is taken as the text it shows as. -/
def readOne (proc arg : String) (kind : ScalarKind) (s : Scalar) : Reading Value :=
  match kind, s with
  | .token, .number n => if proc ∈ handleProcedures then .ok (.text n.text)
    else readScalar arg .token s
  | .string, .number n => if proc ∈ handleProcedures then .ok (.text n.text)
    else readScalar arg .string s
  | kind, s => readScalar arg kind s

/-! ### Fixed rows of numbers -/

/-- The numbers among some operands, if all of them are bare numbers. -/
def bareNumbers? (ops : List Operand) : Option (List Number) :=
  ops.mapM fun
    | .scalar (.number n) => some n
    | _ => none

/-- The numbers of an array, if all its items are numbers. -/
def itemNumbers? (items : List Scalar) : Option (List Number) :=
  items.mapM fun
    | .number n => some n
    | .text _ => none

/-- Exactly `count` numbers, as doubles. -/
def readNumbers (arg : String) (count : Nat) (numbers? : Option (List Number)) : Reading Value :=
  match numbers? with
  | some ns =>
    if ns.length = count then (ns.mapM readDouble).map Value.list
    else refuse (.notNumbers arg count)
  | none => refuse (.notNumbers arg count)

/-- A row of `count` numbers off the front of some operands: an array, or that
many bare numbers. -/
def readFixed (arg : String) (count : Nat) :
    List Operand → Reading (Value × List Operand)
  | [] => refuse (.missing arg)
  | .array items :: rest => do
    let v ← readNumbers arg count (itemNumbers? items)
    .ok (v, rest)
  | ops => do
    let v ← readNumbers arg count (bareNumbers? (ops.take count))
    .ok (v, ops.drop count)

/-! ### Positional arguments -/

/-- One argument off the front of some operands. -/
def readArgument (proc arg : String) (kind : ArgKind) (ops : List Operand) :
    Reading (Value × List Operand) :=
  match kind.fixedSize? with
  | some count =>
    match kind, ops with
    | .basis, .scalar (.text s) :: rest => .ok (.text s, rest)
    | _, ops => readFixed arg count ops
  | none =>
    match ops with
    | [] => refuse (.missing arg)
    | op :: rest =>
      match kind, op with
      | .many kind, .array items => do
        let vs ← items.mapM (readScalar arg kind)
        .ok (.list vs, rest)
      | .many _, _ => refuse (.notArray arg)
      | .one kind, op => do
        let s ← single arg op
        let v ← readOne proc arg kind s
        .ok (v, rest)
      | _, op => do
        let s ← single arg op
        let v ← readScalar arg .string s
        .ok (v, rest)

/-- Whether an argument is never written in a file and always absent. -/
def isUnwritten (proc arg : String) : Bool :=
  proc = "ReadArchive" && arg = "callback"

/-- The given arguments off the front of some operands, and what is left. -/
def readArguments (proc : String) :
    List (String × ArgKind) → List Operand → Reading (List Value × List Operand)
  | [], ops => .ok ([], ops)
  | (arg, kind) :: args, ops => do
    let (v, ops) ←
      if isUnwritten proc arg then .ok (Value.null, ops) else readArgument proc arg kind ops
    let (vs, ops) ← readArguments proc args ops
    .ok (v :: vs, ops)

/-- The texts of an array, if all its items are texts. -/
def itemTexts? (items : List Scalar) : Option (List Value) :=
  items.mapM fun
    | .text s => some (.text s)
    | .number _ => none

/-- The arguments of a procedural primitive. In the file its name comes first,
then its data and its bound; it is called with the data first, the name as its
third argument and nothing as its fourth. -/
def readProcedural : List Operand → Reading (List Value × List Operand)
  | name :: data :: bound :: rest => do
    let name ← match name with
      | .scalar (.text s) => .ok (Value.text s)
      | _ => refuse .proceduralName
    let data ← match data with
      | .array items =>
        match itemTexts? items with
        | some vs => .ok (Value.list vs)
        | none => refuse .proceduralData
      | _ => refuse .proceduralData
    let (box, _) ← readFixed "bound" 6 [bound]
    .ok ([data, box, name, .null], rest)
  | _ => refuse .proceduralTooShort

/-- The positional arguments of a request, and the operands left over. -/
def readPositional (p : Procedure) (ops : List Operand) :
    Reading (List Value × List Operand) :=
  if p.name = "Procedural" then readProcedural ops else readArguments p.name p.args ops

/-! ### Parameters -/

/-- The parameters that pairs of operands spell. `declared` gives the type of a
token that declares none. -/
def readParamItems (declared : Text → Text) : List Operand → Reading (List Param)
  | .scalar (.text token) :: value :: rest =>
    match Param.parse token value.toValue (.text (declared token)) with
    | .error reasons => refuse (.invalid reasons)
    | .ok p => (p :: ·) <$> readParamItems declared rest
  | found :: _ :: _ => refuse (.notToken found.toValue)
  | _ => .ok []

/-- The parameter list that some operands spell. -/
def readParams (declared : Text → Text) (ops : List Operand) : Reading ParamList :=
  if ops.length % 2 = 1 then refuse .unpaired
  else do
    let items ← readParamItems declared ops
    match ParamList.ofList items with
    | .error reasons => refuse (.invalid reasons)
    | .ok ps => .ok ps

/-- The call that a request with the given operands makes. -/
def readCall (declared : Text → Text) (p : Procedure) (ops : List Operand) :
    Reading Command := do
  let (args, rest) ← readPositional p ops
  if p.takesParams then
    let ps ← readParams declared rest
    .ok ⟨p.name, args, some ps⟩
  else if rest.isEmpty then .ok ⟨p.name, args, none⟩
  else refuse (.surplus p.arity ops.length)

end SceneReplay.Rib
