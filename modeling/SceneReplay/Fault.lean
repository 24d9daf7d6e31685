import SceneReplay.Procedure.Basic
import SceneReplay.Validation
import SceneReplay.Value

/-!
# Faults

A fault stops what is being done and is handed to the caller; what happened
before it stays. Faults are for misuse (a call with the wrong number of
arguments, a name that nobody registered) and for the few inputs that cannot be
represented (an integer with too many digits). Problems inside a scene are not
faults: they are reported and the work goes on, see `SceneReplay.Report`.
-/

namespace SceneReplay

/-- Why something could not be done. -/
inductive Fault where
  /-- An integer is written with more digits than are read. -/
  | tooManyDigits (digits : Nat)
  /-- An integer has no double near it. -/
  | integerTooLarge
  /-- A text that should spell an integer does not. -/
  | notAnInteger (written : Text)
  /-- A text that should spell a double does not. -/
  | notADouble (written : Text)
  /-- An infinite number was to be taken for an integer. -/
  | infinityAsInteger
  /-- The result that is no number was to be taken for an integer. -/
  | nanAsInteger
  /-- A command names a procedure that does not exist. -/
  | unknownProcedure (name : String)
  /-- A call names a procedure that does not exist. -/
  | noEntryPoint (name : String)
  /-- A call has the wrong number of positional arguments. -/
  | wrongArity (procedure : Procedure) (given : Nat)
  /-- A parameter list for a procedure that accepts none. -/
  | paramsNotAccepted (procedure : Procedure)
  /-- A command to be written has fewer arguments than its form needs. -/
  | tooFewArguments (expected given : Nat)
  /-- A command to be written has more arguments than its form has. -/
  | tooManyArguments (expected : Nat)
  /-- A recording that has ended was to be extended. -/
  | streamClosed (name : Value)
  /-- A stage that does nothing with calls received one. -/
  | notImplemented
  /-- A filter was asked for by a name that nobody registered. -/
  | unknownFilter (name : String)
  /-- A replay limit outside the allowed range. -/
  | limitOutOfRange (limit greatest : Int)
  /-- A report code that does not exist. -/
  | unknownCode (code : String)
  /-- A severity that does not exist. -/
  | unknownSeverity (severity : String)
  /-- Data that fails its checks. -/
  | invalid (reasons : Invalid)

namespace Fault

/-- The names of a procedure's arguments as a message lists them. -/
def listArguments (names : List String) : String :=
  if names.isEmpty then "none" else String.intercalate ", " names

/-- The wording of a fault. Where something was looked up by name and not found,
the wording is itself shown as a literal. -/
def message : Fault → String
  | .tooManyDigits n =>
    "Exceeds the limit (4300 digits) for integer string conversion: value has " ++ toString n
      ++ " digits; use sys.set_int_max_str_digits() to increase the limit"
  | .integerTooLarge => "int too large to convert to float"
  | .notAnInteger t =>
    "invalid literal for int() with base 10: "
      ++ String.ofList ((Text.literal t).toList.take 200)
  | .notADouble t => "could not convert string to float: " ++ Text.literal t
  | .infinityAsInteger => "cannot convert float infinity to integer"
  | .nanAsInteger => "cannot convert float NaN to integer"
  | .unknownProcedure name => Text.literal ("unknown procedure " ++ Text.literal name)
  | .noEntryPoint name => Text.literal name
  | .wrongArity p given =>
    p.name ++ "() takes " ++ toString p.arity ++ " positional arguments ("
      ++ listArguments p.argNames ++ ") but " ++ toString given ++ " were given"
  | .paramsNotAccepted p => p.name ++ "() does not accept a parameter list"
  | .tooFewArguments expected given =>
    "not enough values to unpack (expected " ++ toString expected ++ ", got " ++ toString given
      ++ ")"
  | .tooManyArguments expected =>
    "too many values to unpack (expected " ++ toString expected ++ ")"
  | .streamClosed name => "cached stream " ++ name.literal ++ " is closed"
  | .notImplemented => ""
  | .unknownFilter name => Text.literal ("unknown filter " ++ Text.literal name)
  | .limitOutOfRange limit greatest =>
    "max_replay_depth must be between 1 and " ++ toString greatest ++ ", got " ++ toString limit
  | .unknownCode code => Text.literal code ++ " is not a valid ErrorCode"
  | .unknownSeverity severity => Text.literal severity ++ " is not a valid Severity"
  | .invalid reasons => reasons.message

/-- Whether a fault lies in a value that was given: such faults are the caller's,
the others are not. -/
def isBadValue : Fault → Bool
  | .tooManyDigits _ | .notAnInteger _ | .notADouble _ | .nanAsInteger | .tooFewArguments _ _
  | .tooManyArguments _ | .limitOutOfRange _ _ | .unknownCode _ | .unknownSeverity _
  | .invalid _ => true
  | _ => false

end Fault

end SceneReplay
