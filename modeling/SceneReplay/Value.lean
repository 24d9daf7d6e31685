import SceneReplay.Number.Basic
import SceneReplay.Text.Literal

/-!
# Values

What the arguments of a procedure call are made of. A *scalar* is a number or a
text; scalars are all that a parameter can hold and all that scene files can
spell. Calls made from outside a file may also pass flags, lists, records,
callbacks and other objects, which are kept and handed on but never looked into.

* `SceneReplay.Value.freeze` is what a recorded call keeps of its arguments:
  lists become tuples, all the way down, so later changes to a list cannot reach
  the recording.
* `SceneReplay.Value.same` is the equality by which recorded streams are found
  and calls are compared. Numbers compare by exact value and a flag counts as `0`
  or `1`; a list never equals a tuple; callbacks and objects equal only
  themselves.
* `SceneReplay.Value.literal` and `SceneReplay.Value.plain` are the two ways a
  value is shown in messages.
-/

namespace SceneReplay

/-- A number or a text. -/
inductive Scalar where
  /-- A number. -/
  | number (n : Number)
  /-- A text. -/
  | text (t : Text)
deriving DecidableEq

namespace Scalar

/-- Equality of scalars, with numbers compared by value. -/
def same : Scalar → Scalar → Bool
  | .number m, .number n => m.sameValue n
  | .text s, .text t => s == t
  | _, _ => false

/-- Whether a scalar counts as true: all do but zero and the empty text. -/
def isTruthy : Scalar → Bool
  | .number n => !n.isZero
  | .text s => !s.isEmpty

/-- A scalar as it is shown among other values. -/
def literal : Scalar → String
  | .number n => n.text
  | .text s => Text.literal s

/-- A scalar as it is shown on its own. -/
def plain : Scalar → Text
  | .number n => n.text
  | .text s => s

end Scalar

/-- An argument of a procedure call. -/
inductive Value where
  /-- The absent value. -/
  | null
  /-- A flag. -/
  | flag (b : Bool)
  /-- A number or a text. -/
  | scalar (s : Scalar)
  /-- A list, which its owner may still change. -/
  | list (items : List Value)
  /-- A list that is fixed for good. -/
  | tuple (items : List Value)
  /-- Named fields: the names, and the values in the same order. -/
  | record (names : List String) (fields : List Value)
  /-- A function, by an identity and its name. -/
  | callback (identity : Nat) (name : String)
  /-- Any other object, by an identity and the text it shows as. -/
  | object (identity : Nat) (shown : String)

namespace Value

/-- An integer. -/
@[match_pattern] abbrev int (n : Int) : Value := .scalar (.number (.int n))

/-- A double. -/
@[match_pattern] abbrev float (x : Binary64) : Value := .scalar (.number (.float x))

/-- A text. -/
@[match_pattern] abbrev text (t : Text) : Value := .scalar (.text t)

/-! ### What a recorded call keeps -/

mutual

/-- A value with every list in it turned into a tuple. -/
def freeze : Value → Value
  | .list items => .tuple (freezeAll items)
  | .tuple items => .tuple (freezeAll items)
  | v => v

/-- All values of a list, frozen. -/
def freezeAll : List Value → List Value
  | [] => []
  | v :: vs => freeze v :: freezeAll vs

end

@[simp] theorem freezeAll_nil : freezeAll [] = [] := rfl

@[simp] theorem freezeAll_cons (v : Value) (vs : List Value) :
    freezeAll (v :: vs) = freeze v :: freezeAll vs := rfl

/-- Freezing keeps the number of values. -/
@[simp] theorem length_freezeAll (vs : List Value) : (freezeAll vs).length = vs.length := by
  induction vs with
  | nil => rfl
  | cons v vs ih => simp [ih]

mutual

/-- Freezing a frozen value changes nothing. -/
@[simp] theorem freeze_freeze : (v : Value) → freeze (freeze v) = freeze v
  | .list items => by simp [freeze, freezeAll_freezeAll items]
  | .tuple items => by simp [freeze, freezeAll_freezeAll items]
  | .null | .flag _ | .scalar _ | .record _ _ | .callback _ _ | .object _ _ => by simp [freeze]

/-- Freezing frozen values changes nothing. -/
@[simp] theorem freezeAll_freezeAll : (vs : List Value) →
    freezeAll (freezeAll vs) = freezeAll vs
  | [] => rfl
  | v :: vs => by simp [freeze_freeze v, freezeAll_freezeAll vs]

end

/-! ### Equality -/

/-- The number that a value counts as when it is compared, if it does. -/
def asNumber? : Value → Option Number
  | .flag b => some (.int b.toNat)
  | .scalar (.number n) => some n
  | _ => none

/-- The field of a record. -/
def field? (name : String) : List String → List Value → Option Value
  | n :: ns, v :: vs => if n = name then some v else field? name ns vs
  | _, _ => none

mutual

/-- Whether two values are equal. -/
def same : Value → Value → Bool
  | .null, .null => true
  | .flag b, w => (w.asNumber?.map (Number.int b.toNat).sameValue).getD false
  | .scalar (.number n), w => (w.asNumber?.map n.sameValue).getD false
  | .scalar (.text s), .scalar (.text t) => s == t
  | .list vs, .list ws => sameAll vs ws
  | .tuple vs, .tuple ws => sameAll vs ws
  | .record ns vs, .record ms ws => ns.length == ms.length && sameFields ns vs ms ws
  | .callback i _, .callback j _ => i == j
  | .object i _, .object j _ => i == j
  | _, _ => false

/-- Whether two lists of values are equal, place by place. -/
def sameAll : List Value → List Value → Bool
  | [], [] => true
  | v :: vs, w :: ws => same v w && sameAll vs ws
  | _, _ => false

/-- Whether each of the given fields has an equal one in another record. -/
def sameFields (names : List String) (fields : List Value)
    (names' : List String) (fields' : List Value) : Bool :=
  match names, fields with
  | n :: ns, v :: vs =>
    (match field? n names' fields' with
      | some w => same v w
      | none => false) && sameFields ns vs names' fields'
  | _, _ => true

end

/-! ### Showing values -/

/-- A flag as it is shown. -/
def flagText (b : Bool) : String := if b then "True" else "False"

mutual

/-- A value as it is shown among others: texts stand between quotes. -/
def literal : Value → String
  | .null => "None"
  | .flag b => flagText b
  | .scalar s => s.literal
  | .list items => "[" ++ String.intercalate ", " (literals items) ++ "]"
  | .tuple [v] => "(" ++ literal v ++ ",)"
  | .tuple items => "(" ++ String.intercalate ", " (literals items) ++ ")"
  | .record names fields => "\x7b" ++ String.intercalate ", " (fieldLiterals names fields) ++ "\x7d"
  | .callback _ name => "<function " ++ name ++ ">"
  | .object _ shown => shown

/-- The values of a list as they are shown. -/
def literals : List Value → List String
  | [] => []
  | v :: vs => literal v :: literals vs

/-- The fields of a record as they are shown. -/
def fieldLiterals (names : List String) (fields : List Value) : List String :=
  match names, fields with
  | n :: ns, v :: vs => (Text.literal n ++ ": " ++ literal v) :: fieldLiterals ns vs
  | _, _ => []

end

/-- A value as it is shown on its own: a text stands for itself. An integer is written out in full,
however long it is; the names of definitions, which reports show like this, are texts in all that is
read from a file. -/
def plain : Value → Text
  | .scalar s => s.plain
  | v => v.literal

mutual

/-- A value in the terms that reports and answers are written in: absent values,
flags, scalars and lists of these. A callback becomes its name, other objects the
text they show as. -/
def simplify : Value → Value
  | .null => .null
  | .flag b => .flag b
  | .scalar s => .scalar s
  | .list items => .list (simplifyAll items)
  | .tuple items => .list (simplifyAll items)
  | .callback _ name => .text name
  | v => .text v.literal

/-- The values of a list, simplified. -/
def simplifyAll : List Value → List Value
  | [] => []
  | v :: vs => simplify v :: simplifyAll vs

end

end Value

end SceneReplay
