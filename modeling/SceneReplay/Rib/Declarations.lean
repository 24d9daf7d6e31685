import SceneReplay.Text.Basic

/-!
# Declarations

A parameter's token may be just a name. Its type is then the one that was last
declared for this very token, in this or an earlier text, or a standard one, or
unknown. A table of declarations maps tokens to types; a later declaration
replaces an earlier one.
-/

namespace SceneReplay.Rib

/-- The types that tokens were declared with. -/
structure Declarations where
  /-- Tokens and types; each token once. -/
  entries : List (Text × Text)
deriving DecidableEq, Repr

namespace Declarations

/-- The type of a token, or the empty text. -/
def typeOf (d : Declarations) (token : Text) : Text :=
  (d.entries.lookup token).getD []

/-- Declares the type of a token. -/
def declare (d : Declarations) (token type : Text) : Declarations :=
  ⟨(token, type) :: d.entries.filter fun e => e.1 != token⟩

/-- The type of a token that was just declared. -/
@[simp] theorem typeOf_declare_self (d : Declarations) (token type : Text) :
    (d.declare token type).typeOf token = type := by
  simp [declare, typeOf]

/-- A declaration changes no other token. -/
theorem typeOf_declare_of_ne (d : Declarations) {token other : Text} (type : Text)
    (h : other ≠ token) : (d.declare token type).typeOf other = d.typeOf other := by
  have key : ∀ entries : List (Text × Text),
      (entries.filter fun e => e.1 != token).lookup other = entries.lookup other := by
    intro entries
    induction entries with
    | nil => rfl
    | cons e es ih =>
      obtain ⟨t, ty⟩ := e
      by_cases ht : t = token
      · subst ht
        simp [List.lookup_cons, ih, beq_false_of_ne h]
      · simp [List.lookup_cons, ht, ih]
  simp [declare, typeOf, List.lookup_cons, beq_false_of_ne h, key]

/-- What is declared before anything is read. -/
def standard : Declarations where
  entries :=
    [("P", "vertex point"), ("Pz", "vertex float"), ("Pw", "vertex hpoint"),
      ("N", "varying normal"), ("Np", "uniform normal"), ("Cs", "varying color"),
      ("Os", "varying color"), ("s", "varying float"), ("t", "varying float"),
      ("st", "varying float[2]"), ("width", "varying float"),
      ("constantwidth", "constant float"), ("Ka", "uniform float"), ("Kd", "uniform float"),
      ("Ks", "uniform float"), ("roughness", "uniform float"), ("intensity", "float"),
      ("lightcolor", "color"), ("from", "point"), ("to", "point"), ("fov", "float"),
      ("texturename", "string")]

/-- The declarations that differ from the standard ones, in the order of their
tokens. -/
def additions (d : Declarations) : List (Text × Text) :=
  (d.entries.filter fun e => standard.entries.lookup e.1 != some e.2).mergeSort
    fun a b => !b.1.codes.lex a.1.codes

end Declarations

end SceneReplay.Rib
