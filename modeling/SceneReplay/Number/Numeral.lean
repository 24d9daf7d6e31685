import SceneReplay.Number.Basic
import SceneReplay.Text.Blank
import SceneReplay.Text.Digit

/-!
# Numerals

How numbers are spelt in a scene: an optional sign, digits with at most one
point among, before or after them, and an optional exponent. Digits of every
script are allowed. A numeral with neither point nor exponent is an integer, any
other a double (`SceneReplay.Numeral.value`).

`SceneReplay.Numeral.scan?` takes the longest numeral off the front of a text.
`SceneReplay.readInteger` and `SceneReplay.readDouble?` read a text that is a number
as a whole, as parameters give it; there the digits may be grouped by single
underscores. Integers of more than `SceneReplay.digitLimit` digits are refused.
-/

namespace SceneReplay

/-- The largest number of digits, leading zeros included, that an integer may be
written with. -/
def digitLimit : Nat := 4300

/-- The parts of a numeral. -/
structure Numeral where
  /-- Whether it starts with a minus sign. -/
  negative : Bool
  /-- The digits before the point. -/
  whole : Text
  /-- The digits after the point, if there is a point. -/
  fraction : Option Text
  /-- The sign and the digits of the exponent, if there is one. -/
  exponent : Option (Bool × Text)
deriving DecidableEq

namespace Numeral

/-- Takes a sign off the front of a text; `true` is a minus. -/
def takeSign : Text → Bool × Text
  | .char '-' :: cs => (true, cs)
  | .char '+' :: cs => (false, cs)
  | cs => (false, cs)

/-- Takes an exponent off the front of a text. The letter alone is none. -/
def takeExponent (cs : Text) : Option (Bool × Text) × Text :=
  match cs with
  | [] => (none, [])
  | e :: rest =>
    if e = 'e' || e = 'E' then
      let (negative, body) := takeSign rest
      let ds := body.takeWhile Text.isDigit
      if ds.isEmpty then (none, cs) else (some (negative, ds), body.dropWhile Text.isDigit)
    else (none, cs)

/-- Takes a point with the digits after it off the front of a text. -/
def takeFraction : Text → Option Text × Text
  | .char '.' :: cs => (some (cs.takeWhile Text.isDigit), cs.dropWhile Text.isDigit)
  | cs => (none, cs)

/-- Takes the longest numeral off the front of a text. A numeral has at least
one digit outside its exponent. -/
def scan? (cs : Text) : Option (Numeral × Text) :=
  let (negative, body) := takeSign cs
  let whole := body.takeWhile Text.isDigit
  let (fraction, rest) := takeFraction (body.dropWhile Text.isDigit)
  if whole.isEmpty && (fraction.getD []).isEmpty then none
  else
    let (exponent, rest) := takeExponent rest
    some (⟨negative, whole, fraction, exponent⟩, rest)

/-! ### A numeral is not empty -/

theorem length_takeWhile_add (p : CodePoint → Bool) (cs : Text) :
    (cs.takeWhile p).length + (cs.dropWhile p).length = cs.length := by
  rw [← List.length_append, List.takeWhile_append_dropWhile]

theorem length_takeSign (cs : Text) : (takeSign cs).2.length ≤ cs.length := by
  unfold takeSign
  split <;> simp

theorem length_takeExponent (cs : Text) : (takeExponent cs).2.length ≤ cs.length := by
  cases cs with
  | nil => simp [takeExponent]
  | cons e rest =>
    have hsign := length_takeSign rest
    have hdigits := length_takeWhile_add Text.isDigit (takeSign rest).2
    simp only [takeExponent]
    split
    · split <;> simp only [List.length_cons] <;> omega
    · simp

theorem length_takeFraction (cs : Text) :
    (takeFraction cs).2.length + ((takeFraction cs).1.getD []).length ≤ cs.length := by
  unfold takeFraction
  split
  · rename_i rest
    have h := length_takeWhile_add Text.isDigit rest
    simp only [Option.getD_some, List.length_cons]
    omega
  · simp

/-- What is left after a numeral is shorter than what was there. -/
theorem length_of_scan? {cs rest : Text} {n : Numeral} (h : scan? cs = some (n, rest)) :
    rest.length < cs.length := by
  have hsign := length_takeSign cs
  have hwhole := length_takeWhile_add Text.isDigit (takeSign cs).2
  have hfraction := length_takeFraction ((takeSign cs).2.dropWhile Text.isDigit)
  have hexponent :=
    length_takeExponent (takeFraction ((takeSign cs).2.dropWhile Text.isDigit)).2
  simp only [scan?] at h
  split at h
  · simp at h
  · rename_i hne
    simp only [Option.some.injEq, Prod.mk.injEq] at h
    obtain ⟨-, rfl⟩ := h
    simp only [Bool.and_eq_true, List.isEmpty_iff, not_and] at hne
    have hpos : 0 < ((takeSign cs).2.takeWhile Text.isDigit).length +
        ((takeFraction ((takeSign cs).2.dropWhile Text.isDigit)).1.getD []).length := by
      by_cases hw : (takeSign cs).2.takeWhile Text.isDigit = []
      · have := List.length_pos_iff.2 (hne hw)
        omega
      · have := List.length_pos_iff.2 hw
        omega
    omega

/-! ### The number that a numeral stands for -/

/-- The numeral without its sign, as digits and a power of ten. -/
def decimal (n : Numeral) : Decimal :=
  let places := n.fraction.getD []
  let power : Int :=
    match n.exponent with
    | none => 0
    | some (negative, ds) => if negative then -(Text.digitsValue ds : Int) else Text.digitsValue ds
  ⟨Text.digitsValue (n.whole ++ places), power - places.length⟩

/-- The number that a numeral stands for, or the number of its digits if these
are too many for an integer. -/
def value (n : Numeral) : Except Nat Number :=
  match n.fraction, n.exponent with
  | none, none =>
    if digitLimit < n.whole.length then .error n.whole.length
    else
      let magnitude := Text.digitsValue n.whole
      .ok (.int (if n.negative then -magnitude else magnitude))
  | _, _ => .ok (.float (n.decimal.toBinary64 n.negative))

end Numeral

/-! ### Texts that are a number as a whole -/

/-- Why a text is no integer. -/
inductive IntegerFault where
  /-- The text has another form. -/
  | malformed
  /-- The integer has too many digits. -/
  | tooLong (digits : Nat)
deriving DecidableEq, Repr

/-- The digits of a text in which single underscores may stand between two
digits; nothing if the text has another form. `expected` says whether a digit
must come next. -/
def groupedDigits? (expected : Bool) : Text → Option Text
  | [] => if expected then none else some []
  | c :: cs =>
    if Text.isDigit c then (c :: ·) <$> groupedDigits? false cs
    else if c = '_' && !expected then groupedDigits? true cs
    else none

/-- Whether a code point can stand in a row of grouped digits. -/
def isGrouped (c : CodePoint) : Bool :=
  Text.isDigit c || c = '_'

/-- Reads a text that is an integer as a whole: white space around it, a sign,
and digits, which single underscores may group. Digits are counted before
whatever follows them is looked at. -/
def readInteger (t : Text) : Except IntegerFault Int :=
  let (negative, body) := Numeral.takeSign (Text.trim t)
  match groupedDigits? true (body.takeWhile isGrouped) with
  | none => .error .malformed
  | some ds =>
    if digitLimit < ds.length then .error (.tooLong ds.length)
    else if (body.dropWhile isGrouped).isEmpty then
      .ok (if negative then -(Text.digitsValue ds : Int) else Text.digitsValue ds)
    else .error .malformed

/-- A text without its underscores; nothing if one of them does not stand between
two digits. `afterDigit` says whether a digit came before. -/
def ungroup? (afterDigit : Bool) : Text → Option Text
  | [] => some []
  | c :: cs =>
    if c = '_' then
      if afterDigit && cs.head?.any Text.isDigit then ungroup? false cs else none
    else (c :: ·) <$> ungroup? (Text.isDigit c) cs

/-- A text in small letters, as far as these are ASCII letters. -/
def lowerText (t : Text) : String :=
  String.ofList (t.map fun c => c.display.toLower)

/-- The words for the numbers that are not finite, in small letters. -/
def infinityWords : List String := ["inf", "infinity"]

/-- Reads a text that is a double as a whole: white space around it, a sign, and a
numeral, in which single underscores may group the digits, or a word for a number that
is not finite, in letters of either case. -/
def readDouble? (t : Text) : Option Binary64 :=
  let cs := Text.trim t
  let (negative, body) := Numeral.takeSign cs
  if lowerText body ∈ infinityWords then some (.infinite negative)
  else if lowerText body = "nan" then some .nan
  else
    match (ungroup? false cs).bind Numeral.scan? with
    | some (n, []) => some (n.decimal.toBinary64 n.negative)
    | _ => none

end SceneReplay
