import SceneReplay.Number.Shortest

/-!
# Numbers

A number in a scene is an integer of any size or a double. The two kinds are
kept apart when a number is stored or written (`1` and `1.0`) but not when it is
compared: `SceneReplay.Number.sameValue` is exact, so that an integer and a
double are equal only if the double has precisely the integer's value.
-/

namespace SceneReplay

/-- An integer or a double. -/
inductive Number where
  /-- An integer of any size. -/
  | int (n : Int)
  /-- A double. -/
  | float (x : Binary64)
deriving DecidableEq

namespace Number

/-- Equality of values, across the two kinds. -/
def sameValue : Number → Number → Bool
  | .int m, .int n => m == n
  | .int m, .float y => y.hasValue m
  | .float x, .int n => x.hasValue n
  | .float x, .float y => x.sameValue y

/-- Whether the number is zero. -/
def isZero : Number → Bool
  | .int n => n == 0
  | .float x => x.isZero

/-- The number as a double, rounded if need be; nothing for an integer too large
for any double. -/
def toBinary64? : Number → Option Binary64
  | .int n => Binary64.ofInt? n
  | .float x => some x

/-- The number as an integer, if it is whole. -/
def toWhole? : Number → Option Int
  | .int n => some n
  | .float x => if x.isWhole then x.truncate? else none

/-- A number as it is written: doubles always show a point or an exponent. -/
def text : Number → String
  | .int n => toString n
  | .float x => x.text

end Number

end SceneReplay
