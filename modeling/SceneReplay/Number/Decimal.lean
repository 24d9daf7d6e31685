import SceneReplay.Number.Binary64

/-!
# Decimal numerals as double-precision numbers

A decimal numeral is a natural number times a power of ten
(`SceneReplay.Decimal`). Reading one gives the nearest double
(`SceneReplay.Decimal.toBinary64`). The exponent may be huge in either
direction; beyond the range of doubles no power of ten is computed.
-/

namespace SceneReplay

/-- The number `digits · 10 ^ exponent`. -/
structure Decimal where
  /-- All digits of the numeral, as one natural number. -/
  digits : Nat
  /-- The power of ten that it counts. -/
  exponent : Int
deriving DecidableEq, Repr

namespace Decimal

/-- The double nearest to a decimal numeral, with the given sign. The numeral is
below `2 ^ (log2 digits + 1) · 10 ^ exponent`, which settles the cases with an
exponent too small for any double but zero; from `10 ^ 400` on everything is
infinite. -/
def toBinary64 (negative : Bool) (d : Decimal) : Binary64 :=
  if d.digits = 0 then Binary64.ofRank negative 0
  else
    match d.exponent with
    | .ofNat e =>
      if 400 < e then .infinite negative
      else Binary64.ofRatio negative (d.digits * Nat.pow 10 e) 1
    | .negSucc e =>
      if d.digits.log2 + 400 < e then Binary64.ofRank negative 0
      else Binary64.ofRatio negative d.digits (Nat.pow 10 (e + 1))

end Decimal

end SceneReplay
