import SceneReplay.Number.Decimal

/-!
# The shortest numeral that reads back

A double is written with the fewest digits that still read back as the same
double, and among the numerals of that length with the nearest one. The search
goes from coarse powers of ten to fine ones: on the grid of multiples of `10 ^ s`
the only candidates are the two neighbours of the value
(`SceneReplay.Decimal.onGrid?`), and each is *tested* by reading it
(`SceneReplay.Decimal.toBinary64`). Twenty grids from a bound on the value
downwards reach seventeen digits, which always suffice; the exact value stands
behind as a last resort, so what is written reads back by construction.

`SceneReplay.Decimal.render` lays the digits out, as `SceneReplay.Layout` says.
-/

namespace SceneReplay

namespace Decimal

/-- The value of a rank as a quotient over the multiples of `10 ^ s`. -/
def gridRatio (rank : Nat) (s : Int) : Nat × Nat :=
  match s with
  | .ofNat e => (Binary64.units rank, Binary64.unitsPerOne * Nat.pow 10 e)
  | .negSucc e => (Binary64.units rank * Nat.pow 10 (e + 1), Binary64.unitsPerOne)

/-- A multiple of `10 ^ s` that reads back as the number of the given rank: the
nearer of the value's two neighbours on that grid if it does, else the other one
if that does. -/
def onGrid? (rank : Nat) (s : Int) : Option Decimal :=
  let ratio := gridRatio rank s
  let near := Binary64.roundDiv ratio.1 ratio.2
  let below := ratio.1 / ratio.2
  let far := if near = below then below + 1 else below
  [near, far].map (Decimal.mk · s) |>.find? fun d =>
    d.toBinary64 false = Binary64.ofRank false rank

/-- The first of the `fuel` grids from `10 ^ s` downwards on which a numeral
reads back. -/
def search (rank : Nat) : Nat → Int → Option Decimal
  | 0, _ => none
  | fuel + 1, s => (onGrid? rank s).orElse fun _ => search rank fuel (s - 1)

/-- A power of ten above the value of a rank: `log₁₀ 2` is below `0.30103`, and
one is added for the error of the product. -/
def gridAbove (rank : Nat) : Int :=
  let bits : Int := (Binary64.units rank).log2 + 1 - 1074
  Int.fdiv (bits * 30103) 100000 + 1

/-- The exact value of a rank, as a numeral with 1074 places. -/
def exact (rank : Nat) : Decimal :=
  ⟨Binary64.units rank * Nat.pow 5 1074, -1074⟩

/-- The shortest numeral that reads back as the number of the given rank, the
nearest of that length. -/
def shortest (rank : Nat) : Decimal :=
  (search rank 20 (gridAbove rank)).getD (exact rank)

end Decimal

/-- How the digits of a numeral are laid out. The *magnitude* of a numeral is
the power of ten that its first digit counts. -/
structure Layout where
  /-- The least magnitude that is written without an exponent. -/
  leastPlain : Int
  /-- The least magnitude above it that is written with one. -/
  leastLarge : Int
  /-- The least number of digits of an exponent. -/
  exponentDigits : Nat

/-- Numbers from `0.0001` to below `10 ^ 16` are written plainly, with at least
one place after the point; others with an exponent of at least two digits and
its sign. -/
def Layout.standard : Layout where
  leastPlain := -4
  leastLarge := 16
  exponentDigits := 2

namespace Decimal

/-- A natural number in decimal digits, filled up with zeros in front. -/
def padded (width n : Nat) : List Char :=
  let ds := Nat.toDigits 10 n
  List.replicate (width - ds.length) '0' ++ ds

/-- Lays out a numeral without its sign. -/
def render (layout : Layout) (d : Decimal) : List Char :=
  let ds := Nat.toDigits 10 d.digits
  let magnitude : Int := ds.length - 1 + d.exponent
  if layout.leastPlain ≤ magnitude && magnitude < layout.leastLarge then
    if 0 ≤ d.exponent then ds ++ List.replicate d.exponent.toNat '0' ++ ['.', '0']
    else if 0 ≤ magnitude then
      let whole := (magnitude + 1).toNat
      ds.take whole ++ '.' :: ds.drop whole
    else '0' :: '.' :: List.replicate (-magnitude - 1).toNat '0' ++ ds
  else
    let mantissa :=
      match ds with
      | [] => []
      | [c] => [c]
      | c :: cs => c :: '.' :: cs
    let sign := if magnitude < 0 then '-' else '+'
    mantissa ++ 'e' :: sign :: padded layout.exponentDigits magnitude.natAbs

end Decimal

namespace Binary64

/-- The magnitude of a finite number as it is written. -/
def magnitudeText (rank : Nat) : List Char :=
  if rank = 0 then ['0', '.', '0'] else (Decimal.shortest rank).render Layout.standard

/-- A double as it is written: the shortest numeral that reads back, always with
a point or an exponent, or the names of the numbers that are not finite. -/
def text : Binary64 → String
  | .nan => "nan"
  | .infinite s => if s then "-inf" else "inf"
  | .finite s r => String.ofList (if s then '-' :: magnitudeText r else magnitudeText r)

end Binary64

end SceneReplay
