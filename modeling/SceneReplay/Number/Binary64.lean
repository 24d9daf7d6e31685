/-!
# Double-precision numbers

The numbers of a scene are 64-bit binary floating-point numbers. They are kept
here not as machine words but by *rank*: the non-negative finite ones are
counted in increasing order, zero being number `0`, so that the neighbours of a
number are its rank plus and minus one and every rank below
`SceneReplay.Binary64.rankLimit` is a number in exactly one way.

Every finite double is a whole multiple of the smallest positive one, `2⁻¹⁰⁷⁴`.
`SceneReplay.Binary64.units` says which multiple the number of a given rank is;
all arithmetic on values is done on these natural numbers and is exact.
`SceneReplay.Binary64.ofRatio` goes the other way and rounds a quotient to the
nearest double, an exact half going to the even rank. It is the only place where
rounding happens: decimal texts and integers are read through it.
-/

namespace SceneReplay

/-- How many non-negative finite doubles there are; also the rank at which
infinity begins. -/
abbrev Binary64.rankLimit : Nat := 2047 * Nat.pow 2 52

/-- A double-precision number. The two zeros are told apart, the
not-a-numbers are not. -/
inductive Binary64 where
  /-- The result that is no number. -/
  | nan
  /-- One of the two infinities. -/
  | infinite (negative : Bool)
  /-- A finite number, by its sign and the rank of its magnitude. -/
  | finite (negative : Bool) (rank : Fin Binary64.rankLimit)
deriving DecidableEq

namespace Binary64

/-- How many units make one. -/
abbrev unitsPerOne : Nat := Nat.pow 2 1074

/-- The magnitude of a given rank, in units of `2⁻¹⁰⁷⁴`. The first `2⁵²` ranks
count units; from there on each block of `2⁵²` ranks counts steps twice as wide
as the block before. -/
def units (rank : Nat) : Nat :=
  if rank < Nat.pow 2 52 then rank
  else (Nat.pow 2 52 + rank % Nat.pow 2 52) * Nat.pow 2 (rank / Nat.pow 2 52 - 1)

/-- A quotient rounded to the nearest integer, a half to the even one. -/
def roundDiv (num den : Nat) : Nat :=
  let q := num / den
  let r := num % den
  if 2 * r < den then q
  else if den < 2 * r then q + 1
  else q + q % 2

/-- The rank of the double nearest to `num / den`. It is at least `rankLimit`
when that double would be too large. -/
def nearestRank (num den : Nat) : Nat :=
  let scaled := num * unitsPerOne
  let block := (scaled / den).log2 - 52
  block * Nat.pow 2 52 + roundDiv scaled (den * Nat.pow 2 block)

/-- The finite number of a given rank, or infinity from `rankLimit` on. -/
def ofRank (negative : Bool) (rank : Nat) : Binary64 :=
  if h : rank < rankLimit then .finite negative ⟨rank, h⟩ else .infinite negative

/-- The double nearest to `num / den`, with the given sign. -/
def ofRatio (negative : Bool) (num den : Nat) : Binary64 :=
  ofRank negative (nearestRank num den)

/-- The number itself, if it is finite. -/
def finite? : Binary64 → Option Binary64
  | .finite s r => some (.finite s r)
  | _ => none

/-- The double nearest to an integer; nothing if that would be infinite. -/
def ofInt? (n : Int) : Option Binary64 := (ofRatio (n < 0) n.natAbs 1).finite?

/-- Zero, without a sign. -/
def zero : Binary64 := .finite false ⟨0, by decide⟩

/-- Whether the number is one of the two zeros. -/
def isZero : Binary64 → Bool
  | .finite _ r => r.val == 0
  | _ => false

/-- The value of a finite number in units. -/
def signedUnits (negative : Bool) (rank : Nat) : Int :=
  if negative then -(units rank : Int) else units rank

/-- Whether the number is finite and whole. -/
def isWhole : Binary64 → Bool
  | .finite _ r => units r % unitsPerOne == 0
  | _ => false

/-- The whole part of a finite number: its value with the fraction cut off. -/
def truncate? : Binary64 → Option Int
  | .finite s r => some (Int.tdiv (signedUnits s r) unitsPerOne)
  | _ => none

/-- Whether two numbers have the same value. The two zeros have; a
not-a-number has the value of nothing, itself included. -/
def sameValue : Binary64 → Binary64 → Bool
  | .finite s r, .finite s' r' => signedUnits s r == signedUnits s' r'
  | .infinite s, .infinite s' => s == s'
  | _, _ => false

/-- Whether the value is exactly the given integer. -/
def hasValue (x : Binary64) (n : Int) : Bool :=
  match x with
  | .finite s r => signedUnits s r == n * unitsPerOne
  | _ => false

end Binary64

end SceneReplay
