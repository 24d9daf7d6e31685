import SceneReplay.Number.Numeral

/-!
# Loosely written integers

Settings, options and requests give integers as texts, and these may be written more
loosely than in a scene. A *plain* integer has a minus sign or none, digits `0` to `9`
and no zero in front (`SceneReplay.plainInteger?`). Any other text is first tidied up
(`SceneReplay.tidyInteger?`): white space around it, a plus sign, zeros in front, a
fraction of zeros and single underscores are taken away. What is left must be plain.

Zeros in front do not count towards the limit on digits, and nor does the sign. A text
that starts like a plain integer with too many digits is refused for that reason,
whatever follows them.
-/

namespace SceneReplay

/-- A text without the minus sign at its front, and whether there was one. -/
def splitMinus : Text → Bool × Text
  | .char '-' :: cs => (true, cs)
  | cs => (false, cs)

/-- The integer that a text plainly spells. -/
def plainInteger? (t : Text) : Option Int :=
  let (negative, ds) := splitMinus t
  let zeroInFront := ds.head? == some (.char '0') && 1 < ds.length
  if ds.isEmpty || zeroInFront || !ds.all Text.isAsciiDigit || digitLimit < ds.length then none
  else some (if negative then -(Text.digitsValue ds : Int) else Text.digitsValue ds)

/-- How many digits the plain integer at the front of a text has; none if it starts with
a zero. -/
def plainDigits (t : Text) : Nat :=
  let run := (splitMinus t).2.takeWhile Text.isAsciiDigit
  if run.head? == some (.char '0') then 0 else run.length

/-! ### Tidying up -/

/-- Goes on with taking away zeros and underscores; `last` was the last one taken. A
point needs a digit before it, and so does the end. -/
def dropZerosFrom (last : CodePoint) : Text → Option Text
  | [] => some [last]
  | c :: cs =>
    if c = '0' || c = '_' then dropZerosFrom c cs
    else if Text.isAsciiDigit c || c = '-' then some (c :: cs)
    else if c = '.' then some (last :: c :: cs)
    else none

/-- Takes the zeros, and the underscores among them, off the front of a text that
starts with a digit or a minus sign. -/
def dropZeros? : Text → Option Text
  | [] => none
  | c :: cs =>
    if c = '0' then dropZerosFrom c cs
    else if Text.isAsciiDigit c || c = '-' then some (c :: cs)
    else none

/-- Takes the sign and the zeros off the front of a text, but keeps a minus sign. -/
def tidyFront? : Text → Option Text
  | .char '+' :: .char '-' :: _ => none
  | .char '+' :: cs => dropZeros? cs
  | .char '-' :: cs => (dropZeros? cs).map (.char '-' :: ·)
  | cs => dropZeros? cs

/-- Takes a fraction of zeros, at least one, off the end of a text. -/
def dropZeroPlaces (t : Text) : Text :=
  match t.dropWhile (· != .char '.') with
  | _ :: c :: places =>
    if (c :: places).all (· == .char '0') then t.takeWhile (· != .char '.') else t
  | _ => t

/-- Takes the underscores out of a text in which each stands alone between two other
characters. `after` says whether such a character came before. -/
def joinGroups? (after : Bool) : Text → Option Text
  | [] => some []
  | c :: cs =>
    if c = '_' then
      if after && !cs.isEmpty then joinGroups? false cs else none
    else (c :: ·) <$> joinGroups? true cs

/-- A loosely written integer as a plain one. -/
def tidyInteger? (t : Text) : Option Text := do
  let front ← tidyFront? (Text.trim t)
  joinGroups? false (dropZeroPlaces front)

/-- Reads a loosely written integer. -/
def readWhole (t : Text) : Except IntegerFault Int :=
  if digitLimit < plainDigits t then .error (.tooLong (plainDigits t))
  else
    match (plainInteger? t).orElse fun _ => (tidyInteger? t).bind plainInteger? with
    | some n => .ok n
    | none => .error .malformed

end SceneReplay
