import SceneReplay.Text.Basic

/-!
# Decimal digits

A decimal digit is any character of the Unicode category *decimal number*, not
only `0` to `9`. The standard lays each script's ten digits out in one run, in
order of value, so the whole class is given by the code points of its zeros
(`SceneReplay.Text.digitZeros`), and the value of a digit is its distance from
the zero of its run (`SceneReplay.Text.digitValue?`).
-/

namespace SceneReplay.Text

/-- The code points of the zeros of all decimal digit runs, in ascending
order. -/
def digitZeros : List Nat :=
  [0x0030, 0x0660, 0x06F0, 0x07C0, 0x0966, 0x09E6, 0x0A66, 0x0AE6,
   0x0B66, 0x0BE6, 0x0C66, 0x0CE6, 0x0D66, 0x0DE6, 0x0E50, 0x0ED0,
   0x0F20, 0x1040, 0x1090, 0x17E0, 0x1810, 0x1946, 0x19D0, 0x1A80,
   0x1A90, 0x1B50, 0x1BB0, 0x1C40, 0x1C50, 0xA620, 0xA8D0, 0xA900,
   0xA9D0, 0xA9F0, 0xAA50, 0xABF0, 0xFF10, 0x104A0, 0x10D30, 0x11066,
   0x110F0, 0x11136, 0x111D0, 0x112F0, 0x11450, 0x114D0, 0x11650, 0x116C0,
   0x11730, 0x118E0, 0x11950, 0x11C50, 0x11D50, 0x11DA0, 0x16A60, 0x16AC0,
   0x16B50, 0x1D7CE, 0x1D7D8, 0x1D7E2, 0x1D7EC, 0x1D7F6, 0x1E140, 0x1E2F0,
   0x1E950, 0x1FBF0]

/-- The value of a decimal digit of any script; nothing for other
characters. -/
def digitValue? (c : CodePoint) : Option Nat :=
  (digitZeros.find? fun z => z ≤ c.code && c.code < z + 10).map (c.code - ·)

/-- Whether a character is a decimal digit of some script. -/
def isDigit (c : CodePoint) : Bool :=
  (digitValue? c).isSome

/-- The digits `0` to `9`. -/
def isAsciiDigit (c : CodePoint) : Bool := c.satisfies Char.isDigit

/-- The number that a run of digits spells, most significant digit first.
Characters that are no digits count as zero. -/
def digitsValue (cs : Text) : Nat :=
  cs.foldl (fun n c => n * 10 + (digitValue? c).getD 0) 0

@[simp] theorem digitsValue_nil : digitsValue [] = 0 := rfl

/-- One more digit multiplies by ten and adds. -/
theorem digitsValue_append_singleton (cs : Text) (c : CodePoint) :
    digitsValue (cs ++ [c]) = digitsValue cs * 10 + (digitValue? c).getD 0 := by
  simp [digitsValue]

end SceneReplay.Text
