/-!
# Texts of code points

A scene that arrives in a document may spell half a surrogate pair, which is no
character. Such a text is still read, replayed and quoted like any other, so the
texts of a scene are rows of *code points*: characters and lone surrogates
(`SceneReplay.CodePoint`). Only when a text leaves as bytes does it matter whether it
consists of characters alone; the first run of surrogates then says where it does not
(`SceneReplay.Text.firstSurrogates?`).

A string of characters is a text (`SceneReplay.Text.ofString`), and showing that text
gives the string back (`SceneReplay.Text.display_ofString`).
-/

namespace SceneReplay

/-- A character or a lone surrogate. -/
inductive CodePoint where
  /-- A character. -/
  | char (c : Char)
  /-- The surrogate that comes so many places after the first one. -/
  | surrogate (index : Fin 2048)
deriving DecidableEq, Repr

namespace CodePoint

/-- The number of the first surrogate. -/
def firstSurrogate : Nat := 0xD800

/-- The number of a code point. -/
def code : CodePoint → Nat
  | .char c => c.toNat
  | .surrogate i => firstSurrogate + i.val

/-- The code point of the given number. -/
def ofNat (n : Nat) : CodePoint :=
  if h : firstSurrogate ≤ n ∧ n - firstSurrogate < 2048 then .surrogate ⟨n - firstSurrogate, h.2⟩
  else .char (Char.ofNat n)

/-- Whether two numbers are the halves of a surrogate pair, in their order. -/
def isPair (high low : Nat) : Bool :=
  0xD800 ≤ high && high ≤ 0xDBFF && 0xDC00 ≤ low && low ≤ 0xDFFF

/-- The character that a surrogate pair stands for. -/
def ofPair (high low : Nat) : CodePoint :=
  ofNat (0x10000 + (high - 0xD800) * 0x400 + (low - 0xDC00))

/-- Whether a code point is a character of some class. -/
def satisfies (p : Char → Bool) : CodePoint → Bool
  | .char c => p c
  | .surrogate _ => false

/-- Whether a code point is no character. -/
def isSurrogate : CodePoint → Bool
  | .char _ => false
  | .surrogate _ => true

/-- A code point as a character; the replacement character stands for a
surrogate. -/
def display : CodePoint → Char
  | .char c => c
  | .surrogate _ => '\uFFFD'

end CodePoint

instance : Coe Char CodePoint := ⟨.char⟩

/-- A row of code points. -/
abbrev Text := List CodePoint

namespace Text

/-- The text of the given characters. -/
def ofChars (cs : List Char) : Text := cs.map .char

/-- The text of a string. -/
def ofString (s : String) : Text := ofChars s.toList

/-- A text as a string of characters. -/
def display (t : Text) : String := String.ofList (t.map CodePoint.display)

/-- Showing the text of a string gives the string. -/
@[simp] theorem display_ofString (s : String) : display (ofString s) = s := by
  have key : ∀ cs : List Char, cs.map (CodePoint.display ∘ CodePoint.char) = cs := by
    intro cs
    induction cs with
    | nil => rfl
    | cons c cs ih => simp [ih, CodePoint.display]
  simp [display, ofString, ofChars, key]

/-- The text of two strings, one after the other. -/
theorem ofString_append (s t : String) : ofString (s ++ t) = ofString s ++ ofString t := by
  simp [ofString, ofChars]

/-- The numbers of a text's code points, by which texts are ordered. -/
def codes (t : Text) : List Nat := t.map CodePoint.code

/-- The places of the first run of surrogates in a text, counted from the given number
on: the first of them and the last. -/
def firstSurrogates? (position : Nat) : Text → Option (Nat × Nat)
  | [] => none
  | c :: cs =>
    if c.isSurrogate then
      some (position, position + (cs.takeWhile CodePoint.isSurrogate).length)
    else firstSurrogates? (position + 1) cs

/-- A text of characters alone has no surrogates in it. -/
theorem firstSurrogates?_ofChars (position : Nat) (cs : List Char) :
    firstSurrogates? position (ofChars cs) = none := by
  induction cs generalizing position with
  | nil => rfl
  | cons c cs ih => exact ih (position + 1)

end Text

instance : Coe String Text := ⟨Text.ofString⟩

end SceneReplay
