import SceneReplay.Number.Numeral
import SceneReplay.Rib.Token
import SceneReplay.Text.Literal

/-!
# From code points to tokens

`SceneReplay.Rib.scan` takes one piece off the front of a text: a run of spaces,
a line end, a token, or the place where no token can be read
(`SceneReplay.Rib.Trouble`). `SceneReplay.Rib.lex` does so until the text is used
up. After a trouble it goes on at the end of that line, so that each line has at
most one and the other lines are read as if it were not there; only an integer
with too many digits ends the reading for good.

No piece but a line end contains a line feed, which is why the lines can be
counted on the way.
-/

namespace SceneReplay.Rib

/-! ### Quoted texts -/

/-- What a backslash and the given code point stand for. -/
def unescape : CodePoint → CodePoint
  | .char 'n' => '\n'
  | .char 't' => '\t'
  | .char 'r' => '\r'
  | .char 'b' => '\x08'
  | .char 'f' => '\x0C'
  | c => c

/-- Takes a quoted text off the front of what follows its opening quote: the
code points that it stands for, and the rest after the closing quote. There is
none if the line or the text ends first. -/
def takeQuoted : Text → Option (Text × Text)
  | [] => none
  | .char '"' :: cs => some ([], cs)
  | .char '\n' :: _ => none
  | .char '\\' :: [] => none
  | .char '\\' :: .char '\n' :: _ => none
  | .char '\\' :: c :: cs => (takeQuoted cs).map fun (body, rest) => (unescape c :: body, rest)
  | c :: cs => (takeQuoted cs).map fun (body, rest) => (c :: body, rest)

theorem length_of_takeQuoted {cs body rest : Text}
    (h : takeQuoted cs = some (body, rest)) : rest.length < cs.length := by
  fun_induction takeQuoted cs generalizing body rest with
  | case1 => simp at h
  | case2 cs => simp at h; simp [h]
  | case3 => simp at h
  | case4 => simp at h
  | case5 => simp at h
  | case6 c cs _ ih =>
    simp only [Option.map_eq_some_iff, Prod.mk.injEq, Prod.exists] at h
    obtain ⟨b, r, hr, -, rfl⟩ := h
    have := ih hr
    simp only [List.length_cons]
    omega
  | case7 c cs _ _ _ _ _ ih =>
    simp only [Option.map_eq_some_iff, Prod.mk.injEq, Prod.exists] at h
    obtain ⟨b, r, hr, -, rfl⟩ := h
    have := ih hr
    simp only [List.length_cons]
    omega

/-! ### One piece -/

/-- Spaces that stand between tokens of a line. -/
def isSpace (c : CodePoint) : Bool :=
  c.satisfies fun c => c = ' ' || c = '\t' || c = '\r' || c = '\x0C' || c = '\x0B'

/-- Characters that a request name starts with: ASCII letters and the
underscore. -/
def isNameStart (c : CodePoint) : Bool :=
  c.satisfies fun c => c.isAlpha || c = '_'

/-- Characters that a request name goes on with. -/
def isNameRest (c : CodePoint) : Bool :=
  c.satisfies fun c => c.isAlphanum || c = '_'

/-- Whether a code point stands within a line. -/
def inLine (c : CodePoint) : Bool :=
  c != .char '\n'

/-- Why no token can be read at some place. -/
inductive Trouble where
  /-- A quoted text does not end on its line. -/
  | unterminated
  /-- No token starts with this code point. -/
  | unexpected (c : CodePoint)
  /-- An integer has too many digits. -/
  | tooManyDigits (digits : Nat)
deriving DecidableEq

/-- The wording of a trouble. -/
def Trouble.detail : Trouble → String
  | .unterminated => "unterminated string"
  | .unexpected c => "unexpected character " ++ Text.literal [c]
  | .tooManyDigits n => "integer of " ++ toString n ++ " digits"

/-- Whether reading can go on after a trouble. -/
def Trouble.isLocal : Trouble → Bool
  | .tooManyDigits _ => false
  | _ => true

/-- What stands at the front of a text. -/
inductive Piece where
  /-- A run of spaces. -/
  | spaces
  /-- The end of a line. -/
  | lineEnd
  /-- A token. -/
  | lexeme (l : Lexeme)
  /-- Nothing that could be read. -/
  | trouble (t : Trouble)
deriving DecidableEq

/-- The piece that a numeral makes. -/
def numeralPiece (n : Numeral) : Piece :=
  match n.value with
  | .ok v => .lexeme (.number v)
  | .error digits => .trouble (.tooManyDigits digits)

/-- A comment, given what follows its first `#`. -/
def scanComment : Text → Piece × Text
  | .char '#' :: cs => (.lexeme (.hint (cs.takeWhile inLine)), cs.dropWhile inLine)
  | cs => (.lexeme (.comment (cs.takeWhile inLine)), cs.dropWhile inLine)

/-- A text, given what follows its opening quote. -/
def scanQuoted (cs : Text) : Piece × Text :=
  match takeQuoted cs with
  | some (body, rest) => (.lexeme (.text body), rest)
  | none => (.trouble .unterminated, cs)

/-- A number, a bracket or a name, given its first code point and what follows
it. -/
def scanWord (c : CodePoint) (cs : Text) : Piece × Text :=
  match Numeral.scan? (c :: cs) with
  | some (n, rest) => (numeralPiece n, rest)
  | none =>
    if c = '[' then (.lexeme .opening, cs)
    else if c = ']' then (.lexeme .closing, cs)
    else if isNameStart c then
      (.lexeme (.name (Text.display (c :: cs.takeWhile isNameRest))), cs.dropWhile isNameRest)
    else (.trouble (.unexpected c), cs)

/-- The piece at the front of a text, given its first code point and what follows
it, and the rest after the piece. A trouble takes up one code point. -/
def scan (c : CodePoint) (cs : Text) : Piece × Text :=
  if isSpace c then (.spaces, cs.dropWhile isSpace)
  else if c = '\n' then (.lineEnd, cs)
  else if c = '#' then scanComment cs
  else if c = '"' then scanQuoted cs
  else scanWord c cs

theorem length_dropWhile_le (p : CodePoint → Bool) (cs : Text) :
    (cs.dropWhile p).length ≤ cs.length := by
  have := Numeral.length_takeWhile_add p cs
  omega

theorem length_scanComment (cs : Text) : (scanComment cs).2.length ≤ cs.length := by
  unfold scanComment
  split
  · rename_i rest
    have := length_dropWhile_le inLine rest
    simp only [List.length_cons]
    omega
  · exact length_dropWhile_le inLine cs

theorem length_scanQuoted (cs : Text) : (scanQuoted cs).2.length ≤ cs.length := by
  unfold scanQuoted
  split
  · rename_i h
    exact Nat.le_of_lt (length_of_takeQuoted h)
  · exact Nat.le_refl _

theorem length_scanWord (c : CodePoint) (cs : Text) : (scanWord c cs).2.length ≤ cs.length := by
  unfold scanWord
  split
  · rename_i h
    exact Nat.le_of_lt_succ (Numeral.length_of_scan? h)
  · split
    · exact Nat.le_refl _
    · split
      · exact Nat.le_refl _
      · split
        · exact length_dropWhile_le isNameRest cs
        · exact Nat.le_refl _

/-- What is left after a piece is at most what followed its first code point. -/
theorem length_scan (c : CodePoint) (cs : Text) : (scan c cs).2.length ≤ cs.length := by
  unfold scan
  split
  · exact length_dropWhile_le isSpace cs
  · split
    · exact Nat.le_refl _
    · split
      · exact length_scanComment cs
      · split
        · exact length_scanQuoted cs
        · exact length_scanWord c cs

/-! ### The whole text -/

/-- One step of reading a text. -/
inductive Lexed where
  /-- A token was read. -/
  | token (t : Token)
  /-- None could be read, on that line and with that many code points left. -/
  | trouble (t : Trouble) (line : Int) (remaining : Nat)
deriving DecidableEq

/-- Reads a text that starts on the given line: its tokens, and a trouble in
place of whatever could not be read. -/
def lex (line : Int) : Text → List Lexed
  | [] => []
  | c :: cs =>
    match scan c cs, length_scan c cs with
    | (.spaces, rest), _h => lex line rest
    | (.lineEnd, rest), _h => lex (line + 1) rest
    | (.lexeme l, rest), _h => .token ⟨l, line⟩ :: lex line rest
    | (.trouble t, rest), _h =>
      .trouble t line (cs.length + 1) ::
        if t.isLocal then lex line (rest.dropWhile inLine) else []
termination_by cs => cs.length
decreasing_by
  · exact Nat.lt_succ_of_le _h
  · exact Nat.lt_succ_of_le _h
  · exact Nat.lt_succ_of_le _h
  · exact Nat.lt_succ_of_le (Nat.le_trans (length_dropWhile_le inLine rest) _h)

/-- The tokens among the steps of reading. -/
def tokensOf (steps : List Lexed) : List Token :=
  steps.filterMap fun
    | .token t => some t
    | .trouble .. => none

/-- What was read up to the first trouble, and that trouble with the line and the
number of code points left. -/
def untilTrouble : List Lexed → List Token × Option (Trouble × Int × Nat)
  | [] => ([], none)
  | .token t :: steps => let (ts, end?) := untilTrouble steps; (t :: ts, end?)
  | .trouble t line remaining :: _ => ([], some (t, line, remaining))

/-! ### Reading from an offset -/

/-- The code point at an offset; one before the text is counted from its end. -/
def codePointAt? (text : Text) (offset : Int) : Option CodePoint :=
  let place := if offset < 0 then offset + text.length else offset
  if place < 0 then none else text[place.toNat]?

/-- The trouble with a code point that no token starts with. -/
def Trouble.ofCodePoint (c : CodePoint) : Trouble :=
  if c = '"' then .unterminated else .unexpected c

/-- How the reading of a text ends. -/
inductive Ending where
  /-- With the text. -/
  | complete
  /-- At a trouble, on that line and at that offset. -/
  | trouble (t : Trouble) (line offset : Int)
  /-- At an offset where the text has no code point. -/
  | outside
  /-- At an offset that is out of all bounds. -/
  | unbounded

/-- No offset lies further than this before a text. -/
def offsetBound : Nat := Nat.pow 2 63

/-- How reading ends that cannot even start at an offset before the text. -/
def endingBefore (text : Text) (offset line : Int) : Ending :=
  match codePointAt? text offset with
  | some c => .trouble (.ofCodePoint c) line offset
  | none => .outside

/-- Whether something can be read at the start of a text. -/
def isReadable : Text → Bool
  | [] => false
  | c :: cs =>
    match (scan c cs).1 with
    | .trouble t => !t.isLocal
    | _ => true

/-- The tokens of a text from an offset on, up to the first trouble. An offset before
the text counts as its start, as long as something can be read there. -/
def readFrom (text : Text) (offset line : Int) : List Token × Ending :=
  if offset < -(offsetBound : Int) then ([], .unbounded)
  else if offset < 0 && !isReadable text then ([], endingBefore text offset line)
  else
    match untilTrouble (lex line (text.drop offset.toNat)) with
    | (tokens, none) => (tokens, .complete)
    | (tokens, some (t, line, remaining)) =>
      (tokens, .trouble t line (text.length - remaining))

end SceneReplay.Rib
