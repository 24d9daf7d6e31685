import SceneReplay.Text.Literal

/-!
# Reading UTF-8

Files and request bodies hold bytes. `SceneReplay.Text.decodeUtf8` turns them
into characters or says where and why this is impossible
(`SceneReplay.Text.Utf8Error`): a byte that starts no character, a character
broken off by a byte that does not continue it, or one broken off by the end of
the data. Overlong forms, surrogates and numbers past the last code point are
excluded by the range allowed to the second byte (`SceneReplay.Text.leadByte?`). A reader that
lets surrogates pass allows one range more (`SceneReplay.Text.laxLeadByte?`).
-/

namespace SceneReplay.Text

/-- Why bytes are no UTF-8 text. The position is that of the first bad byte. -/
inductive Utf8Error where
  /-- A byte that no character starts with. -/
  | invalidStart (byte : UInt8) (position : Nat)
  /-- A character of which `count` bytes are good, the next one not. -/
  | invalidContinuation (byte : UInt8) (position count : Nat)
  /-- A character of which only the first `count` bytes are there. -/
  | unexpectedEnd (byte : UInt8) (position count : Nat)
deriving DecidableEq, Repr

/-- The span of bytes that could not be read, with the reason. -/
def Utf8Error.describe (byte : UInt8) (position count : Nat) (reason : String) : String :=
  let what :=
    if count = 1 then
      "byte 0x" ++ String.ofList (hexDigits 2 byte.toNat) ++ " in position " ++ toString position
    else
      "bytes in position " ++ toString position ++ "-" ++ toString (position + count - 1)
  "'utf-8' codec can't decode " ++ what ++ ": " ++ reason

/-- The wording of a decoding error. -/
def Utf8Error.message : Utf8Error → String
  | .invalidStart b p => describe b p 1 "invalid start byte"
  | .invalidContinuation b p n => describe b p n "invalid continuation byte"
  | .unexpectedEnd b p n => describe b p n "unexpected end of data"

/-- Whether a byte continues a character. -/
def isContinuation (b : UInt8) : Bool :=
  0x80 ≤ b && b ≤ 0xBF

/-- How a first byte announces the rest of its character: how many bytes follow
it, and the range of the first of these. -/
def leadByte? (b : UInt8) : Option (Nat × UInt8 × UInt8) :=
  if b < 0x80 then some (0, 0, 0)
  else if 0xC2 ≤ b && b ≤ 0xDF then some (1, 0x80, 0xBF)
  else if b = 0xE0 then some (2, 0xA0, 0xBF)
  else if b = 0xED then some (2, 0x80, 0x9F)
  else if 0xE1 ≤ b && b ≤ 0xEF then some (2, 0x80, 0xBF)
  else if b = 0xF0 then some (3, 0x90, 0xBF)
  else if b = 0xF4 then some (3, 0x80, 0x8F)
  else if 0xF1 ≤ b && b ≤ 0xF3 then some (3, 0x80, 0xBF)
  else none

/-- How a first byte announces the rest of its character where a surrogate counts as one. -/
def laxLeadByte? (b : UInt8) : Option (Nat × UInt8 × UInt8) :=
  if b = 0xED then some (2, 0x80, 0xBF) else leadByte? b

/-- The bits that a first byte contributes when `n` bytes follow it. -/
def leadBits (b : UInt8) (n : Nat) : Nat :=
  if n = 0 then b.toNat else b.toNat % Nat.pow 2 (6 - n)

/-- Reads UTF-8. `lead?` says how a first byte announces the rest of its character, and
`ofCode` gives what the bits of a character stand for. `position` is that of the next byte;
`pending` is the character begun so far: its first byte, how many of its bytes were read, its
bits so far, how many bytes are still due and the range of the next. -/
def decodeFrom {α : Type} (lead? : UInt8 → Option (Nat × UInt8 × UInt8)) (ofCode : Nat → α)
    (position : Nat) :
    Option (UInt8 × Nat × Nat × Nat × UInt8 × UInt8) → List UInt8 → Except Utf8Error (List α)
  | none, [] => .ok []
  | some (lead, count, _), [] => .error (.unexpectedEnd lead (position - count) count)
  | none, b :: bs =>
    match lead? b with
    | none => .error (.invalidStart b position)
    | some (0, _, _) => (ofCode b.toNat :: ·) <$> decodeFrom lead? ofCode (position + 1) none bs
    | some (n + 1, lo, hi) =>
      decodeFrom lead? ofCode (position + 1) (some (b, 1, leadBits b (n + 1), n, lo, hi)) bs
  | some (lead, count, bits, due, lo, hi), b :: bs =>
    if lo ≤ b && b ≤ hi then
      let bits := bits * 64 + b.toNat % 64
      match due with
      | 0 => (ofCode bits :: ·) <$> decodeFrom lead? ofCode (position + 1) none bs
      | due + 1 =>
        decodeFrom lead? ofCode (position + 1) (some (lead, count + 1, bits, due, 0x80, 0xBF)) bs
    else .error (.invalidContinuation lead (position - count) count)

/-- The text that bytes spell, or why they spell none. -/
def decodeUtf8 (bytes : List UInt8) : Except Utf8Error String :=
  String.ofList <$> decodeFrom leadByte? Char.ofNat 0 none bytes

/-- A file's text as it is read: every carriage return, with the line feed after
it if there is one, becomes a line feed. -/
def unifyNewlines : List Char → List Char
  | [] => []
  | '\r' :: '\n' :: cs => '\n' :: unifyNewlines cs
  | c :: cs => (if c = '\r' then '\n' else c) :: unifyNewlines cs

end SceneReplay.Text
