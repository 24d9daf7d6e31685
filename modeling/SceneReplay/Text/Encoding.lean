import SceneReplay.Text.Utf8

/-!
# Bytes of a document, in any of three encodings

A document arrives as bytes in UTF-8, UTF-16 or UTF-32. A byte-order mark at the front
tells which; without one the places of the zero bytes do, since a document starts with
two ASCII characters (`SceneReplay.Text.detectEncoding`). In all three a surrogate that is not
half of a pair is kept as it is, and in UTF-8 one that is half of a pair too.

Going the other way, a text with lone surrogates has no UTF-8 form
(`SceneReplay.Text.unencodable?`).
-/

namespace SceneReplay.Text

/-- How bytes spell a text. -/
inductive Encoding where
  /-- One to four bytes for a character. -/
  | utf8
  /-- Two bytes for a unit, the more significant one first or last. -/
  | utf16 (bigEndian : Bool)
  /-- Four bytes for a code point, the most significant one first or last. -/
  | utf32 (bigEndian : Bool)
deriving DecidableEq, Repr

/-- The encoding of bytes that start with a byte-order mark, and what follows it. -/
def marked? : List UInt8 → Option (Encoding × List UInt8)
  | 0x00 :: 0x00 :: 0xFE :: 0xFF :: bs => some (.utf32 true, bs)
  | 0xFF :: 0xFE :: 0x00 :: 0x00 :: bs => some (.utf32 false, bs)
  | 0xFE :: 0xFF :: bs => some (.utf16 true, bs)
  | 0xFF :: 0xFE :: bs => some (.utf16 false, bs)
  | 0xEF :: 0xBB :: 0xBF :: bs => some (.utf8, bs)
  | _ => none

/-- The encoding of bytes without a byte-order mark. -/
def unmarkedEncoding : List UInt8 → Encoding
  | a :: b :: c :: d :: _ =>
    if a = 0 then (if b = 0 then .utf32 true else .utf16 true)
    else if b = 0 then (if c = 0 && d = 0 then .utf32 false else .utf16 false)
    else .utf8
  | [a, b] => if a = 0 then .utf16 true else if b = 0 then .utf16 false else .utf8
  | _ => .utf8

/-- The encoding of some bytes, and the bytes without their byte-order mark. -/
def detectEncoding (bytes : List UInt8) : Encoding × List UInt8 :=
  (marked? bytes).getD (unmarkedEncoding bytes, bytes)

/-- The number that some bytes spell. -/
def bytesNumber (bigEndian : Bool) (bs : List UInt8) : Nat :=
  (if bigEndian then bs else bs.reverse).foldl (fun n b => n * 256 + b.toNat) 0

/-- Bytes as units of two bytes; nothing if one byte is left over. -/
def units16? (bigEndian : Bool) : List UInt8 → Option (List Nat)
  | [] => some []
  | a :: b :: bs => (bytesNumber bigEndian [a, b] :: ·) <$> units16? bigEndian bs
  | _ => none

/-- Bytes as units of four bytes; nothing if some bytes are left over. -/
def units32? (bigEndian : Bool) : List UInt8 → Option (List Nat)
  | [] => some []
  | a :: b :: c :: d :: bs =>
    (bytesNumber bigEndian [a, b, c, d] :: ·) <$> units32? bigEndian bs
  | _ => none

/-- The text of units of two bytes: surrogate pairs stand for one character each. -/
def joinPairs : List Nat → Text
  | [] => []
  | [n] => [CodePoint.ofNat n]
  | high :: low :: us =>
    if CodePoint.isPair high low then CodePoint.ofPair high low :: joinPairs us
    else CodePoint.ofNat high :: joinPairs (low :: us)

/-- The greatest number of a code point. -/
def lastCode : Nat := 0x10FFFF

/-- The text that bytes spell in an encoding. -/
def decode? (bytes : List UInt8) : Encoding → Option Text
  | .utf8 => (decodeFrom laxLeadByte? CodePoint.ofNat 0 none bytes).toOption
  | .utf16 big => (units16? big bytes).map joinPairs
  | .utf32 big => do
    let ns ← units32? big bytes
    if ns.all (· ≤ lastCode) then some (ns.map CodePoint.ofNat) else none

/-- The text of a document that arrived as bytes. -/
def ofBytes? (bytes : List UInt8) : Option Text :=
  let (encoding, rest) := detectEncoding bytes
  decode? rest encoding

/-- Why a text has no UTF-8 form: its first run of lone surrogates. -/
def unencodable? (t : Text) : Option String :=
  (firstSurrogates? 0 t).map fun (first, last) =>
    let what :=
      if first = last then
        "character '\\u"
          ++ String.ofList (hexDigits 4 ((t[first]?).map CodePoint.code |>.getD 0))
          ++ "' in position " ++ toString first
      else "characters in position " ++ toString first ++ "-" ++ toString last
    "'utf-8' codec can't encode " ++ what ++ ": surrogates not allowed"

end SceneReplay.Text
