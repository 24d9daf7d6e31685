import SceneReplay.Text.Hex
import SceneReplay.Text.Printable

/-!
# Text literals

Messages show a text between quotes, so that blanks and control characters in it
can be seen. The literal stands between apostrophes, unless the text holds an
apostrophe and no quotation mark
(`SceneReplay.Text.literalQuote`). Inside, the backslash and the chosen quote
are preceded by a backslash, line feed, carriage return and tab have their
letters, and whatever else is unprintable, lone surrogates included, is written by
its number in hexadecimal, with two, four or eight digits
(`SceneReplay.Text.literalChar`).
-/

namespace SceneReplay.Text

/-- A literal has the apostrophe as its quote, but for a text that holds an
apostrophe and no quotation mark. -/
def literalQuote (t : Text) : Char :=
  if t.contains (.char '\'') && !t.contains (.char '"') then '"' else '\''

/-- How one code point is written inside a literal with the given quote. -/
def literalChar (quote : Char) (c : CodePoint) : List Char :=
  if c = quote || c = '\\' then ['\\', c.display]
  else if c = '\n' then ['\\', 'n']
  else if c = '\r' then ['\\', 'r']
  else if c = '\t' then ['\\', 't']
  else if isPrintable c then [c.display]
  else if c.code < 0x100 then '\\' :: 'x' :: hexDigits 2 c.code
  else if c.code < 0x10000 then '\\' :: 'u' :: hexDigits 4 c.code
  else '\\' :: 'U' :: hexDigits 8 c.code

/-- A text as it is shown in messages, quotes included. -/
def literal (t : Text) : String :=
  let quote := literalQuote t
  String.ofList (quote :: (t.flatMap (literalChar quote) ++ [quote]))

end SceneReplay.Text
