import SceneReplay.Text.Digit
import SceneReplay.Text.Hex
import SceneReplay.Text.Pieces

/-!
# Hosts given as numbers

A host may be given by its number instead of a name: as four octets with dots between
them (`SceneReplay.Web.isFourOctets`), or as eight groups of hexadecimal digits with
colons between them, of which one row of zeros may be left out and the last two may be
four octets (`SceneReplay.Web.isEightGroups`).

Whether a host is *meant* as four octets is asked first and more generously
(`SceneReplay.Web.looksLikeOctets`): four runs of digits with any characters between
them.
-/

namespace SceneReplay.Web

/-! ### Four octets -/

/-- Whether a text is an octet: a number up to 255, without a zero in front. -/
def isOctet (cs : List Char) : Bool :=
  !cs.isEmpty && cs.all Char.isDigit && cs.length ≤ 3
    && (cs = ['0'] || cs.head? != some '0')
    && Text.digitsValue (Text.ofChars cs) ≤ 255

/-- Whether a text is four octets with dots between them. -/
def isFourOctets (cs : List Char) : Bool :=
  let octets := Text.pieces '.' cs
  octets.length = 4 && octets.all isOctet

/-- How reading four runs of digits may go on with a character. A state tells how many
separators are still to come, and whether the present run has a digit yet. -/
def continueRuns (c : Char) (state : Nat × Bool) : List (Nat × Bool) :=
  (if c.isDigit then [(state.1, true)] else [])
    ++ (if state.2 && 0 < state.1 then [(state.1 - 1, false)] else [])

/-- Whether a text is four runs of digits with one character of any kind between each
two. -/
def looksLikeOctets (cs : List Char) : Bool :=
  (cs.foldl (fun states c => (states.flatMap (continueRuns c)).eraseDups) [(3, false)]).contains
    (0, true)

/-! ### Eight groups -/

/-- Whether a text is a group: one to four hexadecimal digits. -/
def isGroup (cs : List Char) : Bool :=
  !cs.isEmpty && cs.length ≤ 4 && cs.all fun c => (Text.hexValue? c).isSome

/-- The groups of a row whose last piece may be four octets, which count as two. -/
def groupsOf? (row : List (List Char)) : Option (List (List Char)) :=
  match row.getLast? with
  | none => none
  | some last =>
    if !last.contains '.' then some row
    else if isFourOctets last then some (row.dropLast ++ [['0'], ['0']])
    else none

/-- The positions of the empty pieces of a row, besides its first and its last. -/
def gaps (row : List (List Char)) : List Nat :=
  (List.range row.length).filter fun i =>
    0 < i && i + 1 < row.length && row[i]? == some []

/-- Groups before or after a gap. An empty piece stands for none if it is the only one. -/
def besideGap (row : List (List Char)) : List (List Char) := if row = [[]] then [] else row

/-- Whether a row of pieces is eight groups, or fewer around one gap. -/
def isGroupRow (row : List (List Char)) : Bool :=
  match gaps row with
  | [] => row.length = 8 && row.all isGroup
  | [gap] =>
    let groups := besideGap (row.take gap) ++ besideGap (row.drop (gap + 1))
    groups.length ≤ 7 && groups.all isGroup
  | _ => false

/-- A text before its first percent sign, if what follows it may name a zone. -/
def withoutZone? (cs : List Char) : Option (List Char) :=
  match cs.dropWhile (· != '%') with
  | [] => some cs
  | _ :: zone =>
    if zone.isEmpty || zone.contains '%' then none else some (cs.takeWhile (· != '%'))

/-- Whether a text is eight groups with colons between them. -/
def isEightGroups (cs : List Char) : Bool :=
  match withoutZone? cs with
  | none => false
  | some cs =>
    let row := Text.pieces ':' cs
    3 ≤ row.length && (groupsOf? row).any isGroupRow

end SceneReplay.Web
