import SceneReplay.Service.App
import SceneReplay.Web.Address

/-!
# Paths of addresses

Of the address that a request is sent to, the path counts. It may be written in several
ways and is brought into its simplest form (`SceneReplay.Web.normalPath`): steps that
lead nowhere or back are taken, and escapes are resolved. A route is named by its path
exactly, but a line feed may stand behind it; and if no route has that path, the slashes
at its end are left away (`SceneReplay.Web.route?`).
-/

namespace SceneReplay.Web

open Service (Route)

/-- A letter of a method in capitals. The long s is a form of s, also where it is joined
with a t. -/
def capitals (c : Char) : List Char :=
  if c = 'ſ' then ['S']
  else if c = 'ﬅ' || c = 'ﬆ' then ['S', 'T']
  else [c.toUpper]

/-- Whether two methods are the same but for the case of their letters; the second is
written in capitals. -/
def sameMethod (method name : String) : Bool :=
  method.toList.flatMap capitals == name.toList

/-- Whether a route answers a method. -/
def accepts (r : Route) (method : String) : Bool := sameMethod method r.method

/-! ### The simplest form of a path -/

/-- Takes one more piece of a path. A single dot leads nowhere, and two dots lead back,
but not beyond the start. The pieces taken so far are in reverse order. -/
def takePiece (taken : List (List Char)) (piece : List Char) : List (List Char) :=
  if piece = ['.'] then taken
  else if piece = ['.', '.'] then (if taken = [[]] then taken else taken.tail)
  else piece :: taken

/-- A path without steps that lead nowhere or back. -/
def resolveDots (cs : List Char) : List Char :=
  List.intercalate ['/'] ((Text.pieces '/' cs).foldl takePiece []).reverse

/-- The ASCII character that an escape stands for, given its two digits. -/
def escapedAscii? (a b : Char) : Option Char := do
  let n := (← Text.hexValue? a) * 16 + (← Text.hexValue? b)
  if n < 0x80 then some (Char.ofNat n) else none

/-- Resolves the escapes of ASCII characters. All others are kept: no route has such
characters. -/
def resolveEscapes : List Char → List Char
  | '%' :: a :: b :: cs =>
    match escapedAscii? a b with
    | some c => c :: resolveEscapes cs
    | none => '%' :: resolveEscapes (a :: b :: cs)
  | c :: cs => c :: resolveEscapes cs
  | [] => []
termination_by cs => cs.length

/-- The path of an address from the root of the service, without steps that lead nowhere
or back. -/
def rootedPath (a : Address) : List Char :=
  let path := if a.isBare then a.path else resolveDots a.path
  if a.isAbsolute then path else resolveDots ('/' :: path.dropWhile (· == '/'))

/-- The path of an address in its simplest form. Escapes are resolved on the way out and
on the way in, so that an escape may itself be escaped. -/
def normalPath (address : String) : String :=
  let resolved := resolveEscapes (resolveEscapes (rootedPath (Address.ofString address)))
  if resolved.isEmpty then "/" else String.ofList resolved

/-! ### Finding a route -/

/-- The route that has precisely this path. -/
def exactRoute? (path : String) : Option Route :=
  Route.all.find? fun r => path = r.path || path = r.path ++ "\n"

/-- A path without the slashes at its end. -/
def dropSlashes (path : String) : String :=
  String.ofList (path.toList.reverse.dropWhile (· == '/')).reverse

/-- The route that an address leads to. -/
def route? (address : String) : Option Route :=
  let path := normalPath address
  exactRoute? path <|> exactRoute? (dropSlashes path)

end SceneReplay.Web
