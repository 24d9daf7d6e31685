import SceneReplay.Fault
import SceneReplay.Number.Numeral
import SceneReplay.Web.Host
import SceneReplay.Text.Literal

/-!
# Addresses

A request is sent to an address (`SceneReplay.Web.Address`). It may be nothing but a
path, or have a scheme and an authority in front of it, which is a host with a user
before it and a port behind it. Only an address with a scheme and a host says where to
send a request; any other is taken relative to the service.

Some addresses are no good (`SceneReplay.Web.addressFault?`): they hold what no address
holds, or parts that do not fit together, or they lead to where no request can be sent.
-/

namespace SceneReplay.Web

/-- An address, cut into its parts. -/
structure Address where
  /-- The name before a colon, or nothing. -/
  scheme : List Char
  /-- What stands between two slashes and the path, or nothing. -/
  authority : List Char
  /-- The path. -/
  path : List Char

namespace Address

/-! ### The parts of an address -/

/-- Whether a character can stand in the name of a scheme. -/
def isSchemeChar (c : Char) : Bool :=
  c.isAlphanum || c = '+' || c = '-' || c = '.'

/-- Takes a scheme and its colon off the front. Its name may be missing, but it does not
start with a digit or a sign. -/
def takeScheme (cs : List Char) : List Char × List Char :=
  let name := cs.takeWhile isSchemeChar
  match cs.dropWhile isSchemeChar with
  | ':' :: rest => if name.head?.all Char.isAlpha then (name, rest) else ([], cs)
  | _ => ([], cs)

/-- Whether a character stands before a query or a fragment. -/
def beforeQuery (c : Char) : Bool := c != '?' && c != '#'

/-- Whether a character can stand in an authority. -/
def inAuthority (c : Char) : Bool := beforeQuery c && c != '/'

/-- Takes an authority and the slashes before it off the front. -/
def takeAuthority : List Char → List Char × List Char
  | '/' :: '/' :: cs => (cs.takeWhile inAuthority, cs.dropWhile inAuthority)
  | cs => ([], cs)

/-- Cuts an address into its parts. -/
def ofString (address : String) : Address :=
  let (scheme, rest) := takeScheme address.toList
  let (authority, rest) := takeAuthority rest
  ⟨scheme.map Char.toLower, authority, rest.takeWhile beforeQuery⟩

/-! ### The parts of an authority -/

/-- The authority without the user: what follows the last at sign. -/
def withoutUser (a : Address) : List Char :=
  (a.authority.reverse.takeWhile (· != '@')).reverse

/-- The user, or nothing. -/
def user (a : Address) : List Char :=
  (a.authority.take (a.authority.length - a.withoutUser.length)).dropLast

/-- A text up to its last closing bracket. -/
def throughBracket (cs : List Char) : List Char :=
  (cs.reverse.dropWhile (· != ']')).reverse

/-- The host: what stands between brackets, with these, or else before a colon. -/
def host (a : Address) : List Char :=
  let cs := a.withoutUser
  if cs.head? == some '[' && cs.contains ']' then throughBracket cs
  else cs.takeWhile (· != ':')

/-- The port, or nothing. -/
def port (a : Address) : List Char :=
  match a.withoutUser.drop a.host.length with
  | ':' :: cs => cs
  | cs => cs

/-- Whether there is nothing but a path. -/
def isBare (a : Address) : Bool :=
  a.scheme.isEmpty && a.user.isEmpty && a.host.isEmpty && a.port.isEmpty

/-- Whether the address says where to send a request. -/
def isAbsolute (a : Address) : Bool := !a.scheme.isEmpty && !a.host.isEmpty

end Address

/-! ### Addresses that are no good -/

/-- What can be wrong with an address. -/
inductive AddressFault where
  /-- It is too long. -/
  | tooLong
  /-- It holds a control character, first at this position. -/
  | controlCharacter (c : Char) (position : Nat)
  /-- Its host is meant as four octets and is not. -/
  | notOctets (host : Text)
  /-- Its host stands between brackets and is not eight groups. -/
  | notGroups (host : Text)
  /-- Its port is no integer. -/
  | notAPort (port : Text)
  /-- It is a path that starts with two slashes. -/
  | leadingSlashes
  /-- It is a path that starts with a colon. -/
  | leadingColon
  /-- No request can be sent by its scheme. -/
  | unknownScheme (scheme : Text)
  /-- Its host has colons, so that this is taken for its port. -/
  | portInHost (rest : Text)

/-- The wording of what is wrong with an address. -/
def AddressFault.message : AddressFault → String
  | .tooLong => "URL too long"
  | .controlCharacter c position =>
    "Invalid non-printable ASCII character in URL, " ++ Text.literal (Text.ofChars [c])
      ++ " at position " ++ toString position ++ "."
  | .notOctets host => "Invalid IPv4 address: " ++ Text.literal host
  | .notGroups host => "Invalid IPv6 address: " ++ Text.literal host
  | .notAPort port => "Invalid port: " ++ Text.literal port
  | .leadingSlashes => "Relative URLs cannot have a path starting with '//'"
  | .leadingColon => "Relative URLs cannot have a path starting with ':'"
  | .unknownScheme scheme => Text.literal scheme
  | .portInHost rest => (Fault.notAnInteger rest).message

/-- The greatest length of an address. -/
def addressLimit : Nat := 65536

/-- Whether a character is an ASCII control character. -/
def isControl (c : Char) : Bool := c.toNat < 0x20 || c.toNat = 0x7F

/-- Looks for a control character. -/
def controlFault? (cs : List Char) : Option AddressFault :=
  (cs.zipIdx.find? fun c => isControl c.1).map fun c => .controlCharacter c.1 c.2

namespace Address

/-- Checks a host that is given as a number. -/
def hostFault? (a : Address) : Option AddressFault :=
  let host := a.host
  if looksLikeOctets host then
    if isFourOctets host then none else some (.notOctets (Text.ofChars host))
  else
    match host with
    | '[' :: inner =>
      if inner.getLast? == some ']' && !isEightGroups inner.dropLast then
        some (.notGroups (Text.ofChars host))
      else none
    | _ => none

/-- Checks the port. -/
def portFault? (a : Address) : Option AddressFault :=
  let port := Text.ofChars a.port
  if port.isEmpty then none
  else
    match readInteger port with
    | .ok _ => none
    | .error _ => some (.notAPort port)

/-- Checks the start of a path that stands alone. -/
def pathFault? (a : Address) : Option AddressFault :=
  match a.isBare, a.path with
  | true, '/' :: '/' :: _ => some .leadingSlashes
  | true, ':' :: _ => some .leadingColon
  | _, _ => none

/-- The port that a scheme has when none is given, for those by which requests are
sent. -/
def defaultPort? (scheme : List Char) : Option Int :=
  if scheme = "http".toList then some 80
  else if scheme = "https".toList then some 443
  else none

/-- A port behind its colon, unless it is the one that the scheme has anyway. -/
def writtenPort (a : Address) : Text :=
  match readInteger (Text.ofChars a.port) with
  | .ok n => if defaultPort? a.scheme == some n then [] else .char ':' :: (toString n : Text)
  | .error _ => []

/-- Checks that a request can be sent to where the address says. -/
def sendFault? (a : Address) : Option AddressFault :=
  if !a.isAbsolute then none
  else if (defaultPort? a.scheme).isNone then some (.unknownScheme (Text.ofChars a.scheme))
  else
    match a.host.head?, a.host.dropWhile (· != ':') with
    | some '[', _ :: rest => some (.portInHost (Text.ofChars rest ++ a.writtenPort))
    | _, _ => none

end Address

/-- What is wrong with an address, if anything is. -/
def addressFault? (address : String) : Option AddressFault :=
  let a := Address.ofString address
  if addressLimit < address.length then some .tooLong
  else
    controlFault? address.toList <|> a.hostFault? <|> a.portFault? <|> a.pathFault?
      <|> a.sendFault?

end SceneReplay.Web
