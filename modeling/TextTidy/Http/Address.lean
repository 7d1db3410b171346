import TextTidy.Http.Path
import TextTidy.Text.Quoted

/-!
# Addresses

Where a request goes. An address is a path, or a path with a scheme and an authority in front of it;
what it says behind its path does not matter here.

How addresses are read is assumed of the client that sends requests: blanks and controls in front of
an address and ends of lines in it are passed over, brackets in an authority come in pairs, and an
authority that states an endpoint has to state a number below 65536.
-/

namespace TextTidy.Http

/-- Why an address cannot be used. -/
inductive AddressFault where
  | looseBracket
  | wordyEndpoint (given : String)
  | largeEndpoint
deriving DecidableEq, Repr

/-- The wording of a fault. -/
def AddressFault.message : AddressFault → String
  | looseBracket => "Invalid IPv6 URL"
  | wordyEndpoint given => "Port could not be cast to integer value as " ++ Text.quoted given
  | largeEndpoint => "Port out of range 0-65535"

/-- The parts of an address that a request depends on. -/
structure Address where
  /-- The scheme in lower case; empty when there is none. -/
  scheme : List Char
  /-- Who is asked; empty when nobody is named. -/
  authority : List Char
  /-- The path as it is written. -/
  path : List Char
deriving DecidableEq, Repr

namespace Address

/-! ## Reading -/

/-- Whether a character in front of an address is passed over: a control of ASCII, or a space. -/
def isLeadIn (c : Char) : Bool := c.toNat ≤ 0x20

/-- Whether a character in an address is passed over: a tab, or an end of line. -/
def isLayout (c : Char) : Bool := c == '\t' || c == '\n' || c == '\r'

/-- Whether a character can stand in a scheme. -/
def isSchemeChar (c : Char) : Bool := c.isAlphanum || c == '+' || c == '-' || c == '.'

/-- Whether a character ends an authority. -/
def isAuthorityEnd (c : Char) : Bool := c == '/' || c == '?' || c == '#'

/-- Whether a character ends a path. -/
def isPathEnd (c : Char) : Bool := c == '?' || c == '#'

/-- An address without the characters in it that do not count. -/
def significant (s : List Char) : List Char := (s.dropWhile isLeadIn).filter (!isLayout ·)

/-- The scheme of an address, and what follows its colon. A scheme begins with a letter. -/
def cutScheme (s : List Char) : List Char × List Char :=
  match s.takeWhile isSchemeChar, s.dropWhile isSchemeChar with
  | first :: others, ':' :: rest =>
    if first.isAlpha then ((first :: others).map Char.toLower, rest) else ([], s)
  | _, _ => ([], s)

/-- The authority that two slashes announce, and what follows it. -/
def cutAuthority : List Char → List Char × List Char
  | '/' :: '/' :: s => (s.takeWhile (!isAuthorityEnd ·), s.dropWhile (!isAuthorityEnd ·))
  | s => ([], s)

/-- The parts of an address. In an authority both brackets stand, or none. -/
def read (s : List Char) : Except AddressFault Address :=
  let (scheme, s) := cutScheme (significant s)
  let (authority, s) := cutAuthority s
  if authority.contains '[' = authority.contains ']' then
    .ok ⟨scheme, authority, s.takeWhile (!isPathEnd ·)⟩
  else .error .looseBracket

/-! ## Endpoints -/

/-- What follows the last of some characters, or everything when there is none of them. -/
def behindLast (c : Char) (s : List Char) : List Char := (s.reverse.takeWhile (· != c)).reverse

/-- What follows the first of some characters, or nothing when there is none of them. -/
def behindFirst (c : Char) (s : List Char) : List Char := (s.dropWhile (· != c)).drop 1

/-- The number of the endpoint that an authority states, as it is written: behind the name of a user,
    the host and a colon. A host in brackets may hold colons. -/
def statedEndpoint (authority : List Char) : List Char :=
  let host := behindLast '@' authority
  behindFirst ':' (if host.contains '[' then behindFirst ']' (behindFirst '[' host) else host)

/-- The largest number of an endpoint. -/
def maxEndpoint : Nat := 65535

/-- Refuses an endpoint that is stated in other characters than digits, or whose number is too
    large. -/
def checkEndpoint (authority : List Char) : Except AddressFault Unit :=
  let given := statedEndpoint authority
  if given.all Char.isDigit then
    if Text.numberOfDigits (given.map fun c => c.toNat - '0'.toNat) ≤ maxEndpoint then .ok ()
    else .error .largeEndpoint
  else .error (.wordyEndpoint (String.ofList given))

end Address

end TextTidy.Http
