import TextTidy.Http.Address

/-!
# Requests

A request as the interface sees it, and how it comes about from what a caller states. It is assumed
of the client that it reads the address twice, the second time only what the first reading took for
the path, and that it sends no header of more than one line.
-/

namespace TextTidy.Http

/-- A request. -/
structure Request where
  /-- The method, as it is written. -/
  method : String
  /-- Whether the request asks for a web socket. -/
  socket : Bool
  /-- The path, as bytes. -/
  path : Bytes
  /-- The content type, if one is stated. -/
  contentType : Option String
  /-- The body. -/
  body : Bytes
deriving DecidableEq, Repr

/-- Why a request cannot be made. -/
inductive RequestFault where
  | address (fault : AddressFault)
  | brokenHeader
deriving DecidableEq, Repr

/-- The wording of a fault. -/
def RequestFault.message : RequestFault → String
  | address fault => fault.message
  | brokenHeader => "Header values must not contain newline characters."

/-- The schemes of web sockets. -/
def socketSchemes : List (List Char) := ["ws".toList, "wss".toList]

/-- Where an address leads: whether to a web socket, and the bytes of the path. What remains behind
    the authority is read as an address again, of which the path counts. -/
def destination (address : String) : Except AddressFault (Bool × Bytes) := do
  let outer ← Address.read address.toList
  let inner ← Address.read outer.path
  Address.checkEndpoint outer.authority
  return (socketSchemes.contains outer.scheme, unescape inner.path)

/-- Whether a header can have a value: it stays on one line. -/
def isHeaderValue (value : String) : Bool := value.toList.all fun c => c != '\n' && c != '\r'

/-- The request that a caller states. -/
def Request.make (method address : String) (contentType : Option String) (body : Bytes) :
    Except RequestFault Request :=
  match destination address with
  | .error fault => .error (.address fault)
  | .ok (socket, path) =>
    if contentType.all isHeaderValue then .ok ⟨method, socket, path, contentType, body⟩
    else .error .brokenHeader

end TextTidy.Http
