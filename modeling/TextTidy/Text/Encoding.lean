import TextTidy.Text.Utf8

/-!
# Unicode encodings told apart

Bytes that hold JSON in one of the Unicode encodings say themselves which one it is: by a byte order
mark, or by where the zero bytes of the first characters lie, as these are of ASCII.
-/

namespace TextTidy

/-- Which byte of a number comes first. -/
inductive ByteOrder where
  | big
  | little
deriving DecidableEq, Repr

/-- The number of some bytes in an order. -/
def ByteOrder.number : ByteOrder → Bytes → Nat
  | big, bytes => bytes.foldl (fun n b => n * 256 + b.toNat) 0
  | little, bytes => bytes.foldr (fun b n => n * 256 + b.toNat) 0

/-- The encodings of Unicode text. -/
inductive Encoding where
  | utf8
  | utf16 (order : ByteOrder)
  | utf32 (order : ByteOrder)
deriving DecidableEq, Repr

namespace Encoding

/-- The numbers of the 16-bit units of bytes. -/
def units16? (order : ByteOrder) : Bytes → Option (List Nat)
  | [] => some []
  | [_] => none
  | a :: b :: rest => (units16? order rest).map (order.number [a, b] :: ·)

/-- The numbers of the 32-bit units of bytes. -/
def units32? (order : ByteOrder) : Bytes → Option (List Nat)
  | [] => some []
  | a :: b :: c :: d :: rest => (units32? order rest).map (order.number [a, b, c, d] :: ·)
  | _ => none

/-- The code points of a text with each pair of surrogates that belongs together joined. -/
def joinPairs : Text → Text
  | [] => []
  | [c] => [c]
  | high :: low :: rest =>
    match high.join? low with
    | some c => c :: joinPairs rest
    | none => high :: joinPairs (low :: rest)

/-- The text of bytes in an encoding, lone surrogates allowed. -/
def decode : Encoding → Bytes → Option Text
  | utf8, bytes => Utf8.decode bytes
  | utf16 order, bytes => do
    let units ← units16? order bytes
    return joinPairs (← units.mapM CodePoint.ofNat?)
  | utf32 order, bytes => do
    let units ← units32? order bytes
    units.mapM CodePoint.ofNat?

/-- The byte order marks and the encodings they announce; the longer one of two comes first. -/
def marks : List (Bytes × Encoding) :=
  [([0x00, 0x00, 0xFE, 0xFF], utf32 .big), ([0xFF, 0xFE, 0x00, 0x00], utf32 .little),
    ([0xFE, 0xFF], utf16 .big), ([0xFF, 0xFE], utf16 .little), ([0xEF, 0xBB, 0xBF], utf8)]

/-- The encoding of bytes without a mark. -/
def byZeros : Bytes → Encoding
  | [a, b] => if a = 0 then utf16 .big else if b = 0 then utf16 .little else utf8
  | a :: b :: c :: d :: _ =>
    if a = 0 then (if b = 0 then utf32 .big else utf16 .big)
    else if b = 0 then (if c = 0 ∧ d = 0 then utf32 .little else utf16 .little)
    else utf8
  | _ => utf8

/-- The text of bytes in whichever Unicode encoding they are, without the mark. -/
def decodeAny (bytes : Bytes) : Option Text :=
  match marks.find? (·.1.isPrefixOf bytes) with
  | some (mark, encoding) => encoding.decode (bytes.drop mark.length)
  | none => (byZeros bytes).decode bytes

end Encoding

end TextTidy
