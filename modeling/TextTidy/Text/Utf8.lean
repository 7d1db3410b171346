import TextTidy.CodePoint

/-!
# UTF-8

Text as bytes. The code here writes and reads lone surrogates in the way it writes and reads other
code points of their size; strict UTF-8 is what remains when there are none.
-/

namespace TextTidy

/-- A sequence of bytes. -/
abbrev Bytes := List UInt8

namespace Utf8

/-- The six bits that a continuation byte carries. -/
def continuation? (b : UInt8) : Option Nat :=
  if 0x80 ≤ b.toNat ∧ b.toNat < 0xC0 then some (b.toNat - 0x80) else none

/-- The code point of a number that needs more bytes than numbers below `least` do. -/
def atLeast? (least n : Nat) : Option CodePoint := if least ≤ n then CodePoint.ofNat? n else none

/-- The code point that begins with a byte, and how many bytes of the rest belong to it. -/
def sequence? (first : UInt8) (rest : Bytes) : Option (CodePoint × Nat) :=
  let lead := first.toNat
  if lead < 0x80 then (CodePoint.ofNat? lead).map (·, 0)
  else if lead < 0xC0 then none
  else if lead < 0xE0 then
    match rest with
    | b :: _ => do
      let b ← continuation? b
      (atLeast? 0x80 ((lead - 0xC0) * 64 + b)).map (·, 1)
    | _ => none
  else if lead < 0xF0 then
    match rest with
    | b :: c :: _ => do
      let b ← continuation? b
      let c ← continuation? c
      (atLeast? 0x800 (((lead - 0xE0) * 64 + b) * 64 + c)).map (·, 2)
    | _ => none
  else if lead < 0xF8 then
    match rest with
    | b :: c :: d :: _ => do
      let b ← continuation? b
      let c ← continuation? c
      let d ← continuation? d
      (atLeast? 0x10000 ((((lead - 0xF0) * 64 + b) * 64 + c) * 64 + d)).map (·, 3)
    | _ => none
  else none

/-- The text of bytes of which the first `skip` still belong to the code point before. -/
def decodeFrom : (skip : Nat) → Bytes → Option Text
  | _, [] => some []
  | skip + 1, _ :: rest => decodeFrom skip rest
  | 0, b :: rest =>
    match sequence? b rest with
    | none => none
    | some (c, more) => (decodeFrom more rest).map (c :: ·)

/-- The text of bytes, lone surrogates allowed. -/
def decode (bytes : Bytes) : Option Text := decodeFrom 0 bytes

/-- The string of bytes in strict UTF-8. -/
def decodeStrict (bytes : Bytes) : Option String := (decode bytes).bind Text.toString?

/-- The bytes of a number. -/
def encodeNat (n : Nat) : Bytes :=
  let trail (m : Nat) : UInt8 := UInt8.ofNat (0x80 + m % 64)
  if n < 0x80 then [UInt8.ofNat n]
  else if n < 0x800 then [UInt8.ofNat (0xC0 + n / 64), trail n]
  else if n < 0x10000 then [UInt8.ofNat (0xE0 + n / 4096), trail (n / 64), trail n]
  else [UInt8.ofNat (0xF0 + n / 262144), trail (n / 4096), trail (n / 64), trail n]

/-- The bytes of a text. -/
def encode (s : Text) : Bytes := s.flatMap fun c => encodeNat c.value

/-- The bytes of a string. -/
def encodeString (s : String) : Bytes := encode (Text.ofString s)

end Utf8

end TextTidy
