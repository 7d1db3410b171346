import TextTidy.Text.Digits
import TextTidy.Text.Utf8

/-!
# Paths

The path of a request, as the bytes that it stands for. It is assumed of the framework that it
undoes percent signs before it looks for slashes, so that slashes written by number separate parts
like any others; that a percent sign without two hexadecimal digits stands for itself; that every
path starts at the root; and that slashes in a row can be merged into one.
-/

namespace TextTidy.Http

/-- The byte that separates the parts of a path. -/
def slash : UInt8 := 0x2F

/-- The byte that ends a line. -/
def lineFeed : UInt8 := 0x0A

/-- The bytes that a path stands for. A percent sign with two hexadecimal digits behind it is the
    byte of that number, and everything else stands for itself. -/
def unescape : List Char → Bytes
  | [] => []
  | '%' :: high :: low :: rest =>
    match Text.hexByte? high low with
    | some byte => byte :: unescape rest
    | none => Utf8.encodeNat '%'.toNat ++ unescape (high :: low :: rest)
  | c :: rest => Utf8.encodeNat c.toNat ++ unescape rest

/-- A path that starts at the root, with one slash. -/
def rooted (path : Bytes) : Bytes := slash :: path.dropWhile (· == slash)

/-- A path in which no slash follows another. -/
def mergeSlashes : Bytes → Bytes
  | a :: b :: rest =>
    if a = slash ∧ b = slash then mergeSlashes (b :: rest) else a :: mergeSlashes (b :: rest)
  | path => path

end TextTidy.Http
