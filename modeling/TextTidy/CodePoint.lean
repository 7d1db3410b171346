/-!
# Code points

A text is a list of code points. Nearly all of them are characters; a surrogate that stands alone
can also be met, because a JSON string may name one by its number.
-/

namespace TextTidy

/-- A code point: a character, or a surrogate that stands alone, by its place among the 2048. -/
inductive CodePoint where
  | char (c : Char)
  | surrogate (index : Fin 2048)
deriving DecidableEq, Repr

instance : Coe Char CodePoint := ⟨CodePoint.char⟩

namespace CodePoint

/-- The number of a code point. -/
def value : CodePoint → Nat
  | char c => c.toNat
  | surrogate index => 0xD800 + index.val

/-- The code point of a number, if there is one. -/
def ofNat? (n : Nat) : Option CodePoint :=
  if h : 0xD800 ≤ n ∧ n < 0xE000 then some (surrogate ⟨n - 0xD800, by omega⟩)
  else if n < 0x110000 then some (char (Char.ofNat n))
  else none

/-- The character, unless the code point is a surrogate. -/
def char? : CodePoint → Option Char
  | char c => some c
  | surrogate _ => none

/-- Whether the number lies in one of the given ranges, ends included. -/
def within (ranges : List (Nat × Nat)) (c : CodePoint) : Bool :=
  ranges.any fun range => range.1 ≤ c.value && c.value ≤ range.2

/-- The character that a high surrogate and a low one behind it stand for. -/
def join? : CodePoint → CodePoint → Option CodePoint
  | surrogate high, surrogate low =>
    if high.val < 1024 ∧ 1024 ≤ low.val then
      ofNat? (0x10000 + high.val * 1024 + (low.val - 1024))
    else none
  | _, _ => none

end CodePoint

/-- A sequence of code points. Offsets, columns and lengths count code points. -/
abbrev Text := List CodePoint

namespace Text

/-- The text of a string. -/
def ofString (s : String) : Text := s.toList.map CodePoint.char

/-- The string of a text without lone surrogates. -/
def toString? (s : Text) : Option String := (s.mapM CodePoint.char?).map String.ofList

/-- What is left of a text that begins with the given characters. -/
def dropStart? : (start : List Char) → Text → Option Text
  | [], s => some s
  | _ :: _, [] => none
  | a :: start, c :: s => if c = CodePoint.char a then dropStart? start s else none

/-- Whether a text begins with the given one. -/
def startsWith (s start : Text) : Bool := start.isPrefixOf s

/-- Whether the given text stands somewhere in `s`; the empty text always does. -/
def contains (s : Text) (part : Text) : Bool :=
  match s with
  | [] => part.isEmpty
  | c :: rest => startsWith (c :: rest) part || contains rest part

theorem toString?_ofString (s : String) : toString? (ofString s) = some s := by
  have h : ∀ cs : List Char, (cs.map CodePoint.char).mapM CodePoint.char? = some cs := by
    intro cs
    induction cs with
    | nil => rfl
    | cons c cs ih => simp [CodePoint.char?, ih]
  simp [toString?, ofString, h]

end Text

end TextTidy
